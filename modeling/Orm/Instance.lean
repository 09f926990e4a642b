import Orm.Schema.Model

/-
Instances of models.

An instance has a slot for every field of its model: a value, the instance behind a single relation,
or the instances of a collection. A forward relation reads as the key of the instance behind it.
Operations that write give back the instance also when they fail, because a failed write through a
relation may have left an empty instance behind it.
-/

namespace Orm

mutual
structure Instance (ι : Type) where
  model : ι
  slots : List (String × Slot ι)
  /-- Computed values, in the order of their names. -/
  annotations : List (String × Value) := []

inductive Slot (ι : Type) where
  | scalar (v : Value)
  | one (related : Option (Instance ι))
  | many (related : List (Instance ι))
end

/-- What an operation gives, beside the instance as it left it. -/
abbrev Outcome (ι α : Type) := Instance ι × Result α

def Slot.empty {ι : Type} (f : FieldDef ι) : Slot ι :=
  match f.relation with
  | none => .scalar f.storage.default
  | some r => if r.toMany then .many [] else .one none

namespace Instance

variable {ι : Type}

def new (schema : Schema ι) (model : ι) : Instance ι :=
  { model, slots := (schema model).fields.map fun f => (f.name, Slot.empty f) }

def unknown (schema : Schema ι) (x : Instance ι) (name : String) : Error :=
  .unknownField (schema x.model).table name

def slot? (x : Instance ι) (name : String) : Option (Slot ι) := x.slots.lookup name

def setSlot (slots : List (String × Slot ι)) (name : String) (s : Slot ι) :
    List (String × Slot ι) :=
  slots.map fun (n, old) => if n = name then (n, s) else (n, old)

def withSlot (x : Instance ι) (name : String) (s : Slot ι) : Instance ι :=
  { x with slots := setSlot x.slots name s }

/-! ## Reading -/

mutual
/-- The value of a field that has a column. -/
def value (schema : Schema ι) : Instance ι → String → Result Value
  | ⟨model, slots, _⟩, name =>
    let fault := Error.unknownField (schema model).table name
    match (schema model).field? name with
    | none => .error fault
    | some f => if f.hasColumn then slotValueOf schema fault name slots else .error fault

def slotValueOf (schema : Schema ι) (fault : Error) (name : String) :
    List (String × Slot ι) → Result Value
  | [] => .error fault
  | (n, s) :: rest => if n = name then slotValue schema fault s else slotValueOf schema fault name rest

/-- A relation reads as the key of the instance behind it, NULL without one. -/
def slotValue (schema : Schema ι) (fault : Error) : Slot ι → Result Value
  | .scalar v => .ok v
  | .one none => .ok .null
  | .one (some related) => key schema related
  | .many _ => .error fault

/-- The primary key, NULL for a model without one. -/
def key (schema : Schema ι) : Instance ι → Result Value
  | ⟨model, slots, _⟩ =>
    match (schema model).pk? with
    | none => .ok .null
    | some pk =>
      let fault := Error.unknownField (schema model).table pk.name
      match (schema model).field? pk.name with
      | none => .error fault
      | some f => if f.hasColumn then slotValueOf schema fault pk.name slots else .error fault
end

/-- The values of all fields that have a column. -/
def values (schema : Schema ι) (x : Instance ι) : Result (List (String × Value)) :=
  (schema x.model).columnFields.mapM fun f => do return (f.name, ← x.value schema f.name)

/-- The relation of a field, if the field is a relation of that width. -/
def relation? (schema : Schema ι) (x : Instance ι) (name : String) (toMany : Bool) :
    Option (Relation ι) :=
  (((schema x.model).field? name).bind (·.relation)).filter (·.toMany == toMany)

/-- The instance behind a single relation. -/
def related (schema : Schema ι) (x : Instance ι) (name : String) : Result (Option (Instance ι)) :=
  match x.relation? schema name false, x.slot? name with
  | some _, some (.one r) => .ok r
  | _, _ => .error (unknown schema x name)

/-- The instances of a collection. -/
def relatedMany (schema : Schema ι) (x : Instance ι) (name : String) : Result (List (Instance ι)) :=
  match x.relation? schema name true, x.slot? name with
  | some _, some (.many rs) => .ok rs
  | _, _ => .error (unknown schema x name)

def computed? (x : Instance ι) (name : String) : Option Value := x.annotations.lookup name

/-! ## Writing -/

/-- How many relations a key may lead through. -/
def maxKeyDepth : Nat := 100

/-- The instance behind a single relation, or an empty one. -/
def relatedOrNew (schema : Schema ι) (x : Instance ι) (name : String) (target : ι) : Instance ι :=
  match x.slot? name with
  | some (.one (some r)) => r
  | _ => new schema target

/--
Writes a field that has a column. A relation gets the value as the key of the instance behind it; NULL
takes that instance away.
-/
def setValueIn (schema : Schema ι) : Nat → Instance ι → String → Value → Outcome ι Unit
  | 0, x, name, _ => (x, .error (unknown schema x name))
  | depth + 1, x, name, v =>
    match (schema x.model).field? name with
    | none => (x, .error (unknown schema x name))
    | some f =>
      match f.relation with
      | none =>
        match f.storage.read v with
        | .ok w => (x.withSlot name (.scalar w), .ok ())
        | .error e => (x, .error e)
      | some r =>
        if !r.ownsColumn then (x, .error (unknown schema x name))
        else if v.isNull then (x.withSlot name (.one none), .ok ())
        else
          let target := x.relatedOrNew schema name r.target
          let (target, result) :=
            match (schema target.model).pk? with
            | none => (target, .error (.noUniqueKey (schema target.model).table))
            | some pk => setValueIn schema depth target pk.name v
          (x.withSlot name (.one (some target)), result)

def setValue (schema : Schema ι) (x : Instance ι) (name : String) (v : Value) : Outcome ι Unit :=
  setValueIn schema maxKeyDepth x name v

def setKey (schema : Schema ι) (x : Instance ι) (v : Value) : Outcome ι Unit :=
  match (schema x.model).pk? with
  | none => (x, .error (.noUniqueKey (schema x.model).table))
  | some pk => x.setValue schema pk.name v

/-- Changes the instance behind a single relation in place; says whether there was one. -/
def updateRelated (schema : Schema ι) (x : Instance ι) (name : String)
    (update : Instance ι → Outcome ι Unit) : Outcome ι Bool :=
  match x.related schema name with
  | .error e => (x, .error e)
  | .ok none => (x, .ok false)
  | .ok (some r) =>
    let (r, result) := update r
    (x.withSlot name (.one (some r)), result.map fun _ => true)

def updateEach (update : Instance ι → Outcome ι Unit) :
    List (Instance ι) → List (Instance ι) × Result Nat
  | [] => ([], .ok 0)
  | r :: rest =>
    match update r with
    | (r, .error e) => (r :: rest, .error e)
    | (r, .ok ()) =>
      let (rest, n) := updateEach update rest
      (r :: rest, n.map (· + 1))

/-- Changes the instances of a collection in place, up to the first failure; counts them. -/
def updateMany (schema : Schema ι) (x : Instance ι) (name : String)
    (update : Instance ι → Outcome ι Unit) : Outcome ι Nat :=
  match x.relatedMany schema name with
  | .error e => (x, .error e)
  | .ok rs =>
    let (rs, result) := updateEach update rs
    (x.withSlot name (.many rs), result)

def insertComputed (name : String) (v : Value) : List (String × Value) → List (String × Value)
  | [] => [(name, v)]
  | (n, w) :: rest =>
    if name = n then (name, v) :: rest
    else if name < n then (name, v) :: (n, w) :: rest
    else (n, w) :: insertComputed name v rest

/-- Stores a computed value, if the model keeps them. -/
def annotate (schema : Schema ι) (x : Instance ι) (name : String) (v : Value) :
    Outcome ι Unit :=
  if (schema x.model).annotated then
    ({ x with annotations := insertComputed name v x.annotations }, .ok ())
  else
    (x, .error (.nilPointer ("model '" ++ (schema x.model).modelName ++
      "' has no annotations map for '" ++ name ++ "'")))

variable [DecidableEq ι]

/-- An instance of the wanted model. -/
def ofModel (schema : Schema ι) (target : ι) (x : Instance ι) : Result (Instance ι) :=
  if x.model = target then .ok x
  else .error (.typeMismatch ("instance of '" ++ (schema x.model).modelName ++ "' is not a " ++
    (schema target).typeName))

/-- Replaces the instance behind a single relation. -/
def setRelated (schema : Schema ι) (x : Instance ι) (name : String) (r : Option (Instance ι)) :
    Outcome ι Unit :=
  match x.relation? schema name false with
  | none => (x, .error (unknown schema x name))
  | some relation =>
    match r with
    | none => (x.withSlot name (.one none), .ok ())
    | some r =>
      match r.ofModel schema relation.target with
      | .ok r => (x.withSlot name (.one (some r)), .ok ())
      | .error e => (x, .error e)

/-- Appends to a collection. -/
def pushRelated (schema : Schema ι) (x : Instance ι) (name : String) (r : Instance ι) :
    Outcome ι Unit :=
  match x.relation? schema name true, x.slot? name with
  | some relation, some (.many rs) =>
    match r.ofModel schema relation.target with
    | .ok r => (x.withSlot name (.many (rs ++ [r])), .ok ())
    | .error e => (x, .error e)
  | _, _ => (x, .error (unknown schema x name))

end Instance

end Orm
