import Orm.Derive.Role
import Orm.Text.Lower

/-
What a declaration expands to: the definition of the model and the code of its methods.

A definition is a new field and the steps that complete it, so that it can be evaluated as well as
written. A method has one arm for each field that it recognises and refuses every other name.
-/

namespace Orm.Derive

/-! ## Definitions -/

/-- A step that completes the definition of a field. -/
inductive Step where
  | column (name : String)
  | relation (r : Relation Tokens)
  | primaryKey
  | unique
  | auto
  | maxLength (n : Nat)
  | nullable
  deriving DecidableEq, Repr

def Step.apply (f : FieldDef Tokens) : Step → FieldDef Tokens
  | .column name => f.withColumn name
  | .relation r => f.withRelation r
  | .primaryKey => f.asPrimaryKey
  | .unique => f.asUnique
  | .auto => f.asAuto
  | .maxLength n => f.withMaxLength n
  | .nullable => f.asNullable

structure Definition where
  name : Token
  type : FieldType
  steps : List Step
  deriving DecidableEq, Repr

/-- The field that is defined. -/
def Definition.field (d : Definition) : FieldDef Tokens :=
  d.steps.foldl Step.apply (.new d.name d.type)

/-- The action that a field asks for, if it knows one of that name. -/
def actionOf : Option String → Except Fault ReferentialAction
  | none => .ok .doNothing
  | some s =>
    orFault (.unknownValue (ReferentialAction.normalized s))
      (ReferentialAction.ofNormalized? (ReferentialAction.normalized s))

def step (b : Bool) (s : Step) : List Step :=
  if b then [s] else []

/-- The steps that every kind of field may have. -/
def FieldOptions.steps (o : FieldOptions) : List Step :=
  step o.primaryKey .primaryKey ++ step o.unique .unique ++ step o.auto .auto ++
    (o.maxLength.map Step.maxLength).toList

def Field.manyRelation (f : Field) (target : Tokens) : Relation Tokens :=
  if f.options.manyToMany then
    { kind := .manyToMany
      target
      through := do
        return ⟨← f.options.through, ← f.options.source, ← f.options.target⟩ }
  else { kind := .oneToMany, target, relatedField := some (f.options.reverse.getD "") }

/-- The definition of a field of the model. -/
def Field.definition? (f : Field) : Except Fault (Option Definition) := do
  let o := f.options
  match f.role with
  | .computed => return none
  | .scalar =>
    return some ⟨f.name, columnType f.type o,
      o.steps ++ step (o.null || (Tokens.argument? "Option" f.type).isSome) .nullable ++
        (o.column.map Step.column).toList⟩
  | .forward target _ =>
    let onDelete ← actionOf o.onDelete
    let onUpdate ← actionOf o.onUpdate
    return some ⟨f.name, if o.oneToOne then .oneToOne else .foreignKey,
      [.column (o.column.getD (f.name ++ "_id")),
       .relation { kind := if o.oneToOne then .oneToOne else .manyToOne, target, onDelete, onUpdate }] ++
        o.steps ++ step o.null .nullable⟩
  | .backward target _ related =>
    return some ⟨f.name, .oneToOne,
      .relation { kind := .oneToOne, target, relatedField := some related } :: o.steps⟩
  | .many target =>
    return some ⟨f.name, if o.manyToMany then .manyToMany else .reverseForeignKey,
      .relation (f.manyRelation target) :: o.steps⟩

/-- The definitions of all fields, up to the first fault. -/
def definitions : List Field → Except Fault (List Definition)
  | [] => .ok []
  | f :: rest => do
    let d ← f.definition?
    return d.toList ++ (← definitions rest)

/-! ## Methods -/

/-- The methods that look at a field by its name. -/
inductive Method where
  | getValue
  | setValue
  | related
  | relatedMut
  | setRelated
  | relatedMany
  | relatedManyMut
  | pushRelated
  deriving DecidableEq, Repr

def Method.all : List Method :=
  [.getValue, .setValue, .related, .relatedMut, .setRelated, .relatedMany, .relatedManyMut,
   .pushRelated]

/-- What a method does with a field that it recognises. -/
inductive Action where
  | readColumn
  | writeColumn
  /-- Reads the key of the related instance. -/
  | readKey
  | writeKey
  | lend (boxed mutable : Bool)
  /-- Takes an instance of the target's model. -/
  | assign (target : Tokens) (boxed : Bool)
  | lendAll (mutable : Bool)
  | append (target : Tokens)
  deriving DecidableEq, Repr

/-- What a method does with a field, if it recognises it. -/
def Field.action? (f : Field) : Method → Option Action
  | .getValue =>
    match f.role with
    | .scalar => some .readColumn
    | .forward _ _ => some .readKey
    | _ => none
  | .setValue =>
    match f.role with
    | .scalar => some .writeColumn
    | .forward _ _ => some .writeKey
    | _ => none
  | .related => one fun _ boxed => .lend boxed false
  | .relatedMut => one fun _ boxed => .lend boxed true
  | .setRelated => one .assign
  | .relatedMany => many fun _ => .lendAll false
  | .relatedManyMut => many fun _ => .lendAll true
  | .pushRelated => many .append
where
  one (g : Tokens → Bool → Action) : Option Action :=
    match f.role with
    | .forward target boxed | .backward target boxed _ => some (g target boxed)
    | _ => none
  many (g : Tokens → Action) : Option Action :=
    match f.role with
    | .many target => some (g target)
    | _ => none

/-! ## Expansion -/

structure Expansion where
  /-- The path of the library in the generated code. -/
  library : Tokens
  name : Token
  appLabel : String
  modelName : String
  table : String
  definitions : List Definition
  uniqueTogether : List (List String)
  ordering : List String
  fields : List Field
  deriving DecidableEq, Repr

/-- The arms of a method, in the order of the fields. -/
def Expansion.arms (e : Expansion) (m : Method) : List (Token × Action) :=
  e.fields.filterMap fun f => (f.action? m).map (f.name, ·)

/-- The field that computed values are put into: the last that was declared for them. -/
def Expansion.computed? (e : Expansion) : Option Token :=
  (e.fields.filter (·.role == .computed)).getLast?.map (·.name)

/-- The names of a group, of which there have to be two. -/
def groupOf (s : String) : Except Fault (List String) :=
  let names := ((Text.split ',' s).map Text.trim).filter (!·.isEmpty)
  if names.length < 2 then .error .smallGroup else .ok names

def groupsOf : List String → List (List String) × List Fault
  | [] => ([], [])
  | s :: rest =>
    let (groups, faults) := groupsOf rest
    match groupOf s with
    | .ok names => (names :: groups, faults)
    | .error f => (groups, f :: faults)

def orFaults {α : Type} (r : α × List Fault) : Reading α :=
  if r.2.isEmpty then .ok r.1 else .error r.2

def faulty {α : Type} : Except Fault α → Reading α
  | .ok a => .ok a
  | .error f => .error [f]

/--
Expands a declaration. The attributes of the structure and its shape are looked at first, then the
attributes of all fields, their roles, the groups and the definitions; faults of one of these end it.
-/
def Declaration.expand (d : Declaration) : Reading Expansion := do
  let (o, faults) := readAttributes ModelOptions.known [] ({} : ModelOptions) d.attributes
  let decls ← match d.shape.fields with
    | .ok decls => orFaults (decls, faults)
    | .error f => .error (faults ++ [f])
  let fields ← orFaults (rolesOf (← orFaults (readFields decls)))
  let groups ← orFaults (groupsOf o.uniqueTogether)
  let definitions ← faulty (Derive.definitions fields)
  let appLabel := o.app.getD "app"
  let modelName := Text.lower d.name
  return { library := o.library.getD ["::", "djorm_db"]
           name := d.name
           appLabel
           modelName
           table := o.table.getD (appLabel ++ "_" ++ modelName)
           definitions
           uniqueTogether := groups
           ordering := o.ordering
           fields }

end Orm.Derive
