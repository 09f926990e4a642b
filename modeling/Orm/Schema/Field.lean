import Orm.Schema.FieldType
import Orm.Text.Quoted

/-
Fields of models and the relations between models.

Models are named by an index type `ι`; a `Schema` gives each index its model, so a relation's target
always exists and models may refer to each other in cycles.
-/

namespace Orm

/-- What happens to a row when the row it refers to is deleted or renumbered. -/
inductive ReferentialAction where
  | cascade
  | protect
  | setNull
  | setDefault
  | restrict
  | doNothing
  deriving DecidableEq, Repr

namespace ReferentialAction

def name : ReferentialAction → String
  | .cascade => "Cascade"
  | .protect => "Protect"
  | .setNull => "SetNull"
  | .setDefault => "SetDefault"
  | .restrict => "Restrict"
  | .doNothing => "DoNothing"

def sql : ReferentialAction → String
  | .cascade => "CASCADE"
  | .protect | .restrict => "RESTRICT"
  | .setNull => "SET NULL"
  | .setDefault => "SET DEFAULT"
  | .doNothing => "NO ACTION"

/-- A spelling in lower case, with `_` between the words. -/
def normalized (s : String) : String :=
  String.ofList ((Text.lowerAscii s).toList.map fun c => if c = '-' ∨ c = ' ' then '_' else c)

def ofNormalized? (s : String) : Option ReferentialAction :=
  if s = "cascade" then some .cascade
  else if s = "protect" then some .protect
  else if s = "set_null" then some .setNull
  else if s = "set_default" then some .setDefault
  else if s = "restrict" then some .restrict
  else if s = "do_nothing" ∨ s = "no_action" then some .doNothing
  else none

/-- The action of a spelling in any case, with hyphens, spaces or underscores between the words. -/
def ofText (s : String) : Result ReferentialAction :=
  match ofNormalized? (normalized s) with
  | some a => .ok a
  | none => .error (.configuration ("unknown referential action '" ++ normalized s ++ "'"))

end ReferentialAction

/-- The cardinality of a relation, seen from the model that declares it. -/
inductive RelationKind where
  | manyToOne
  | oneToMany
  | oneToOne
  | manyToMany
  deriving DecidableEq, Repr

def RelationKind.name : RelationKind → String
  | .manyToOne => "ManyToOne"
  | .oneToMany => "OneToMany"
  | .oneToOne => "OneToOne"
  | .manyToMany => "ManyToMany"

/-- A junction that is a model of its own, by its key fields for the two sides. -/
structure Through (ι : Type) where
  model : ι
  sourceField : String
  targetField : String
  deriving DecidableEq, Repr

structure Relation (ι : Type) where
  kind : RelationKind
  target : ι
  /-- The key field on the target, for a relation read backwards. -/
  relatedField : Option String := none
  through : Option (Through ι) := none
  onDelete : ReferentialAction := .doNothing
  onUpdate : ReferentialAction := .doNothing
  deriving DecidableEq, Repr

namespace Relation

variable {ι : Type}

/-- Whether the target's key stands in a column of the declaring model. -/
def ownsColumn (r : Relation ι) : Bool :=
  match r.kind with
  | .manyToOne => true
  | .oneToOne => r.relatedField.isNone
  | .oneToMany | .manyToMany => false

/-- Whether one row may have several related ones. -/
def toMany (r : Relation ι) : Bool :=
  match r.kind with
  | .oneToMany | .manyToMany => true
  | .manyToOne | .oneToOne => false

end Relation

structure FieldDef (ι : Type) where
  name : String
  /-- The column, empty for a relation that owns none. -/
  column : String
  type : FieldType
  primaryKey : Bool := false
  null : Bool := false
  unique : Bool := false
  /-- Whether the database gives the value on insert. -/
  auto : Bool := false
  maxLength : Option Nat := none
  relation : Option (Relation ι) := none
  storage : Storage
  deriving DecidableEq, Repr

namespace FieldDef

variable {ι : Type}

/-- A plain field whose column has its name. -/
def new (name : String) (type : FieldType) : FieldDef ι :=
  { name, column := name, type, auto := type.isAuto, storage := ⟨type.stored, false⟩ }

def withColumn (f : FieldDef ι) (column : String) : FieldDef ι := { f with column }

def asPrimaryKey (f : FieldDef ι) : FieldDef ι := { f with primaryKey := true }

def asNullable (f : FieldDef ι) : FieldDef ι := { f with null := true }

def asUnique (f : FieldDef ι) : FieldDef ι := { f with unique := true }

def asAuto (f : FieldDef ι) : FieldDef ι := { f with auto := true }

def withMaxLength (f : FieldDef ι) (n : Nat) : FieldDef ι := { f with maxLength := some n }

/-- A relation that owns no column takes the field's column away. -/
def withRelation (f : FieldDef ι) (r : Relation ι) : FieldDef ι :=
  { f with column := if r.ownsColumn then f.column else "", relation := some r }

/-- What happens to a row when the row that the field refers to is deleted. -/
def onDelete (f : FieldDef ι) (a : ReferentialAction) : FieldDef ι :=
  { f with relation := f.relation.map fun r => { r with onDelete := a } }

def onUpdate (f : FieldDef ι) (a : ReferentialAction) : FieldDef ι :=
  { f with relation := f.relation.map fun r => { r with onUpdate := a } }

/-- What instances keep the field in. -/
def storedIn (f : FieldDef ι) (type : ScalarType) (optional : Bool) : FieldDef ι :=
  { f with storage := ⟨type, optional⟩ }

def isRelation (f : FieldDef ι) : Bool := f.relation.isSome

def isScalar (f : FieldDef ι) : Bool := f.relation.isNone

/-- Whether the field's own table has a column for it. -/
def hasColumn (f : FieldDef ι) : Bool :=
  match f.relation with
  | some r => r.ownsColumn
  | none => true

end FieldDef

end Orm
