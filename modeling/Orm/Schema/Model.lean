import Orm.Schema.Field

/-
Models: a table, its fields and its keys.
-/

namespace Orm

structure Model (ι : Type) where
  /-- The name of the type of instances. -/
  typeName : String
  appLabel : String
  modelName : String
  table : String
  fields : List (FieldDef ι)
  uniqueTogether : List (List String) := []
  ordering : List String := []
  /-- Whether instances carry computed values. -/
  annotated : Bool := false
  deriving Repr

/-- The models of an index type. -/
abbrev Schema (ι : Type) := ι → Model ι

namespace Model

variable {ι : Type}

def field? (m : Model ι) (name : String) : Option (FieldDef ι) :=
  m.fields.find? (·.name == name)

def field (m : Model ι) (name : String) : Result (FieldDef ι) :=
  match m.field? name with
  | some f => .ok f
  | none => .error (.unknownField m.table name)

def pk? (m : Model ι) : Option (FieldDef ι) :=
  m.fields.find? (·.primaryKey)

def pk (m : Model ι) : Result (FieldDef ι) :=
  match m.pk? with
  | some f => .ok f
  | none => .error (.noUniqueKey m.table)

/-- The fields that are columns of the table. -/
def columnFields (m : Model ι) : List (FieldDef ι) :=
  m.fields.filter (·.hasColumn)

def scalarFields (m : Model ι) : List (FieldDef ι) :=
  m.fields.filter (·.isScalar)

/-- The fields with a unique constraint, the primary key aside. -/
def uniqueFields (m : Model ι) : List (FieldDef ι) :=
  m.fields.filter fun f => f.unique && !f.primaryKey

end Model

/-- The table between the two sides of a many-to-many relation. -/
structure Junction where
  table : String
  sourceColumn : String
  targetColumn : String
  deriving DecidableEq, Repr

namespace Relation

variable {ι : Type}

/--
The junction of a relation that `source` declares as `field`: the model that is named, or a table
and columns named after the two sides.
-/
def junction (r : Relation ι) (schema : Schema ι) (source : Model ι) (field : String) :
    Result Junction :=
  match r.through with
  | some through => do
    let model := schema through.model
    let source ← model.field through.sourceField
    let target ← model.field through.targetField
    return ⟨model.table, source.column, target.column⟩
  | none =>
    let target := schema r.target
    let (a, b) :=
      if source.table = target.table then ("from_" ++ source.table, "to_" ++ target.table)
      else (source.table, target.table)
    .ok ⟨source.table ++ "_" ++ field, a ++ "_id", b ++ "_id"⟩

/-- The relation as messages show it. -/
def shown (r : Relation ι) (schema : Schema ι) : String :=
  let related := match r.relatedField with
    | some f => "Some(" ++ Text.quoted f ++ ")"
    | none => "None"
  let through := match r.through with
    | some t => "Some(Through \x7b model: " ++ Text.quoted (schema t.model).table ++
        ", source_field: " ++ Text.quoted t.sourceField ++
        ", target_field: " ++ Text.quoted t.targetField ++ " \x7d)"
    | none => "None"
  "Relation \x7b kind: " ++ r.kind.name ++ ", target: " ++ Text.quoted (schema r.target).table ++
    ", related_field: " ++ related ++ ", through: " ++ through ++ ", .. \x7d"

end Relation

end Orm
