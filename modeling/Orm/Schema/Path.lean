import Orm.Schema.Model

/-
Paths over relations, such as `user.profile.email`.

A path names fields from a root model on, each but the last a relation; the last may be any field, or
`*` for all scalar fields of the model reached.
-/

namespace Orm

/-- A relation crossed, with the model that declares it. -/
structure Hop (ι : Type) where
  source : ι
  field : FieldDef ι
  relation : Relation ι
  deriving DecidableEq, Repr

structure Walk (ι : Type) where
  path : String
  root : ι
  /-- The relations crossed, the last field not among them. -/
  chain : List (Hop ι)
  /-- The model reached. -/
  model : ι
  /-- The last field, none for `*`. -/
  field : Option (FieldDef ι)
  deriving Repr

namespace Walk

variable {ι : Type}

def star (w : Walk ι) : Bool := w.field.isNone

def crossedRelation (w : Walk ι) : Bool := !w.chain.isEmpty

/-- The model that the last crossing started from. -/
def parent? (w : Walk ι) : Option ι := w.chain.getLast?.map (·.source)

def endsAtRelation (w : Walk ι) : Bool := w.field.any (·.isRelation)

/-- Whether a row of the root may have several rows at the end of the path. -/
def toMany (w : Walk ι) : Bool :=
  w.chain.any (·.relation.toMany) ||
    w.field.any fun f => !f.hasColumn && f.relation.any (·.toMany)

end Walk

variable {ι : Type}

/-- The relations crossed, the model reached and the last field of the segments of a path. -/
def walkSegments (schema : Schema ι) (model : ι) :
    List String → Result (List (Hop ι) × ι × Option (FieldDef ι))
  | [] => .error (.unknownField (schema model).table "")
  | [last] =>
    if last = "*" then .ok ([], model, none)
    else do return ([], model, some (← (schema model).field last))
  | segment :: rest => do
    let field ← (schema model).field segment
    match field.relation with
    | none => throw (.unreachableRelation (schema model).table segment)
    | some relation =>
      let (chain, reached, last) ← walkSegments schema relation.target rest
      return (⟨model, field, relation⟩ :: chain, reached, last)

def walk (schema : Schema ι) (root : ι) (path : String) : Result (Walk ι) := do
  let (chain, model, field) ← walkSegments schema root (Text.split '.' path)
  return { path, root, chain, model, field }

end Orm
