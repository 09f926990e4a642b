import Orm.Schema.Path

/-
Names of joined tables.

An alias is made of the relation, the target table and an ordinal. Each pair of a parent alias and a
relation has one alias, ordinals are counted for each parent table and relation, and an alias that is
taken is passed over, so that no two joins of a statement share one.
-/

namespace Orm

structure Aliases where
  ordinals : List ((String × String) × Nat) := []
  assigned : List ((String × String) × String) := []
  used : List String := []
  deriving DecidableEq, Repr

/-- One join on the way to a relation's target. -/
structure JoinStep where
  parentAlias : String
  table : String
  tableAlias : String
  parentColumn : String
  column : String
  /-- Whether a row of the parent may match several. -/
  toMany : Bool
  deriving DecidableEq, Repr

namespace Aliases

def candidate (relation target : String) (ordinal : Nat) : String :=
  relation ++ "_" ++ target ++ "_" ++ toString ordinal

/-- The first free ordinal after `n`; of more candidates than there are names in use one is free. -/
def freshOrdinal (used : List String) (name : Nat → String) : Nat → Nat → Nat
  | 0, n => n + 1
  | fuel + 1, n => if used.contains (name (n + 1)) then freshOrdinal used name fuel (n + 1) else n + 1

def setOrdinal (key : String × String) (n : Nat) :
    List ((String × String) × Nat) → List ((String × String) × Nat)
  | [] => [(key, n)]
  | (k, m) :: rest => if k = key then (key, n) :: rest else (k, m) :: setOrdinal key n rest

/-- The alias of a relation followed from a parent alias, the same one every time. -/
def tableAlias (a : Aliases) (parentAlias parentTable relation target : String) :
    String × Aliases :=
  match a.assigned.lookup (parentAlias, relation) with
  | some name => (name, a)
  | none =>
    let last := (a.ordinals.lookup (parentTable, relation)).getD 0
    let ordinal := freshOrdinal a.used (candidate relation target) a.used.length last
    let name := candidate relation target ordinal
    (name,
      { ordinals := setOrdinal (parentTable, relation) ordinal a.ordinals
        assigned := ((parentAlias, relation), name) :: a.assigned
        used := name :: a.used })

/-- The name of a projected column. -/
def columnAlias (tableAlias column : String) : String :=
  tableAlias ++ "_" ++ column

end Aliases

/-- Naming of joins; names given out before a failure stay given out. -/
abbrev Naming (α : Type) := ExceptT Error (StateM Aliases) α

namespace Naming

def tableAlias (parentAlias parentTable relation target : String) : Naming String := do
  let (name, a) := (← get).tableAlias parentAlias parentTable relation target
  set a
  return name

variable {ι : Type}

/-- The joins that one relation field takes from a parent alias. -/
def relationSteps (schema : Schema ι) (parentAlias : String) (parent : Model ι)
    (field : FieldDef ι) (r : Relation ι) : Naming (List JoinStep) := do
  let target := schema r.target
  let targetPk ← ExceptT.mk (pure target.pk)
  if r.ownsColumn then
    let name ← tableAlias parentAlias parent.table field.column target.table
    return [⟨parentAlias, target.table, name, field.column, targetPk.column, false⟩]
  let parentPk ← ExceptT.mk (pure parent.pk)
  if r.kind = .manyToMany then
    let junction ← ExceptT.mk (pure (r.junction schema parent field.name))
    let middle ← tableAlias parentAlias parent.table field.name junction.table
    let name ← tableAlias middle junction.table junction.targetColumn target.table
    return [⟨parentAlias, junction.table, middle, parentPk.column, junction.sourceColumn, true⟩,
      ⟨middle, target.table, name, junction.targetColumn, targetPk.column, false⟩]
  match r.relatedField with
  | none => throw (.unknownField target.table ("<reverse of " ++ field.name ++ ">"))
  | some related =>
    let related ← ExceptT.mk (pure (target.field related))
    let name ← tableAlias parentAlias parent.table field.name target.table
    return [⟨parentAlias, target.table, name, parentPk.column, related.column, r.toMany⟩]

/-- The joins of one hop; a field that is no relation leads nowhere. -/
def hop (schema : Schema ι) (parentAlias : String) (parent : Model ι) (field : FieldDef ι) :
    Naming (List JoinStep) :=
  match field.relation with
  | none => throw (.unreachableRelation parent.table field.name)
  | some r => relationSteps schema parentAlias parent field r

/-- The alias that the last step of a hop reaches. -/
def reached (parentAlias : String) (steps : List JoinStep) : String :=
  (steps.getLast?.map (·.tableAlias)).getD parentAlias

/-- The joins of every hop of a chain, with the alias of each hop's target. -/
def chain (schema : Schema ι) : String → List (Hop ι) → Naming (List (List JoinStep × String))
  | _, [] => return []
  | current, h :: rest => do
    let steps ← relationSteps schema current (schema h.source) h.field h.relation
    let next := reached current steps
    return (steps, next) :: (← chain schema next rest)

end Naming

end Orm
