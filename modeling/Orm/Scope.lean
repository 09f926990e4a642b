import Orm.Plan
import Orm.Schema.Alias

/-
The tables in scope of one statement.

Resolving a path adds the joins that it needs and gives the column at its end. A join is added once:
a second path through the same relation finds its alias in scope.
-/

namespace Orm

/-- A comparison of two columns. -/
structure OnCondition where
  left : Column
  operator : String
  right : Column
  deriving DecidableEq, Repr

structure Join where
  kind : JoinKind
  table : String
  tableAlias : String
  /-- All of these have to hold; a join without any has no condition. -/
  on : List OnCondition
  deriving DecidableEq, Repr

structure Scope where
  aliases : Aliases := {}
  joins : List Join := []
  /-- Whether a row of the root may stand in several rows of the joined tables. -/
  toMany : Bool := false
  deriving DecidableEq, Repr

/-- Resolution; tables that came into scope before a failure stay there. -/
abbrev Resolving (α : Type) := ExceptT Error (StateM Scope) α

namespace Resolving

def ofResult {α : Type} (r : Result α) : Resolving α := ExceptT.mk (pure r)

/-- Names given out while resolving. -/
def naming {α : Type} (n : Naming α) : Resolving α :=
  ExceptT.mk fun scope =>
    let (r, aliases) := n.run scope.aliases
    (r, { scope with aliases })

/-- The result, or another in place of a failure; the scope is what was reached. -/
def orElse {α : Type} (r : Resolving α) (fallback : α) : Resolving α :=
  ExceptT.mk fun scope =>
    match r.run scope with
    | (.ok a, scope) => (.ok a, scope)
    | (.error _, scope) => (.ok fallback, scope)

end Resolving

open Resolving (ofResult naming)

def Scope.addStep (kind : JoinKind) (scope : Scope) (s : JoinStep) : Scope :=
  if scope.joins.any (·.tableAlias == s.tableAlias) then scope
  else
    { scope with
      toMany := scope.toMany || s.toMany
      joins := scope.joins ++
        [⟨kind, s.table, s.tableAlias,
          [⟨[s.parentAlias, s.parentColumn], "=", [s.tableAlias, s.column]⟩]⟩] }

def addSteps (kind : JoinKind) (steps : List JoinStep) : Resolving Unit :=
  modify fun scope => steps.foldl (Scope.addStep kind) scope

variable {ι : Type}

/-- Joins every hop of a chain and gives each hop's alias. -/
def joinChain (schema : Schema ι) (rootAlias : String) (chain : List (Hop ι)) (kind : JoinKind) :
    Resolving (List String) := do
  let hops ← naming (Naming.chain schema rootAlias chain)
  addSteps kind (hops.flatMap (·.1))
  return hops.map (·.2)

/-- Joins one relation and gives its alias. -/
def joinRelation (schema : Schema ι) (parentAlias : String) (parent : ι) (field : FieldDef ι)
    (kind : JoinKind) : Resolving String := do
  let steps ← naming (Naming.hop schema parentAlias (schema parent) field)
  addSteps kind steps
  return Naming.reached parentAlias steps

/-- The model at the other end of a field. -/
def targetOf (schema : Schema ι) (model : ι) (field : FieldDef ι) : Result ι :=
  match field.relation with
  | some r => .ok r.target
  | none => .error (.unknownField (schema model).table field.name)

/-- Whether a comparison at the end of a path leaves only rows that the path's joins match. -/
def Walk.keepsMatched (w : Walk ι) (field : FieldDef ι) : Bool :=
  w.crossedRelation && field.primaryKey && w.chain.all (·.relation.ownsColumn)

/--
The column at the end of a path. A relation that owns a column stands for its key; any other relation
for the primary key of its target, through a join. With `preferInner`, a path over forward relations
to a primary key is joined by inner joins.
-/
def resolvePath (schema : Schema ι) (root : ι) (path : String) (preferInner : Bool) :
    Resolving Column := do
  let w ← ofResult (walk schema root path)
  match w.field with
  | none => throw (.unsupportedLookup ("'" ++ path ++ "' selects several columns"))
  | some field =>
    let kind := if preferInner && w.keepsMatched field then JoinKind.inner else .left
    let rootAlias := (schema root).table
    let hops ← joinChain schema rootAlias w.chain kind
    let tableAlias := hops.getLast?.getD rootAlias
    if field.hasColumn then return [tableAlias, field.column]
    let targetAlias ← joinRelation schema tableAlias w.model field .left
    let target ← ofResult (targetOf schema w.model field)
    let pk ← ofResult (schema target).pk
    return [targetAlias, pk.column]

/-- One side of a join's condition: a path of the root, or a name as it stands. -/
def conditionSide (schema : Schema ι) (root : ι) (side : String) : Resolving Column :=
  (resolvePath schema root side false).orElse (Text.split '.' side)

def resolveCondition (schema : Schema ι) (root : ι) (c : JoinCondition) : Resolving OnCondition :=
  match joinOperator? c.operator with
  | none => throw (.unsupportedLookup ("join operator '" ++ c.operator ++ "'"))
  | some op => do
    let left ← conditionSide schema root c.left
    let right ← conditionSide schema root c.right
    return ⟨left, op, right⟩

/-- The condition added to the first join of that alias. -/
def addCondition (tableAlias : String) (c : OnCondition) : List Join → List Join
  | [] => []
  | j :: rest =>
    if j.tableAlias = tableAlias then { j with on := j.on ++ [c] } :: rest
    else j :: addCondition tableAlias c rest

/-- The relation that an explicit join follows, if its target is one. -/
def joinedRelation? (schema : Schema ι) (root : ι) (target : String) :
    Option (Walk ι × FieldDef ι) :=
  match walk schema root target with
  | .ok w => (w.field.filter (·.isRelation)).map (w, ·)
  | .error _ => none

/-- Brings an explicit join into scope. A table, unlike a relation, needs a condition. -/
def addExplicit (schema : Schema ι) (root : ι) (j : ExplicitJoin) : Resolving Unit := do
  let condition ← match j.condition with
    | some c => some <$> resolveCondition schema root c
    | none => pure none
  match joinedRelation? schema root j.target with
  | some (w, field) =>
    let rootAlias := (schema root).table
    let hops ← joinChain schema rootAlias w.chain j.kind
    let tableAlias := hops.getLast?.getD rootAlias
    let targetAlias ← joinRelation schema tableAlias w.model field j.kind
    match condition with
    | some c => modify fun scope => { scope with joins := addCondition targetAlias c scope.joins }
    | none => return
  | none =>
    if j.kind != .cross && condition.isNone then
      throw (.unsupportedLookup (j.kind.sql ++ " on '" ++ j.target ++ "' needs a condition"))
    let on := if j.kind = .cross then [] else condition.toList
    modify fun scope => { scope with joins := scope.joins ++ [⟨j.kind, j.target, j.target, on⟩] }

def addExplicits (schema : Schema ι) (root : ι) : List ExplicitJoin → Resolving Unit
  | [] => return
  | j :: rest => do addExplicit schema root j; addExplicits schema root rest

/-! ## Text -/

def OnCondition.sql (c : OnCondition) : Sql :=
  [.ident c.left, .text (" " ++ c.operator ++ " "), .ident c.right]

def Join.sql (j : Join) : Sql :=
  [.text (" " ++ j.kind.sql ++ " "), .ident [j.table]] ++
    (if j.tableAlias = j.table then [] else [.text " AS ", .ident [j.tableAlias]]) ++
    (if j.on.isEmpty then [] else .text " ON " :: Sql.join " AND " (j.on.map OnCondition.sql))

def joinsSql (joins : List Join) : Sql :=
  joins.flatMap Join.sql

end Orm
