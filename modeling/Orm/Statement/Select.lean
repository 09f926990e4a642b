import Orm.Expression.Writing
import Orm.Scan

/-
SELECT statements.

A query is resolved first: its projection, computed columns, predicates and ordering get their
columns, and the joins they need come into scope in that order. Then it is written from left to right,
so that placeholders are numbered as they are read. Nested queries are SELECTs of their own whose
placeholders run on.
-/

namespace Orm

open Resolving (ofResult)

variable {ι : Type}

/-! ## Projection -/

/-- The nodes of a chain, each below the one before it; the last is the node reached. -/
def ensureChain (schema : Schema ι) (s : ScanPlan ι) (node : Nat) :
    List (Hop ι × String) → ScanPlan ι × Nat
  | [] => (s, node)
  | (h, tableAlias) :: rest =>
    let (s, next) := s.ensureNode node h.field h.relation.target tableAlias
    ensureChain schema s next rest

/-- The projection of a path, which may be all scalar fields of a model or the key of a relation. -/
def projectPath (schema : Schema ι) (root : ι) (dedupe : Bool) (s : ScanPlan ι) (path : String) :
    Resolving (ScanPlan ι) := do
  let w ← ofResult (walk schema root path)
  let hops ← joinChain schema (schema root).table w.chain .left
  let (s, node) := ensureChain schema s 0 (w.chain.zip hops)
  match s.nodes[node]? with
  | none => return s
  | some n =>
    match w.field with
    | none => return s.projectAll node (schema n.model).scalarFields dedupe
    | some field =>
      if field.hasColumn then return s.project node field dedupe
      let targetAlias ← joinRelation schema n.tableAlias n.model field .left
      let target ← ofResult (targetOf schema n.model field)
      let pk ← ofResult (schema target).pk
      let (s, child) := s.ensureNode node field target targetAlias
      return s.project child pk dedupe

def projectPaths (schema : Schema ι) (root : ι) (dedupe : Bool) :
    ScanPlan ι → List String → Resolving (ScanPlan ι)
  | s, [] => return s
  | s, path :: rest => do
    let s ← projectPath schema root dedupe s path
    projectPaths schema root dedupe s rest

/-- The projection of a SELECT: the given paths, or every column of the root. -/
def projection (schema : Schema ι) (root : ι) (dedupe : Bool) (paths : List String) :
    Resolving (ScanPlan ι) := do
  let s := ScanPlan.withRoot root (schema root).table
  if paths.isEmpty then return s.projectAll 0 (schema root).columnFields dedupe
  else projectPaths schema root dedupe s paths

/-! ## Ordering -/

/-- The order that is asked for; the model's own is left out of nested queries. -/
def Plan.ordering (schema : Schema ι) (p : Plan ι) (asNested : Bool) : List String :=
  match p.orderBy with
  | some items => items
  | none => if asNested then [] else (schema p.model).ordering

/-- An item of an ordering: a computed column by its name, or the column of a path. -/
def resolveOrderingItem (schema : Schema ι) (root : ι) (computed : List String) (item : String) :
    Resolving Sql := do
  let (path, descending) := orderingPath item
  let column ←
    if computed.contains path then pure [path] else resolvePath schema root path false
  return [.ident column, .text (if descending then " DESC" else " ASC")]

/-! ## Resolution -/

def resolveNamed (schema : Schema ι) (root : ι) :
    List (String × Expression ι) → Resolving (List (String × Expression ι))
  | [] => return []
  | (name, e) :: rest => do
    let e ← e.resolve schema root
    return (name, e) :: (← resolveNamed schema root rest)

def resolveFilters (schema : Schema ι) (root : ι) :
    List (Expression ι) → Resolving (List (Expression ι))
  | [] => return []
  | e :: rest => do
    let e ← e.resolve schema root
    return e :: (← resolveFilters schema root rest)

/-- A query whose every path has its column. -/
structure ResolvedSelect (ι : Type) where
  scan : ScanPlan ι
  annotations : List (String × Expression ι)
  filters : List (Expression ι)
  ordering : List Sql

/--
Explicit joins come first. Rows of the root that a join multiplies can only be told apart by the
root's key, which is therefore projected.
-/
def Plan.resolve (schema : Schema ι) (p : Plan ι) (paths : List String) (asNested dedupe : Bool) :
    Resolving (ResolvedSelect ι) := do
  ofResult p.check
  addExplicits schema p.model p.joins
  let scan ← projection schema p.model dedupe paths
  let annotations ← resolveNamed schema p.model p.annotations
  let filters ← resolveFilters schema p.model p.filters
  let ordering ← (p.ordering schema asNested).mapM
    (resolveOrderingItem schema p.model (p.annotations.map (·.1)))
  let multiplied := (← get).toMany
  let scan :=
    match (schema p.model).pk? with
    | some pk => if dedupe && multiplied && scan.rootKey.isNone then scan.project 0 pk dedupe else scan
    | none => scan
  return { scan := { scan with groupRows := multiplied && scan.rootKey.isSome }
           annotations, filters, ordering }

/-! ## Text -/

/-- The column of an entry that is a field. -/
def ScanPlan.fieldSql (s : ScanPlan ι) (e : ScanEntry ι) : Sql :=
  match e.target with
  | .field node field =>
    let tableAlias := (s.nodes[node]?.map (·.tableAlias)).getD ""
    [.ident [tableAlias, field.column], .text " AS ", .ident [e.columnAlias]]
  | .computed name => [.ident [name]]

/-- The parts of a conjunction after `WHERE`, nothing if there are none. -/
def whereSql (parts : List Sql) : Sql :=
  if parts.isEmpty then [] else .text " WHERE " :: Sql.join " AND " parts

def orderingSql (items : List Sql) : Sql :=
  if items.isEmpty then [] else .text " ORDER BY " :: Sql.join ", " items

def pagingSql (limit offset : Option Nat) : Sql :=
  match limit, offset with
  | some l, some o => [.text (" LIMIT " ++ toString l ++ " OFFSET " ++ toString o)]
  | some l, none => [.text (" LIMIT " ++ toString l)]
  | none, some o => [.offset o]
  | none, none => []

/-- The computed columns with their names. -/
def writeAnnotations (schema : Schema ι) (nested : Plan ι → Binding Sql) :
    List (String × Expression ι) → Binding (List Sql)
  | [] => return []
  | (name, e) :: rest => do
    let value ← e.write schema nested
    return (value ++ [.text " AS ", .ident [name]]) :: (← writeAnnotations schema nested rest)

/-- A SELECT with the plan of its columns, given how nested queries are written. -/
def Plan.writeSelect (schema : Schema ι) (nested : Plan ι → Binding Sql) (p : Plan ι)
    (paths : List String) (asNested dedupe : Bool) : Binding (Sql × ScanPlan ι) := do
  let (resolved, scope) := (p.resolve schema paths asNested dedupe).run {}
  let r ← ExceptT.mk (pure resolved)
  let computed ← writeAnnotations schema nested r.annotations
  let predicates ← Expression.writeAll schema nested r.filters
  let columns := r.scan.entries.map r.scan.fieldSql ++ computed
  let sql := .text (if p.distinct then "SELECT DISTINCT " else "SELECT ") :: Sql.join ", " columns ++
    [.text " FROM ", .ident [(schema p.model).table]] ++ joinsSql scope.joins ++
    whereSql predicates ++ orderingSql r.ordering ++ pagingSql p.limit p.offset
  let entries := r.scan.entries ++ r.annotations.map fun (name, _) => ⟨name, .computed name⟩
  return (sql, { r.scan with entries })

/-- A query nested in another, for queries nested at most so deep. -/
def Plan.writeNested (schema : Schema ι) : Nat → Plan ι → Binding Sql
  | 0, _ => throw (.unsupportedLookup "queries are nested too deeply")
  | depth + 1, p => do
    let (sql, _) ← p.writeSelect schema (Plan.writeNested schema depth) p.select true true
    return sql

/-- How the queries nested in a plan are written. -/
def Plan.nestedIn (schema : Schema ι) (p : Plan ι) : Plan ι → Binding Sql :=
  Plan.writeNested schema (Expression.planDepth p)

/-- A statement with what belongs to its result. -/
structure Compiled (ι : Type) where
  statement : Statement
  /-- How the columns of a SELECT belong to instances. -/
  scan : ScanPlan ι := {}
  /-- The fields that an INSERT returns. -/
  returning : List (FieldDef ι) := []

/-- What was written, with the values bound. -/
def Binding.run {α : Type} (b : Binding α) : Result (α × List Value) :=
  match ExceptT.run b [] with
  | (.ok a, args) => .ok (a, args)
  | (.error e, _) => .error e

def compileSelect (schema : Schema ι) (p : Plan ι) : Result (Compiled ι) := do
  let ((sql, scan), args) ←
    Binding.run (p.writeSelect schema (p.nestedIn schema) p.select false true)
  return { statement := ⟨sql, args⟩, scan }

/-- The SELECT of exactly the given paths, in their order. -/
def compileValues (schema : Schema ι) (p : Plan ι) (paths : List String) : Result (Compiled ι) := do
  let p := { p with annotations := [] }
  let ((sql, scan), args) ← Binding.run (p.writeSelect schema (p.nestedIn schema) paths false false)
  return { statement := ⟨sql, args⟩, scan }

/-- The tables and predicates of a statement that selects nothing itself. -/
def Plan.resolveConditions (schema : Schema ι) (p : Plan ι) : Resolving (List (Expression ι)) := do
  addExplicits schema p.model p.joins
  resolveFilters schema p.model p.filters

/-- The number of rows of a paged query, or of distinct rows, is that of the query nested. -/
def writeCountNested (schema : Schema ι) (p : Plan ι) : Binding Sql := do
  let inner := { p with orderBy := some [] }
  let (sub, scan) ← inner.writeSelect schema (inner.nestedIn schema) inner.select true true
  let counted : Sql :=
    match scan.rootKey.bind fun i => scan.entries[i]? with
    | some e =>
      if scan.groupRows then [.text "COUNT(DISTINCT ", .ident [e.columnAlias], .text ")"]
      else .ofText "COUNT(*)"
    | none => .ofText "COUNT(*)"
  return .text "SELECT " :: counted ++ [.text " FROM ("] ++ sub ++
    [.text ") AS ", .ident ["djorm_count"]]

def writeCountPlain (schema : Schema ι) (p : Plan ι) : Binding Sql := do
  let (filters, scope) := (p.resolveConditions schema).run {}
  let filters ← ExceptT.mk (pure filters)
  let table := (schema p.model).table
  let counted : Sql :=
    match (schema p.model).pk? with
    | some pk =>
      if scope.toMany then [.text "COUNT(DISTINCT ", .ident [table, pk.column], .text ")"]
      else .ofText "COUNT(*)"
    | none => .ofText "COUNT(*)"
  let predicates ← Expression.writeAll schema (p.nestedIn schema) filters
  return .text "SELECT " :: counted ++ [.text " FROM ", .ident [table]] ++ joinsSql scope.joins ++
    whereSql predicates

/-- The number of instances that a query has. -/
def compileCount (schema : Schema ι) (p : Plan ι) : Result (Compiled ι) := do
  p.check
  let (sql, args) ← Binding.run
    (if p.paged || p.distinct then writeCountNested schema p else writeCountPlain schema p)
  return { statement := ⟨sql, args⟩ }

end Orm
