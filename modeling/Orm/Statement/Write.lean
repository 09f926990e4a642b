import Orm.Instance
import Orm.Statement.Select

/-
INSERT, UPDATE and DELETE statements.

An UPDATE or DELETE needs a predicate. If its predicates need joins, they are written as membership of
the key in a nested SELECT, because these statements join no tables.
-/

namespace Orm

variable {ι : Type}

/-! ## INSERT -/

/-- A field that the database is left to fill in. -/
def leftToDatabase (f : FieldDef ι) (v : Value) : Bool := f.auto && v.isZero

/-- The fields of an INSERT, with the values that are written. -/
def insertFields (schema : Schema ι) (model : ι) (x : Instance ι) :
    Result (List (FieldDef ι × Value)) :=
  (schema model).columnFields.mapM fun f => do return (f, ← x.value schema f.name)

def compileInsert (schema : Schema ι) (model : ι) (x : Instance ι) : Result (Compiled ι) := do
  let fields ← insertFields schema model x
  let written := fields.filter fun (f, v) => !leftToDatabase f v
  let returning := (fields.filter fun (f, v) => leftToDatabase f v).map (·.1)
  let columns : List Sql := written.map fun (f, _) => .name f.column
  let params : List Sql := (List.range written.length).map fun i => [.param (i + 1)]
  let body : Sql :=
    if written.isEmpty then [.text " ", .emptyInsert]
    else .text " (" :: Sql.join ", " columns ++ [.text ") VALUES ("] ++ Sql.join ", " params ++
      [.text ")"]
  let tail : Sql := if returning.isEmpty then [] else [.returning (returning.map (·.column))]
  return { statement := ⟨[.text "INSERT INTO ", .ident [(schema model).table]] ++ body ++ tail,
             written.map (·.2)⟩
           returning }

/-! ## Predicates of writes -/

/-- The predicate of a write, none if the query has no predicates. -/
def writeWhere (schema : Schema ι) (p : Plan ι) : Binding (Option Sql) := do
  if p.filters.isEmpty then return none
  let (filters, scope) := (p.resolveConditions schema).run {}
  let filters ← ExceptT.mk (pure filters)
  if scope.joins.isEmpty then
    return some (whereSql (← Expression.writeAll schema (p.nestedIn schema) filters))
  let model := schema p.model
  let pk ← ExceptT.mk (pure model.pk)
  let predicates ← Expression.writeAll schema (p.nestedIn schema) filters
  return some ([.text " WHERE ", .ident [model.table, pk.column], .text " IN (SELECT ",
      .ident ["djorm_sub", pk.column], .text " FROM (SELECT DISTINCT ",
      .ident [model.table, pk.column], .text " AS ", .ident [pk.column], .text " FROM ",
      .ident [model.table]] ++ joinsSql scope.joins ++ whereSql predicates ++
    [.text ") AS ", .ident ["djorm_sub"], .text ")"])

/-! ## UPDATE -/

/-- The selected fields, each of which must have a column. -/
def selectedFields (schema : Schema ι) (model : ι) (x : Instance ι) :
    List String → Result (List (FieldDef ι × Value))
  | [] => .ok []
  | name :: rest => do
    match ((schema model).field? name).filter (·.hasColumn) with
    | none => throw (.unknownField (schema model).table name)
    | some f =>
      let v ← x.value schema f.name
      return (f, v) :: (← selectedFields schema model x rest)

/--
What an UPDATE writes: the fields that are not zero, the primary key aside; or, where everything is to
be saved, all of these fields or exactly the selected ones.
-/
def updateFields (schema : Schema ι) (p : Plan ι) (x : Instance ι) :
    Result (List (FieldDef ι × Value)) := do
  if p.explicitSave && !p.select.isEmpty then selectedFields schema p.model x p.select
  else
    let fields ← ((schema p.model).columnFields.filter fun f => !f.primaryKey).mapM fun f => do
      return (f, ← x.value schema f.name)
    return fields.filter fun (_, v) => p.explicitSave || !v.isZero

/-- The columns of a SET, their values bound in order. -/
def writeSets : List (FieldDef ι × Value) → Binding (List Sql)
  | [] => return []
  | (f, v) :: rest => do
    let placeholder ← bindValue v
    return [.ident [f.column], .text " = ", placeholder] :: (← writeSets rest)

def compileUpdate (schema : Schema ι) (p : Plan ι) (x : Instance ι) : Result (Compiled ι) := do
  p.check
  let table := (schema p.model).table
  let fields ← updateFields schema p x
  if fields.isEmpty then
    throw (.typeMismatch ("nothing to update on '" ++ table ++ "': every field is zero"))
  let ((sets, predicate), args) ← Binding.run do
    let sets ← writeSets fields
    return (sets, ← writeWhere schema p)
  match predicate with
  | none => throw (.unsafeUpdate table)
  | some predicate =>
    let sql : Sql := [.text "UPDATE ", .ident [table], .text " SET "] ++ Sql.join ", " sets ++ predicate
    return { statement := ⟨sql, args⟩ }

/-! ## DELETE -/

def compileDelete (schema : Schema ι) (p : Plan ι) : Result (Compiled ι) := do
  p.check
  let table := (schema p.model).table
  let (predicate, args) ← Binding.run (writeWhere schema p)
  match predicate with
  | none => throw (.unsafeDelete table)
  | some predicate =>
    return { statement := ⟨[.text "DELETE FROM ", .ident [table]] ++ predicate, args⟩ }

/-! ## Rows of instances -/

/-- The unique fields of an instance that are set, one of which identifies it. -/
def firstUnique (schema : Schema ι) (x : Instance ι) :
    List (FieldDef ι) → Result (Option (Expression ι))
  | [] => .ok none
  | f :: rest => do
    let v ← x.value schema f.name
    if v.isZero then firstUnique schema x rest else return some (.ofKey f.name [v])

def firstGroup (schema : Schema ι) (x : Instance ι) :
    List (List String) → Result (Option (Expression ι))
  | [] => .ok none
  | group :: rest => do
    let values ← group.mapM fun name => do return (name, ← x.value schema name)
    if values.all fun (_, v) => !v.isZero then
      return some (.all (values.map fun (name, v) => .ofKey name [v]))
    else firstGroup schema x rest

/--
The predicate that identifies an instance: its primary key, or the first unique field that is set, or
the first group of fields, unique together, that are all set.
-/
def uniquePredicate (schema : Schema ι) (x : Instance ι) : Result (Expression ι) := do
  let model := schema x.model
  let unique := model.uniqueFields.filter (·.hasColumn)
  match ← firstUnique schema x (model.pk?.toList ++ unique) with
  | some e => return e
  | none =>
    match ← firstGroup schema x model.uniqueTogether with
    | some e => return e
    | none => throw (.noUniqueKey model.table)

end Orm
