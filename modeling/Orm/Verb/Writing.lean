import Orm.Statement.Write
import Orm.Verb.Reading

/-
The verbs that write, each between its two hooks.

The hook before a write runs once the statement is known, except that an instance announces itself
before its INSERT is put together; the hook after it runs only if nothing failed.
-/

namespace Orm

variable {ι ρ σ : Type}

open Effect (ofResult report)

/-- The event of a write to all rows of a query. -/
def WriteEvent.ofQuery (env : Environment ι ρ σ) (p : Plan ι) (values : List (String × Value)) :
    WriteEvent :=
  let model := env.schema p.model
  { table := model.table, modelName := model.modelName, driver := env.driver, pk := .null, values
    created := false }

/-- The event of a write of one instance. -/
def WriteEvent.ofInstance (schema : Schema ι) (driver : String) (x : Instance ι) (created : Bool) :
    Result WriteEvent := do
  let model := schema x.model
  let pk ← x.key schema
  let values ← x.values schema
  return { table := model.table, modelName := model.modelName, driver, pk, values, created }

namespace Environment

/-- A statement between two hooks with the same event. -/
def bracketed (env : Environment ι ρ σ) (db : Executor) (before after : HookKind)
    (event : WriteEvent) (s : Statement) : Effect ρ σ Nat := do
  Executor.announce env before event
  let affected : Nat ← env.runStatement db .execute s
  Executor.announce env after event
  return affected

/-- Updates the rows of a query from an instance; without anything to write nothing happens. -/
def update (env : Environment ι ρ σ) (db : Executor) (p : Plan ι) (x : Instance ι) :
    Effect ρ σ Nat := do
  env.spanned p "update"
  let table := (env.schema p.model).table
  ofResult p.check
  if p.filters.isEmpty then throw (.unsafeUpdate table)
  let fields ← ofResult (updateFields env.schema p x)
  if fields.isEmpty then
    report [{
      level := .debug
      target := "djorm_db::query::queryset"
      message := "update skipped: no fields to write"
      fields := [("table", .text table)] }]
    return 0
  let c ← ofResult (compileUpdate env.schema p x)
  env.bracketed db .preSave .postSave (.ofQuery env p (fields.map fun (f, v) => (f.name, v)))
    c.statement

/-- Deletes the rows of a query. -/
def delete (env : Environment ι ρ σ) (db : Executor) (p : Plan ι) : Effect ρ σ Nat := do
  env.spanned p "delete"
  let c ← ofResult (compileDelete env.schema p)
  env.bracketed db .preDelete .postDelete (.ofQuery env p []) c.statement

/-! ## Instances -/

/-- Work on an instance, which keeps what was written to it before a failure. -/
abbrev Filling (ι ρ σ α : Type) := ExceptT Error (StateT (Instance ι) (StateM (World ρ σ))) α

namespace Filling

variable {α : Type}

def ofEffect (e : Effect ρ σ α) : Filling ι ρ σ α :=
  ExceptT.mk (StateT.lift e.run)

def ofPure (r : Result α) : Filling ι ρ σ α := ofEffect (.ofResult r)

def current : Filling ι ρ σ (Instance ι) := ExceptT.lift StateT.get

/-- Writes a field of the instance. -/
def setValue (schema : Schema ι) (name : String) (v : Value) : Filling ι ρ σ Unit :=
  ExceptT.mk fun x w =>
    let (x, r) := x.setValue schema name v
    ((r, x), w)

/-- Writes the values that belong to the first fields of a list. -/
def setAll (schema : Schema ι) : List (FieldDef ι × Value) → Filling ι ρ σ Unit
  | [] => return
  | (f, v) :: rest => do
    setValue schema f.name (← ofPure (f.type.normalize v))
    setAll schema rest

end Filling

open Filling (ofEffect ofPure current)

def announceInsert (env : Environment ι ρ σ) (kind : HookKind) : Filling ι ρ σ Unit := do
  let event ← ofPure (WriteEvent.ofInstance env.schema env.driver (← current) true)
  ofEffect (Executor.announce env kind event)

/-- The plan of the row that an instance stands for. -/
def rowOf (env : Environment ι ρ σ) (x : Instance ι) : Result (Plan ι) := do
  return { model := x.model, filters := [← uniquePredicate env.schema x] }

/-- Writes every column of the instance to its row. -/
def updateInstance (env : Environment ι ρ σ) (db : Executor) (x : Instance ι) : Effect ρ σ Nat := do
  let c ← ofResult do compileUpdate env.schema (← rowOf env x).savingAll x
  let event ← ofResult (WriteEvent.ofInstance env.schema env.driver x false)
  env.bracketed db .preSave .postSave event c.statement

def deleteInstance (env : Environment ι ρ σ) (db : Executor) (x : Instance ι) : Effect ρ σ Nat := do
  let c ← ofResult do compileDelete env.schema (← rowOf env x)
  let event ← ofResult (WriteEvent.ofInstance env.schema env.driver x false)
  env.bracketed db .preDelete .postDelete event c.statement

variable [DecidableEq ι]

/-- The values of fields as the database has them now. -/
def reselect (env : Environment ι ρ σ) (db : Executor) (fields : List (FieldDef ι)) :
    Filling ι ρ σ Unit := do
  let x ← current
  let c ← ofPure do compileSelect env.schema (← rowOf env x)
  let found ← ofEffect (env.select db c)
  let row ← ofPure (single (env.schema x.model).modelName found)
  for f in fields do
    Filling.setValue env.schema f.name (← ofPure (row.value env.schema f.name))

/-- Runs an INSERT and writes what the database generated back onto the instance. -/
def insert (env : Environment ι ρ σ) (db : Executor) (c : Compiled ι) : Filling ι ρ σ Unit := do
  if c.returning.isEmpty then
    let _ ← ofEffect (env.runStatement db .execute c.statement)
    return
  match env.dialect.returning with
  | .columns =>
    let rows : List Row ← ofEffect (env.runStatement db .query c.statement)
    match rows with
    | [] => throw (.driver "INSERT ... RETURNING produced no row")
    | row :: _ => Filling.setAll env.schema (c.returning.zip row.values)
  | .lastInsertId =>
    let id : Value ← ofEffect (env.runStatement db .insert c.statement)
    Filling.setAll env.schema (((c.returning.find? (·.primaryKey)).map (·, id)).toList)
  | .nothing =>
    let _ ← ofEffect (env.runStatement db .execute c.statement)
    reselect env db c.returning

/-- Inserts the instance. -/
def createInstance (env : Environment ι ρ σ) (db : Executor) : Filling ι ρ σ Unit := do
  env.announceInsert .preSave
  let x ← current
  let c ← ofPure (compileInsert env.schema x.model x)
  env.insert db c
  env.announceInsert .postSave

/-- Inserts the instance for a query, which must be free of mistakes. -/
def create (env : Environment ι ρ σ) (db : Executor) (p : Plan ι) : Filling ι ρ σ Unit := do
  ofPure p.check
  ofEffect (env.spanned p "create")
  env.createInstance db

/-- Inserts instances in order, up to the first failure; counts them. -/
def createEach (env : Environment ι ρ σ) (db : Executor) :
    List (Instance ι) → StateM (World ρ σ) (Result Nat × List (Instance ι))
  | [] => return (.ok 0, [])
  | x :: rest => do
    match ← (env.createInstance db).run.run x with
    | (.error e, x) => return (.error e, x :: rest)
    | (.ok (), x) =>
      let (n, rest) ← createEach env db rest
      return (n.map (· + 1), x :: rest)

def bulkCreate (env : Environment ι ρ σ) (db : Executor) (p : Plan ι) (xs : List (Instance ι)) :
    StateM (World ρ σ) (Result Nat × List (Instance ι)) := do
  match p.check with
  | .error e => return (.error e, xs)
  | .ok () =>
    let _ ← (env.spanned p "bulk_create" : Effect ρ σ Unit).run
    env.createEach db xs

/--
Inserts the instance if its primary key is zero or no row has it, and updates its row otherwise. Says
whether a row was inserted.
-/
def saveObject (env : Environment ι ρ σ) (db : Executor) : Filling ι ρ σ Bool := do
  let x ← current
  let key ← ofPure (x.key env.schema)
  let affected : Nat ← if key.isZero then pure 0 else ofEffect (env.updateInstance db x)
  if affected = 0 then
    env.createInstance db
    return true
  return false

/-- Reads the instance again from its row. -/
def refreshObject (env : Environment ι ρ σ) (db : Executor) : Filling ι ρ σ Unit := do
  let x ← current
  let e ← ofPure (uniquePredicate env.schema x)
  let found ← ofEffect do
    let p ← env.building { model := x.model } (·.filter env.schema e)
    env.get db p
  ExceptT.lift (StateT.set found)

/-! ## Objects of a model -/

/-- The key under which the rows of a model are found. -/
def keyName (env : Environment ι ρ σ) (model : ι) : Result String :=
  (env.schema model).pk.map (·.name)

/-- The instance with a primary key. -/
def getObject (env : Environment ι ρ σ) (db : Executor) (model : ι) (id : Value) :
    Effect ρ σ (Instance ι) := do
  let key ← ofResult (env.keyName model)
  let p ← env.building { model } (·.filterBy env.schema key id)
  env.get db p

/-- A page of the instances of a model. -/
def listObjects (env : Environment ι ρ σ) (db : Executor) (model : ι) (offset limit : Nat)
    (ordering : List String) : Effect ρ σ (List (Instance ι)) := do
  let p := (({ model } : Plan ι).skipping offset).limited limit
  let p ← if ordering.isEmpty then pure p else env.building p (·.ordered env.schema ordering)
  env.all db p

/-- A page of the instances whose primary key is in a list. -/
def listByIds (env : Environment ι ρ σ) (db : Executor) (model : ι) (offset limit : Nat)
    (ids : List Value) : Effect ρ σ (List (Instance ι)) := do
  let key ← ofResult (env.keyName model)
  let p ← env.building { model } (·.filterBy env.schema (key ++ "__in") (.list ids))
  env.all db ((p.skipping offset).limited limit)

end Environment

end Orm
