import Orm.Proofs.Script.Steps
import Orm.Proofs.Verb

/-
The script of every verb, and that the verb is what its script does.

Writing is a bracket: a hook is told, the work is done, the other hook is told. Reading is a statement
and then row after row of its result.
-/

namespace Orm

variable {S ι ρ σ α β : Type}

namespace Program

variable (env : Environment ι ρ σ)

/-! ## Reading -/

def spanned (p : Plan ι) (verb : String) : Program S Unit :=
  report (verbSpan verb (env.schema p.model).table)

def building (p : Plan ι) (step : Plan ι → Plan ι) : Program S (Plan ι) := do
  report (Plan.recordLog env.schema p (step p))
  return step p

def statement (k : RequestKind) (s : Statement) : Program S k.Reply :=
  request k (s.sql.print env.dialect) s.args

/-- What reading the rows as instances comes to, row by row. -/
def rowChecks (scan : ScanPlan ι) (rows : List Row) : List (Result Unit) :=
  rows.map fun row => (rowTree env.schema scan row.values).map fun _ => ()

/-- One row as a tuple. -/
def tuple (scan : ScanPlan ι) (row : List Value) : Result (List Value) :=
  (scan.entries.zip row).mapM fun (entry, v) => entryValue entry v

/-- What reading the rows as tuples comes to, row by row. -/
def tupleChecks (scan : ScanPlan ι) (rows : List Row) : List (Result Unit) :=
  rows.map fun row => (tuple scan row.values).map fun _ => ()

/-- A row counts as read whatever fired before it. -/
def undisturbed : CalledOff := fun _ => false

def count (p : Plan ι) : Program S Nat := do
  spanned env p "count"
  let c ← ofResult (compileCount env.schema p)
  let rows ← statement env .query c.statement
  ofResult (Environment.countOf rows)

def exists_ (p : Plan ι) : Program S Bool := do
  return 0 < (← count env (p.limited 1))

def valuesList (p : Plan ι) (paths : List String) : Program S (List (List Value)) := do
  spanned env p "values_list"
  let c ← ofResult do
    p.check
    p.checkPaths env.schema paths
    compileValues env.schema p paths
  let rows : List Row ← statement env .query c.statement
  read (tupleChecks c.scan rows)
  ofResult (valueRows c.scan undisturbed 0 (rows.map (·.values)))

def valuesFlat (p : Plan ι) (path : String) (convert : Value → Result Value) :
    Program S (List Value) := do
  let rows ← valuesList env p [path]
  ofResult ((rows.filterMap (·.head?)).mapM convert)

/-! ## Brackets -/

/-- Work between two hooks. -/
def bracket (before after : HookKind) (event : WriteEvent) (work : Program S α)
    (closing : Program S WriteEvent) : Program S α := do
  announce before event
  let a ← work
  announce after (← closing)
  return a

/-- A statement between two hooks with the same event. -/
def bracketed (before after : HookKind) (event : WriteEvent) (s : Statement) : Program S Nat :=
  bracket before after event (statement env .execute s) (pure event)

def update (p : Plan ι) (x : Instance ι) : Program S Nat := do
  spanned env p "update"
  let table := (env.schema p.model).table
  ofResult p.check
  if p.filters.isEmpty then ofResult (.error (.unsafeUpdate table))
  else
    let fields ← ofResult (updateFields env.schema p x)
    if fields.isEmpty then
      report [{
        level := .debug
        target := "djorm_db::query::queryset"
        message := "update skipped: no fields to write"
        fields := [("table", .text table)] }]
      return 0
    else
      let c ← ofResult (compileUpdate env.schema p x)
      bracketed env .preSave .postSave (.ofQuery env p (fields.map fun (f, v) => (f.name, v)))
        c.statement

def delete (p : Plan ι) : Program S Nat := do
  spanned env p "delete"
  let c ← ofResult (compileDelete env.schema p)
  bracketed env .preDelete .postDelete (.ofQuery env p []) c.statement

def updateInstance (x : Instance ι) : Program S Nat := do
  let c ← ofResult do compileUpdate env.schema (← Environment.rowOf env x).savingAll x
  let event ← ofResult (WriteEvent.ofInstance env.schema env.driver x false)
  bracketed env .preSave .postSave event c.statement

def deleteInstance (x : Instance ι) : Program S Nat := do
  let c ← ofResult do compileDelete env.schema (← Environment.rowOf env x)
  let event ← ofResult (WriteEvent.ofInstance env.schema env.driver x false)
  bracketed env .preDelete .postDelete event c.statement

variable [DecidableEq ι]

def select (c : Compiled ι) : Program S (List (Instance ι)) := do
  let rows : List Row ← statement env .query c.statement
  read (rowChecks env c.scan rows)
  ofResult (materialize env.schema c.scan (rows.map (·.values)) undisturbed)

def all (p : Plan ι) : Program S (List (Instance ι)) := do
  spanned env p "all"
  let c ← ofResult (compileSelect env.schema p)
  select env c

def first (p : Plan ι) : Program S (Option (Instance ι)) := do
  return (← all env (p.limited 1)).head?

def get (p : Plan ι) : Program S (Instance ι) := do
  let found ← all env p
  ofResult (Environment.single (env.schema p.model).modelName found)

/-! ## Instances -/

def setValue (schema : Schema ι) (name : String) (v : Value) : Program (Instance ι) Unit :=
  fun x => .done (x.setValue schema name v).2 (x.setValue schema name v).1

def setAll (schema : Schema ι) : List (FieldDef ι × Value) → Program (Instance ι) Unit
  | [] => return
  | (f, v) :: rest => do
    setValue schema f.name (← ofResult (f.type.normalize v))
    setAll schema rest

def replace (s : S) : Program S Unit := fun _ => .done (.ok ()) s

def copyAll (schema : Schema ι) (row : Instance ι) : List (FieldDef ι) → Program (Instance ι) Unit
  | [] => return
  | f :: rest => do
    setValue schema f.name (← ofResult (row.value schema f.name))
    copyAll schema row rest

def reselect (fields : List (FieldDef ι)) : Program (Instance ι) Unit := do
  let x ← current
  let c ← ofResult do compileSelect env.schema (← Environment.rowOf env x)
  let found ← select env c
  let row ← ofResult (Environment.single (env.schema x.model).modelName found)
  copyAll env.schema row fields

def insert (c : Compiled ι) : Program (Instance ι) Unit :=
  if c.returning.isEmpty then do
    let _ ← statement env .execute c.statement
    return
  else match env.dialect.returning with
  | .columns => do
    let rows : List Row ← statement env .query c.statement
    match rows with
    | [] => ofResult (.error (.driver "INSERT ... RETURNING produced no row"))
    | row :: _ => setAll env.schema (c.returning.zip row.values)
  | .lastInsertId => do
    let id : Value ← statement env .insert c.statement
    setAll env.schema (((c.returning.find? (·.primaryKey)).map (·, id)).toList)
  | .nothing => do
    let _ ← statement env .execute c.statement
    reselect env c.returning

/-- The instance as a hook is told of it. -/
def insertEvent : Program (Instance ι) WriteEvent := do
  ofResult (WriteEvent.ofInstance env.schema env.driver (← current) true)

def createInstance : Program (Instance ι) Unit := do
  let event ← insertEvent env
  let work : Program (Instance ι) Unit := do
    let x ← current
    let c ← ofResult (compileInsert env.schema x.model x)
    insert env c
  bracket .preSave .postSave event work (insertEvent env)

def create (p : Plan ι) : Program (Instance ι) Unit := do
  ofResult p.check
  spanned env p "create"
  createInstance env

/-- A program that starts from an instance and leaves it, as the only one, behind. -/
def on (p : Program (Instance ι) α) (x : Instance ι) : Script (List (Instance ι)) α :=
  (p x).andThen ([·]) fun a x => .done (.ok a) [x]

def createEach : List (Instance ι) → Script (List (Instance ι)) Nat
  | [] => .done (.ok 0) []
  | x :: rest =>
    (createInstance env x).andThen (· :: rest) fun _ x =>
      (createEach rest).andThen (x :: ·) fun n rest => .done (.ok (n + 1)) (x :: rest)

def bulkCreate (p : Plan ι) (xs : List (Instance ι)) : Script (List (Instance ι)) Nat :=
  match p.check with
  | .error e => .done (.error e) xs
  | .ok () => .report (verbSpan "bulk_create" (env.schema p.model).table) (createEach env xs)

def saveObject : Program (Instance ι) Bool := do
  let x ← current
  let key ← ofResult (x.key env.schema)
  let inserted : Program (Instance ι) Bool := do
    createInstance env
    return true
  if key.isZero then inserted
  else
    let affected ← updateInstance env x
    if affected = 0 then inserted else return false

def refreshObject : Program (Instance ι) Unit := do
  let x ← current
  let e ← ofResult (uniquePredicate env.schema x)
  let found ← do
    let p ← building env { model := x.model } (·.filter env.schema e)
    get env p
  replace found

/-! ## Objects of a model -/

def getObject (model : ι) (id : Value) : Program S (Instance ι) := do
  let key ← ofResult (env.keyName model)
  let p ← building env { model } (·.filterBy env.schema key id)
  get env p

def listObjects (model : ι) (offset limit : Nat) (ordering : List String) :
    Program S (List (Instance ι)) := do
  let p := (({ model } : Plan ι).skipping offset).limited limit
  let p ← if ordering.isEmpty then pure p else building env p (·.ordered env.schema ordering)
  all env p

def listByIds (model : ι) (offset limit : Nat) (ids : List Value) :
    Program S (List (Instance ι)) := do
  let key ← ofResult (env.keyName model)
  let p ← building env { model } (·.filterBy env.schema (key ++ "__in") (.list ids))
  all env ((p.skipping offset).limited limit)

end Program

/-! ## All verbs -/

/-- The script of a verb, whose state are the instances that it may write to. -/
def Verb.script [DecidableEq ι] (env : Environment ι ρ σ) :
    (v : Verb ι) → Script (List (Instance ι)) v.Reply
  | all p => Program.all env p []
  | first p => Program.first env p []
  | get p => Program.get env p []
  | count p => Program.count env p []
  | .exists p => Program.exists_ env p []
  | valuesList p paths => Program.valuesList env p paths []
  | valuesFlat p path convert => Program.valuesFlat env p path convert []
  | update p x => Program.update env p x []
  | delete p => Program.delete env p []
  | create p x => (Program.create env p).on x
  | bulkCreate p xs => Program.bulkCreate env p xs
  | createInstance x => (Program.createInstance env).on x
  | updateInstance x => Program.updateInstance env x []
  | deleteInstance x => Program.deleteInstance env x []
  | saveObject x => (Program.saveObject env).on x
  | refreshObject x => (Program.refreshObject env).on x
  | getObject model id => Program.getObject env model id []
  | listObjects model offset limit ordering => Program.listObjects env model offset limit ordering []
  | listByIds model offset limit ids => Program.listByIds env model offset limit ids []

end Orm
