import Orm.Executor
import Orm.Scan.Tree
import Orm.Statement.Select

/-
The verbs of a query that read.

Each compiles the query, runs the statement and makes of the rows what was asked for.
-/

namespace Orm

variable {ι ρ σ : Type}

open Effect (ofResult report)

/-- The span in which a verb works. -/
def verbSpan (verb table : String) : Log :=
  [{ span := true
     level := .debug
     target := "djorm_core::logging"
     message := "query"
     fields := [("verb", .text verb), ("table", .text table)] }]

namespace Environment

def spanned (env : Environment ι ρ σ) (p : Plan ι) (verb : String) : Effect ρ σ Unit :=
  report (verbSpan verb (env.schema p.model).table)

/-- A step in building a query, with its report. -/
def building (env : Environment ι ρ σ) (p : Plan ι) (step : Plan ι → Plan ι) :
    Effect ρ σ (Plan ι) := do
  report (Plan.recordLog env.schema p (step p))
  return step p

/-- Runs a compiled statement. -/
def runStatement (env : Environment ι ρ σ) (db : Executor) (k : RequestKind) (s : Statement) :
    Effect ρ σ k.Reply :=
  db.run env k (s.sql.print env.dialect) s.args

variable [DecidableEq ι]

/-- The instances that a compiled SELECT has. -/
def select (env : Environment ι ρ σ) (db : Executor) (c : Compiled ι) :
    Effect ρ σ (List (Instance ι)) := do
  let rows : List Row ← env.runStatement db .query c.statement
  let calledOff ← db.watch env rows.length
  ofResult (materialize env.schema c.scan (rows.map (·.values)) calledOff)

/-- Every instance of a query. -/
def all (env : Environment ι ρ σ) (db : Executor) (p : Plan ι) : Effect ρ σ (List (Instance ι)) := do
  env.spanned p "all"
  let c ← ofResult (compileSelect env.schema p)
  env.select db c

def first (env : Environment ι ρ σ) (db : Executor) (p : Plan ι) :
    Effect ρ σ (Option (Instance ι)) := do
  return (← env.all db (p.limited 1)).head?

/-- The only one of a list of instances. -/
def single (modelName : String) : List (Instance ι) → Result (Instance ι)
  | [] => .error (.notFound modelName)
  | [x] => .ok x
  | xs => .error (.multipleFound modelName xs.length)

/-- The instance of a query that has exactly one. -/
def get (env : Environment ι ρ σ) (db : Executor) (p : Plan ι) : Effect ρ σ (Instance ι) := do
  let found ← env.all db p
  ofResult (single (env.schema p.model).modelName found)

omit [DecidableEq ι]

/-- The number in the first column of the first row. -/
def countOf (rows : List Row) : Result Nat :=
  match rows with
  | [] => .error (.driver "COUNT returned no row")
  | row :: _ => do
    let n := (← (← row.atIndex 0).toInt).toInt
    if n < 0 then throw (.typeMismatch ("negative count " ++ toString n))
    else return n.toNat

/-- The number of instances of a query. -/
def count (env : Environment ι ρ σ) (db : Executor) (p : Plan ι) : Effect ρ σ Nat := do
  env.spanned p "count"
  let c ← ofResult (compileCount env.schema p)
  let rows ← env.runStatement db .query c.statement
  ofResult (countOf rows)

def exists_ (env : Environment ι ρ σ) (db : Executor) (p : Plan ι) : Effect ρ σ Bool := do
  return 0 < (← env.count db (p.limited 1))

/-- The values at the given paths, row by row. -/
def valuesList (env : Environment ι ρ σ) (db : Executor) (p : Plan ι) (paths : List String) :
    Effect ρ σ (List (List Value)) := do
  env.spanned p "values_list"
  let c ← ofResult do
    p.check
    p.checkPaths env.schema paths
    compileValues env.schema p paths
  let rows : List Row ← env.runStatement db .query c.statement
  let calledOff ← db.watch env rows.length
  ofResult (valueRows c.scan calledOff 0 (rows.map (·.values)))

/-- The values at one path, each read as a type. -/
def valuesFlat (env : Environment ι ρ σ) (db : Executor) (p : Plan ι) (path : String)
    (read : Value → Result Value) : Effect ρ σ (List Value) := do
  let rows ← env.valuesList db p [path]
  ofResult ((rows.filterMap (·.head?)).mapM read)

end Environment

end Orm
