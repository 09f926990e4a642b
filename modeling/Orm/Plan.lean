import Orm.Expression
import Orm.Schema.Path
import Orm.Text.Words

/-
Building queries step by step.

Each step checks the paths and expressions it is given. A step that fails leaves the plan as it was,
except that the first mistake is kept; whoever runs the query gets it back.
-/

namespace Orm

def joinOperators : List String := ["=", "<>", "!=", "<", "<=", ">", ">=", "LIKE"]

/-- The operator of a join's condition in its one spelling. -/
def joinOperator? (op : String) : Option String :=
  let op := Text.upperAscii (Text.trim op)
  if joinOperators.contains op then some op else none

def ExplicitJoin.of (kind : JoinKind) (target : String) (condition : Option JoinCondition) :
    Result ExplicitJoin :=
  match condition with
  | none => .ok { kind, target, condition }
  | some c =>
    match joinOperator? c.operator with
    | some op => .ok { kind, target, condition := some { c with operator := op } }
    | none => .error (.unsupportedLookup
        ("join operator '" ++ Text.upperAscii (Text.trim c.operator) ++ "'"))

/-- The path of an ordering and whether it descends, which a leading `-` says. -/
def orderingPath (item : String) : String × Bool :=
  match item.toList with
  | '-' :: rest => (String.ofList rest, true)
  | _ => (item, false)

namespace Plan

variable {ι : Type}

/-- Keeps the first mistake. -/
def recordError (p : Plan ι) (e : Error) : Plan ι :=
  if p.error.isSome then p else { p with error := some e }

/-- What is reported when a step has recorded a mistake. -/
def recordLog (schema : Schema ι) (before after : Plan ι) : Log :=
  match before.error, after.error with
  | none, some e =>
    [{ level := .error
       target := "djorm_db::query::compiler"
       message := "invalid query"
       fields := [("model", .text (schema after.model).modelName), ("error", .text e.message)] }]
  | _, _ => []

/-- A step that changes the plan or fails. -/
def step (p : Plan ι) (result : Result (Plan ι)) : Plan ι :=
  match result with
  | .ok next => next
  | .error e => p.recordError e

def checkPath (schema : Schema ι) (p : Plan ι) (path : String) : Result Unit :=
  (walk schema p.model path).map fun _ => ()

def checkPaths (schema : Schema ι) (p : Plan ι) : List String → Result Unit
  | [] => .ok ()
  | path :: rest => do checkPath schema p path; checkPaths schema p rest

def checkExpression (schema : Schema ι) (p : Plan ι) (e : Expression ι) : Result Unit := do
  e.check
  checkPaths schema p e.paths

/-- Replaces the projection. -/
def selecting (schema : Schema ι) (p : Plan ι) (paths : List String) : Plan ι :=
  p.step do
    checkPaths schema p paths
    return { p with select := paths }

/-- Adds a computed column. -/
def annotating (schema : Schema ι) (p : Plan ι) (name : String) (e : Expression ι) : Plan ι :=
  p.step do
    checkExpression schema p e
    return { p with annotations := p.annotations ++ [(name, e)] }

/-- Adds a predicate. -/
def filter (schema : Schema ι) (p : Plan ι) (e : Expression ι) : Plan ι :=
  p.step do
    checkExpression schema p e
    return { p with filters := p.filters ++ [e] }

def filterBy (schema : Schema ι) (p : Plan ι) (key : String) (value : Value) : Plan ι :=
  p.filter schema (.ofKey key [value])

def filterAll (schema : Schema ι) (p : Plan ι) (es : List (Expression ι)) : Plan ι :=
  es.foldl (fun p e => p.filter schema e) p

def exclude (schema : Schema ι) (p : Plan ι) (e : Expression ι) : Plan ι :=
  p.filter schema e.negate

/-- An ordering names a path or a computed column. -/
def checkOrdering (schema : Schema ι) (p : Plan ι) : List String → Result Unit
  | [] => .ok ()
  | item :: rest => do
    let (path, _) := orderingPath item
    if !p.annotations.any (·.1 == path) then checkPath schema p path
    checkOrdering schema p rest

/-- Replaces the ordering. -/
def ordered (schema : Schema ι) (p : Plan ι) (items : List String) : Plan ι :=
  p.step do
    checkOrdering schema p items
    return { p with orderBy := some items }

def limited (p : Plan ι) (n : Nat) : Plan ι := { p with limit := some n }

def skipping (p : Plan ι) (n : Nat) : Plan ι := { p with offset := some n }

def distinctRows (p : Plan ι) : Plan ι := { p with distinct := true }

def savingAll (p : Plan ι) : Plan ι := { p with explicitSave := true }

def joining (p : Plan ι) (kind : JoinKind) (target : String) (condition : Option JoinCondition) :
    Plan ι :=
  p.step do
    return { p with joins := p.joins ++ [← ExplicitJoin.of kind target condition] }

/-- All predicates as one, if there are any. -/
def predicate? (p : Plan ι) : Option (Expression ι) :=
  match p.filters with
  | [] => none
  | [e] => some e
  | es => some (.all es)

end Plan

end Orm
