import Orm.Row
import Orm.Schema.Model
import Orm.Signal
import Orm.Dialect

/-
Running statements.

The database, the receivers of hooks and whoever holds a cancellation token are outside the library:
an `Environment` says what they do, for any behaviour that they may have, and a `World` is what the
library and they have brought about so far. Executors are the ways to the database: the connection
itself, a transaction on an executor, or an executor watched by a token.
-/

namespace Orm

/-! ## Requests -/

inductive RequestKind where
  /-- A statement without rows; the answer counts the rows affected. -/
  | execute
  | query
  /-- An INSERT that is answered by the key it generated. -/
  | insert
  deriving DecidableEq, Repr

def RequestKind.name : RequestKind → String
  | .execute => "execute"
  | .query => "query"
  | .insert => "insert"

def RequestKind.Reply : RequestKind → Type
  | .execute => Nat
  | .query => List Row
  | .insert => Value

/-- The name of a cancellation token. -/
abbrev Token := String

/-- What the database does with a request. -/
structure Answer (α : Type) where
  result : Result α
  /-- The tokens that fire before the database answers. -/
  fires : List Token := []
  /-- Whether the request was still waiting when they fired. -/
  waiting : Bool := false

/-! ## Events of writes -/

/-- One write as receivers see it. -/
structure WriteEvent where
  table : String
  modelName : String
  driver : String
  /-- The primary key, NULL where a whole query is written. -/
  pk : Value
  values : List (String × Value)
  /-- Whether the write is an INSERT. -/
  created : Bool
  deriving Repr

/-! ## The world -/

structure Environment (ι ρ σ : Type) where
  schema : Schema ι
  driver : String
  dialect : Dialect
  answer : (k : RequestKind) → String → List Value → σ → Answer k.Reply × σ
  /-- What a receiver does to its signal. -/
  react : ρ → WriteEvent → List (Reaction ρ WriteEvent)
  /-- The tokens that fire while a receiver runs. -/
  receiverFires : ρ → WriteEvent → List Token
  /-- The tokens that fire before a row of a result is read. -/
  rowFires : σ → Nat → List Token

inductive TransactionState where
  | active
  | committed
  | rolledBack
  deriving DecidableEq, Repr

/-- Something that the outside notices. -/
inductive Happening (ρ : Type) where
  | request (kind : RequestKind) (sql : String) (args : List Value)
  | hook (kind : HookKind) (receiver : ρ) (event : WriteEvent)

structure World (ρ σ : Type) where
  outside : σ
  /-- The tokens that have fired. -/
  fired : List Token := []
  /-- The states of all transactions begun so far. -/
  transactions : List TransactionState := []
  hooks : Hooks ρ := .none
  trace : List (Happening ρ) := []
  log : Log := []

abbrev Effect (ρ σ α : Type) := ExceptT Error (StateM (World ρ σ)) α

namespace Effect

variable {ρ σ α : Type}

def ofResult (r : Result α) : Effect ρ σ α := ExceptT.mk (pure r)

def report (l : Log) : Effect ρ σ Unit :=
  modify fun w => { w with log := w.log ++ l }

end Effect

/-! ## Executors -/

inductive Executor where
  | connection
  /-- A transaction by its number. -/
  | transaction (id : Nat) (inner : Executor)
  /-- An executor whose requests are called off when the token has fired. -/
  | watched (token : Token) (inner : Executor)
  deriving DecidableEq, Repr

def TransactionState.label : TransactionState → String
  | .active => "active"
  | .committed => "committed"
  | .rolledBack => "rolled back"

namespace Executor

variable {ι ρ σ α : Type}

/-- The token that the executor's verbs observe: the nearest one. -/
def token? : Executor → Option Token
  | connection => none
  | transaction _ inner => inner.token?
  | watched token _ => some token

/-- What came of a request, and whether it was waiting when tokens fired. -/
structure Response (α : Type) where
  result : Result α
  waiting : Bool := false

def Response.failed (e : Error) : Response α := { result := .error e }

/--
A request under a token. It is not sent once the token has fired, and if the token fires while the
request waits, its result is dropped.
-/
def cancellable (token : Option Token) (request : StateM (World ρ σ) (Response α)) :
    StateM (World ρ σ) (Response α) := do
  match token with
  | none => request
  | some token =>
    if (← get).fired.contains token then return .failed .cancelled
    let response ← request
    if response.waiting && (← get).fired.contains token then
      return { response with result := .error .cancelled }
    return response

/-- A request to the database itself. -/
def send (env : Environment ι ρ σ) (k : RequestKind) (sql : String) (args : List Value) :
    StateM (World ρ σ) (Response k.Reply) := do
  let w ← get
  let (answer, outside) := env.answer k sql args w.outside
  set { w with
    outside
    fired := w.fired ++ answer.fires
    trace := w.trace ++ [Happening.request k sql args] }
  return { result := answer.result, waiting := answer.waiting }

def inactive (state : TransactionState) : Error :=
  .noTransaction ("transaction is " ++ state.label)

/-- A request through an executor. Only an active transaction lets one pass. -/
def request (env : Environment ι ρ σ) (k : RequestKind) (sql : String) (args : List Value) :
    Executor → StateM (World ρ σ) (Response k.Reply)
  | connection => send env k sql args
  | transaction id inner => do
    match (← get).transactions[id]? with
    | some .active => inner.request env k sql args
    | some state => return .failed (inactive state)
    | none => return .failed (.noTransaction "transaction has not begun")
  | watched token inner => cancellable (some token) (inner.request env k sql args)

/-- A request as it is, without a report. -/
def call (env : Environment ι ρ σ) (db : Executor) (k : RequestKind) (sql : String)
    (args : List Value) : Effect ρ σ k.Reply :=
  ExceptT.mk do return (← db.request env k sql args).result

/-- A request for a statement, which is reported and observes the executor's token. -/
def run (env : Environment ι ρ σ) (db : Executor) (k : RequestKind) (sql : String)
    (args : List Value) : Effect ρ σ k.Reply := do
  Effect.report [{
    level := .debug
    target := "djorm::sql"
    message := "executing"
    fields := [("driver", .text env.driver), ("sql", .text sql), ("args", .count args.length)] }]
  ExceptT.mk do return (← cancellable db.token? (db.request env k sql args)).result

/--
Whether the executor's token has fired before each of so many rows is read. The tokens that fire
meanwhile have fired afterwards.
-/
def watch (env : Environment ι ρ σ) (db : Executor) (rows : Nat) : Effect ρ σ (Nat → Bool) := do
  let w ← get
  let during (n : Nat) : List Token := (List.range n).flatMap (env.rowFires w.outside)
  set { w with fired := w.fired ++ during rows }
  return fun i =>
    match db.token? with
    | some token => (w.fired ++ during (i + 1)).contains token
    | none => false

/-! ## Hooks -/

/-- How deeply receivers may send from within a dispatch. -/
def maxNesting : Nat := 64

/-- Tells the receivers of a hook about a write. -/
def announce (env : Environment ι ρ σ) (kind : HookKind) (event : WriteEvent) : Effect ρ σ Unit :=
  modify fun w =>
    let d := Dispatching.send env.react maxNesting event { signal := w.hooks kind }
    { w with
      hooks := w.hooks.set kind d.signal
      fired := w.fired ++ d.calls.flatMap fun (r, e) => env.receiverFires r e
      trace := w.trace ++ d.calls.map fun (r, e) => .hook kind r e
      log := w.log ++ d.log }

/-- The executor as messages show it. -/
def shown (driver : String) (w : World ρ σ) : Executor → String
  | connection => driver
  | transaction id _ =>
    let state := match w.transactions[id]? with
      | some .active => "Some(Active)"
      | some .committed => "Some(Committed)"
      | some .rolledBack => "Some(RolledBack)"
      | none => "None"
    "Transaction \x7b driver: " ++ Text.quoted driver ++ ", state: " ++ state ++ " \x7d"
  | watched token _ =>
    "CancelScope \x7b driver: " ++ Text.quoted driver ++ ", cancelled: " ++
      (if w.fired.contains token then "true" else "false") ++ " \x7d"

end Executor

end Orm
