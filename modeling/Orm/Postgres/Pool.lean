import Orm.Connection
import Orm.Postgres.Binding
import Orm.Row

/-
Connections to a server: the statements that each has prepared, and the pool that hands them out.

A statement is prepared once on a connection and keeps the types that the server gave it then. A
connection that is not pinned goes back to the pool after each statement; the one that has been idle
longest is taken first, and a new one is made when none is idle.
-/

namespace Orm.Postgres

/-- A statement as the server understood it. -/
structure Prepared where
  sql : String
  types : List SqlType
  columns : List Column
  deriving DecidableEq, Repr

/-- A connection, by the statements that it has prepared. -/
structure Client where
  prepared : List Prepared := []
  deriving DecidableEq, Repr

/-- What the server answers to a statement. -/
structure Reply where
  types : List SqlType
  columns : List Column
  rows : List (List (Option (List UInt8)))
  affected : Nat
  /-- Whether it refuses to prepare the statement. -/
  refuses : Bool

/-- What the server is sent. -/
inductive Message where
  | parse (sql : String)
  | bind (cells : List (Option (List UInt8)))
  deriving DecidableEq, Repr

/-- A connection in use, with what was sent over it and what was reported. -/
structure Exchange where
  client : Client
  sent : List Message := []
  log : Log := []

abbrev Talk (α : Type) := ExceptT Error (StateM Exchange) α

namespace Talk

def send (m : Message) : Talk Unit :=
  modify fun x => { x with sent := x.sent ++ [m] }

def lift {α : Type} (r : Result α) : Talk α :=
  ExceptT.mk (pure r)

/-- The statement as it was prepared before on this connection, or else as it is prepared now. -/
def prepare (reply : Reply) (sql : String) : Talk Prepared := do
  match (← get).client.prepared.find? (·.sql == sql) with
  | some p => return p
  | none =>
    send (.parse sql)
    if reply.refuses then throw (.driver "db error")
    let p : Prepared := ⟨sql, reply.types, reply.columns⟩
    modify fun x => { x with client := ⟨x.client.prepared ++ [p]⟩ }
    return p

/-- Prepares a statement and sends its parameters. -/
def start (reply : Reply) (sql : String) (params : List Value) : Talk Prepared := do
  let p ← prepare reply sql
  if p.types.length ≠ params.length then
    throw (.typeMismatch ("statement expects " ++ toString p.types.length ++ " parameters, got " ++
      toString params.length))
  let bound ← lift (bindAll params p.types)
  send (.bind (← lift (encodeAll 0 bound p.types)))
  return p

def execute (reply : Reply) (sql : String) (params : List Value) : Talk Nat := do
  let _ ← start reply sql params
  return reply.affected

def readRows (columns : List Column) : List (List (Option (List UInt8))) → Talk (List (List Value))
  | [] => return []
  | cells :: rest => do
    let (r, log) := rowValues 0 columns cells
    modify fun x => { x with log := x.log ++ log }
    return (← lift r) :: (← readRows columns rest)

/-- The rows, each with the names of the columns. -/
def query (reply : Reply) (sql : String) (params : List Value) :
    Talk (List (List String × List Value)) := do
  let p ← start reply sql params
  return (← readRows p.columns reply.rows).map fun values => (p.columns.map (·.name), values)

/-- The first column of the first row. -/
def insert (reply : Reply) (sql : String) (params : List Value) : Talk Value := do
  let rows ← query reply sql params
  return (rows.head?.bind fun row => row.2.head?).getD .null

end Talk

/-! ## The pool -/

structure Pool where
  /-- The one that has been idle longest comes first. -/
  idle : List Client := []
  /-- Connections taken out for good, by name. -/
  pinned : List (String × Client) := []
  deriving DecidableEq, Repr

namespace Pool

def take (p : Pool) : Client × Pool :=
  match p.idle with
  | c :: rest => (c, { p with idle := rest })
  | [] => ({}, p)

def giveBack (p : Pool) (c : Client) : Pool :=
  { p with idle := p.idle ++ [c] }

/-- Pins a connection under a name, unless the name has one. -/
def pin (p : Pool) (name : String) : Client × Pool :=
  match p.pinned.lookup name with
  | some c => (c, p)
  | none =>
    let (c, p) := p.take
    (c, { p with pinned := (name, c) :: p.pinned })

def replace (p : Pool) (name : String) (c : Client) : Pool :=
  { p with pinned := p.pinned.map fun (n, old) => (n, if n = name then c else old) }

/-- Runs a statement on a pinned connection or on one that goes back to the pool. -/
def run {α : Type} (p : Pool) (pinned : Option String) (talk : Talk α) :
    Result α × Exchange × Pool :=
  let (c, p) := match pinned with
    | some name => p.pin name
    | none => p.take
  let (r, x) := talk.run { client := c }
  (r, x, match pinned with
    | some name => p.replace name x.client
    | none => p.giveBack x.client)

end Pool

/-! ## Opening -/

/-- The pool for a configuration as a message shows it; a database needs a name. -/
def shown (c : DatabaseConfig) : Result String :=
  if c.name.isEmpty then .error (.configuration "failed to create pool: ")
  else .ok ("PostgresBackend \x7b status: Status \x7b max_size: " ++ toString c.maxConnections ++
    ", size: 0, available: 0, waiting: 0 \x7d \x7d")

/-- A pinned connection as a message shows it. -/
def pinnedShown : String := "PostgresConnection \x7b .. \x7d"

end Orm.Postgres
