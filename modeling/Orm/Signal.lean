import Orm.Log

/-
Signals: lists of receivers that are called in turn.

A receiver is known by its id. Connecting an id again puts the new receiver in the place of the old
one. A dispatch calls the receivers that are connected when it starts; what they connect, disconnect
or send meanwhile changes the signal for later dispatches only.
-/

namespace Orm

structure Signal (ρ : Type) where
  name : String := "signal"
  /-- The receivers by their ids, in the order in which they are called. -/
  receivers : List (String × ρ) := []
  deriving DecidableEq, Repr

namespace Signal

variable {ρ π : Type}

def connectIn (id : String) (r : ρ) : List (String × ρ) → List (String × ρ)
  | [] => [(id, r)]
  | (i, old) :: rest => if i = id then (i, r) :: rest else (i, old) :: connectIn id r rest

def connect (s : Signal ρ) (id : String) (r : ρ) : Signal ρ :=
  { s with receivers := connectIn id r s.receivers }

def has (s : Signal ρ) (id : String) : Bool := s.receivers.any (·.1 == id)

/-- The signal without a receiver; says whether there was one of that id. -/
def disconnect (s : Signal ρ) (id : String) : Signal ρ × Bool :=
  ({ s with receivers := s.receivers.filter (·.1 != id) }, s.has id)

def disconnectAll (s : Signal ρ) : Signal ρ := { s with receivers := [] }

def size (s : Signal ρ) : Nat := s.receivers.length

end Signal

/-! ## Dispatch -/

/-- What a receiver does to its own signal when it is called. -/
inductive Reaction (ρ π : Type) where
  | connect (id : String) (r : ρ)
  | disconnect (id : String)
  | disconnectAll
  | send (payload : π)

/-- A signal while it is at work: the calls made so far and what was reported. -/
structure Dispatching (ρ π : Type) where
  signal : Signal ρ
  calls : List (ρ × π) := []
  log : Log := []

namespace Dispatching

variable {ρ π : Type}

/-- A dispatch is reported if anyone receives it. -/
def dispatchLog (s : Signal ρ) : Log :=
  if s.receivers.isEmpty then []
  else
    [{ level := .trace
       target := "djorm_signals"
       message := "dispatching"
       fields := [("signal", .text s.name), ("receivers", .count s.size)] }]

/-- One reaction, given how the signal sends. -/
def perform (send : π → Dispatching ρ π → Dispatching ρ π) (d : Dispatching ρ π) :
    Reaction ρ π → Dispatching ρ π
  | .connect id r => { d with signal := d.signal.connect id r }
  | .disconnect id => { d with signal := (d.signal.disconnect id).1 }
  | .disconnectAll => { d with signal := d.signal.disconnectAll }
  | .send p => send p d

/-- A receiver is called, then its reactions follow one by one. -/
def call (react : ρ → π → List (Reaction ρ π)) (send : π → Dispatching ρ π → Dispatching ρ π)
    (payload : π) (d : Dispatching ρ π) (r : ρ) : Dispatching ρ π :=
  (react r payload).foldl (perform send) { d with calls := d.calls ++ [(r, payload)] }

/-- A dispatch to the receivers connected now; receivers send in turn at most `depth` deep. -/
def send (react : ρ → π → List (Reaction ρ π)) : Nat → π → Dispatching ρ π → Dispatching ρ π
  | 0, _, d => d
  | depth + 1, payload, d =>
    (d.signal.receivers.map (·.2)).foldl (call react (send react depth) payload)
      { d with log := d.log ++ dispatchLog d.signal }

end Dispatching

/-! ## The signals around writes -/

inductive HookKind where
  | preSave
  | postSave
  | preDelete
  | postDelete
  deriving DecidableEq, Repr

def HookKind.name : HookKind → String
  | .preSave => "pre_save"
  | .postSave => "post_save"
  | .preDelete => "pre_delete"
  | .postDelete => "post_delete"

def HookKind.all : List HookKind := [.preSave, .postSave, .preDelete, .postDelete]

/-- One signal for each moment around a write. -/
abbrev Hooks (ρ : Type) := HookKind → Signal ρ

namespace Hooks

variable {ρ : Type}

/-- Nobody receives anything. -/
def none : Hooks ρ := fun k => { name := k.name }

def set (h : Hooks ρ) (k : HookKind) (s : Signal ρ) : Hooks ρ :=
  fun l => if l = k then s else h l

end Hooks

end Orm
