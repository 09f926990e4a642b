import Orm.Proofs.Signal.History

/-
Programs that use a signal, and what becomes of their dispatches.

A `Program` does one thing after another with a signal. The receivers that a dispatch calls are programs too,
so that they connect, disconnect and dispatch while it runs. `Program.run` writes down what happens, and in
this record a dispatch has called the receivers that were connected when it began, each once and in their order,
whatever they did (`run_inOrder`). `Dispatching.send` is such a program (`send_eq_run`).
-/

namespace Orm.Signal

variable {ρ π : Type}

/-! ## Programs -/

/--
A program goes on by what it is told: whether there was a receiver to disconnect, and how many receivers a
dispatch has called. What a receiver does may depend on the moment of its call, and so on everything before.
-/
inductive Program (ρ π : Type) where
  | done
  | connect (id : String) (r : ρ) (next : Program ρ π)
  | disconnect (id : String) (next : Bool → Program ρ π)
  | disconnectAll (next : Program ρ π)
  | send (payload : π) (react : Nat → ρ → Program ρ π) (next : Nat → Program ρ π)

/-- A signal and what happened so far. -/
structure Session (ρ π : Type) where
  signal : Signal ρ
  history : List (Event ρ π) := []

def Session.record (x : Session ρ π) (e : Event ρ π) : Session ρ π :=
  ⟨e.apply x.signal, x.history ++ [e]⟩

/-- The receivers of a dispatch, one after the other. -/
def callEach (run : Nat → ρ → Session ρ π → Session ρ π) (n : Nat) (payload : π) :
    List ρ → Session ρ π → Session ρ π
  | [], x => x
  | r :: rest, x => callEach run n payload rest (run x.history.length r (x.record (.called n r payload)))

def Program.run : Program ρ π → Session ρ π → Session ρ π
  | .done, x => x
  | .connect id r next, x => next.run (x.record (.connected id r))
  | .disconnect id next, x =>
    let found := (x.signal.disconnect id).2
    (next found).run (x.record (.disconnected id found))
  | .disconnectAll next, x => next.run (x.record .cleared)
  | .send payload react next, x =>
    let n := x.history.length
    let receivers := x.signal.receivers.map (·.2)
    let y := callEach (fun k r => (react k r).run) n payload receivers (x.record (.began payload))
    (next receivers.length).run (y.record (.ended n receivers.length))

/-! ## Records -/

namespace Event

/-- The dispatch that an event belongs to. -/
def dispatch? : Event ρ π → Option Nat
  | called n _ _ | ended n _ => some n
  | _ => none

def ofDispatch (n : Nat) (e : Event ρ π) : Bool := e.dispatch? == some n

def call? : Event ρ π → Option (ρ × π)
  | called _ r payload => some (r, payload)
  | _ => none

end Event

/-- What a dispatch does that begins as number `n`: the calls, and the return with their number. -/
def course (s : Signal ρ) (n : Nat) (payload : π) : List (Event ρ π) :=
  s.receivers.map (fun q => .called n q.2 payload) ++ [.ended n s.size]

/--
A record `new` behind `before`. Those who disconnect are told the truth; the events of a dispatch behind its
beginning are its course; and events belong to dispatches that began, in the record itself or to those that
were `running` before.
-/
structure InOrder (start : Signal ρ) (running : Nat → Prop) (before new : List (Event ρ π)) : Prop where
  answered : ∀ a id found b, new = a ++ .disconnected id found :: b →
    found = (start.replay (before ++ a)).has id
  dispatched : ∀ a payload b, new = a ++ .began payload :: b →
    b.filter (Event.ofDispatch (before ++ a).length) =
      course (start.replay (before ++ a)) (before ++ a).length payload
  belongs : ∀ a e b n, new = a ++ e :: b → e.dispatch? = some n →
    (∃ payload, (before ++ a)[n]? = some (.began payload)) ∧ (running n ∨ before.length ≤ n)

namespace InOrder

variable {start : Signal ρ} {running : Nat → Prop} {before : List (Event ρ π)}

theorem nil : InOrder start running before [] where
  answered a id found b h := by simp at h
  dispatched a payload b h := by simp at h
  belongs a e b n h := by simp at h

/-- An event of no other dispatch is not among the events of one. -/
theorem filter_eq_nil {new : List (Event ρ π)} (h : InOrder start running before new) {n : Nat}
    (hrunning : ¬running n) (hn : n < before.length) : new.filter (Event.ofDispatch n) = [] := by
  rw [List.filter_eq_nil_iff]
  intro e he hof
  obtain ⟨a, b, rfl⟩ := List.append_of_mem he
  obtain ⟨-, hopen | hle⟩ := h.belongs a e b n rfl (eq_of_beq hof)
  · exact hrunning hopen
  · exact Nat.lt_irrefl _ (Nat.lt_of_lt_of_le hn hle)

theorem append {new more : List (Event ρ π)} (h : InOrder start running before new)
    (hmore : InOrder start running (before ++ new) more) (hrunning : ∀ n, running n → n < before.length) :
    InOrder start running before (new ++ more) where
  answered a id found b hsplit := by
    rcases append_eq_split.1 hsplit with ⟨rest, hnew, -⟩ | ⟨first, rfl, rfl⟩
    · exact h.answered a id found rest hnew
    · rw [← List.append_assoc]
      exact hmore.answered first id found b rfl
  dispatched a payload b hsplit := by
    rcases append_eq_split.1 hsplit with ⟨rest, hnew, rfl⟩ | ⟨first, rfl, rfl⟩
    · have hbehind : ¬(before ++ a).length < before.length := by
        rw [List.length_append]
        omega
      have hn : (before ++ a).length < (before ++ new).length := by simp [hnew]
      have hnone : more.filter (Event.ofDispatch (before ++ a).length) = [] :=
        hmore.filter_eq_nil (fun hopen => absurd (hrunning _ hopen) hbehind) hn
      rw [List.filter_append, hnone, List.append_nil]
      exact h.dispatched a payload rest hnew
    · rw [← List.append_assoc]
      exact hmore.dispatched first payload b rfl
  belongs a e b n hsplit he := by
    rcases append_eq_split.1 hsplit with ⟨rest, hnew, -⟩ | ⟨first, rfl, rfl⟩
    · exact h.belongs a e rest n hnew he
    · obtain ⟨hbegan, hlater⟩ := hmore.belongs first e b n rfl he
      rw [← List.append_assoc]
      refine ⟨hbegan, hlater.imp_right fun hle => ?_⟩
      rw [List.length_append] at hle
      omega

/-- An event that changes the signal, or a call in a dispatch that still runs. -/
theorem single {e : Event ρ π} (hanswer : ∀ id found, e = .disconnected id found →
      found = (start.replay before).has id)
    (hbegan : ∀ payload, e ≠ .began payload)
    (hdispatch : ∀ n, e.dispatch? = some n → running n ∧ ∃ payload, before[n]? = some (.began payload)) :
    InOrder start running before [e] := by
  constructor
  · intro a id found b hsplit
    rcases List.singleton_eq_append_iff.1 hsplit with ⟨rfl, h⟩ | ⟨-, h⟩
    · cases h
      rw [List.append_nil]
      exact hanswer id found rfl
    · cases h
  · intro a payload b hsplit
    rcases List.singleton_eq_append_iff.1 hsplit with ⟨rfl, h⟩ | ⟨-, h⟩
    · cases h
      exact absurd rfl (hbegan payload)
    · cases h
  · intro a e' b n hsplit he
    rcases List.singleton_eq_append_iff.1 hsplit with ⟨rfl, h⟩ | ⟨-, h⟩
    · cases h
      rw [List.append_nil]
      exact ⟨(hdispatch n he).2, .inl (hdispatch n he).1⟩
    · cases h

theorem mono {new : List (Event ρ π)} (h : InOrder start running before new) {more : Nat → Prop}
    (hmore : ∀ n, running n → more n) : InOrder start more before new where
  answered := h.answered
  dispatched := h.dispatched
  belongs a e b n hsplit he := (h.belongs a e b n hsplit he).imp_right (Or.imp_left (hmore n))

/-- A dispatch begins, and what follows is its course with what its receivers do. -/
theorem began {payload : π} {rest : List (Event ρ π)}
    (h : InOrder start (· = before.length) (before ++ [.began payload]) rest)
    (hcourse : rest.filter (Event.ofDispatch before.length) =
      course (start.replay before) before.length payload) :
    InOrder start running before (.began payload :: rest) := by
  constructor
  · intro a id found b hsplit
    rcases List.cons_eq_append_iff.1 hsplit with ⟨-, hfirst⟩ | ⟨a, rfl, hrest⟩
    · cases hfirst
    · rw [List.append_cons]
      exact h.answered a id found b hrest
  · intro a p b hsplit
    rcases List.cons_eq_append_iff.1 hsplit with ⟨rfl, hfirst⟩ | ⟨a, rfl, hrest⟩
    · cases hfirst
      rw [List.append_nil]
      exact hcourse
    · rw [List.append_cons]
      exact h.dispatched a p b hrest
  · intro a e b n hsplit he
    rcases List.cons_eq_append_iff.1 hsplit with ⟨-, hfirst⟩ | ⟨a, rfl, hrest⟩
    · cases hfirst
      cases he
    · obtain ⟨hbegan, hlater⟩ := h.belongs a e b n hrest he
      rw [List.append_cons]
      refine ⟨hbegan, .inr ?_⟩
      rw [List.length_append] at hlater
      omega

/-- A whole dispatch. -/
theorem whole {payload : π} {calls : List (Event ρ π)}
    (h : InOrder start (· = before.length) (before ++ [.began payload]) calls)
    (hcalls : calls.filter (Event.ofDispatch before.length) =
      (start.replay before).receivers.map fun q => .called before.length q.2 payload) :
    InOrder start running before
      (.began payload :: (calls ++ [.ended before.length (start.replay before).size])) := by
  have hended : InOrder start (· = before.length) (before ++ [.began payload] ++ calls)
      [.ended before.length (start.replay before).size] := by
    refine .single nofun nofun fun n hn => ?_
    cases hn
    exact ⟨rfl, payload, by simp⟩
  refine .began (h.append hended fun n hn => by simp [hn]) ?_
  rw [List.filter_append, hcalls, course]
  simp [Event.ofDispatch, Event.dispatch?]

end InOrder

/-! ## Runs -/

/-- From one session to a later one. -/
structure Leads (start : Signal ρ) (running : Nat → Prop) (x y : Session ρ π) : Prop where
  signal : y.signal = start.replay y.history
  record : ∃ new, y.history = x.history ++ new ∧ InOrder start running x.history new

section Runs

variable {start : Signal ρ} {running : Nat → Prop} {x y z : Session ρ π}

theorem Leads.trans (hxy : Leads start running x y) (hyz : Leads start running y z)
    (hrunning : ∀ n, running n → n < x.history.length) : Leads start running x z := by
  obtain ⟨new, hy, hnew⟩ := hxy.record
  obtain ⟨more, hz, hmore⟩ := hyz.record
  rw [hy] at hmore
  exact ⟨hyz.signal, new ++ more, by rw [hz, hy, List.append_assoc], hnew.append hmore hrunning⟩

theorem record_signal (hx : x.signal = start.replay x.history) (e : Event ρ π) :
    (x.record e).signal = start.replay (x.record e).history := by
  rw [Session.record, replay_snoc, hx]

theorem Leads.change (hx : x.signal = start.replay x.history) (e : Event ρ π)
    (hanswer : ∀ id found, e = .disconnected id found → found = x.signal.has id)
    (hbegan : ∀ payload, e ≠ .began payload) (hdispatch : e.dispatch? = none) :
    Leads start running x (x.record e) := by
  refine ⟨record_signal hx e, [e], rfl, .single (hx ▸ hanswer) hbegan ?_⟩
  rw [hdispatch]
  exact nofun

/-- All receivers of a dispatch that began are called in their order. -/
theorem callEach_leads {run : Nat → ρ → Session ρ π → Session ρ π}
    (hrun : ∀ k r (x : Session ρ π), x.signal = start.replay x.history →
      Leads start (fun _ => False) x (run k r x)) {n : Nat} {payload : π} (receivers : List ρ)
    (hx : x.signal = start.replay x.history) (hbegan : x.history[n]? = some (.began payload)) :
    ∃ new, (callEach run n payload receivers x).history = x.history ++ new ∧
      InOrder start (· = n) x.history new ∧
      (callEach run n payload receivers x).signal =
        start.replay (callEach run n payload receivers x).history ∧
      new.filter (Event.ofDispatch n) = receivers.map (.called n · payload) := by
  induction receivers generalizing x with
  | nil => exact ⟨[], (List.append_nil _).symm, .nil, hx, rfl⟩
  | cons r receivers ih =>
    have hn : n < x.history.length := (List.getElem?_eq_some_iff.1 hbegan).1
    have hcalled : InOrder start (· = n) x.history [.called n r payload] := by
      refine .single nofun nofun fun m hm => ?_
      cases hm
      exact ⟨rfl, payload, hbegan⟩
    obtain ⟨y, hy⟩ : ∃ y, y = run x.history.length r (x.record (.called n r payload)) := ⟨_, rfl⟩
    obtain ⟨hsignal, reaction, hhistory, hreaction⟩ :=
      hy ▸ hrun x.history.length r (x.record (.called n r payload)) (record_signal hx _)
    have hbegan' : y.history[n]? = some (.began payload) := by
      rw [hhistory, Session.record, List.append_assoc, List.getElem?_append_left hn, hbegan]
    obtain ⟨rest, hrest, hinOrder, hfaithful, hcalls⟩ := ih hsignal hbegan'
    have hnone : reaction.filter (Event.ofDispatch n) = [] :=
      hreaction.filter_eq_nil not_false (by simp [Session.record]; omega)
    have hreaction' : InOrder start (· = n) (x.history ++ [.called n r payload]) reaction :=
      hreaction.mono nofun
    rw [callEach, ← hy]
    refine ⟨[.called n r payload] ++ reaction ++ rest, ?_, ?_, hfaithful, ?_⟩
    · rw [hrest, hhistory, Session.record]
      simp
    · refine (hcalled.append hreaction' fun m hm => hm ▸ hn).append ?_ fun m hm => hm ▸ hn
      rw [hhistory, Session.record, List.append_assoc] at hinOrder
      exact hinOrder
    · rw [List.filter_append, List.filter_append, hnone, hcalls]
      simp [Event.ofDispatch, Event.dispatch?]

/-- A dispatch comes to its end, and the program goes on with the number of receivers that it has called. -/
theorem Program.run_send (hx : x.signal = start.replay x.history) (payload : π)
    {react : Nat → ρ → Program ρ π}
    (hreact : ∀ k r (x : Session ρ π), x.signal = start.replay x.history →
      Leads start (fun _ => False) x ((react k r).run x)) (next : Nat → Program ρ π) :
    ∃ y, (send payload react next).run x = (next x.signal.size).run y ∧
      Leads start (fun _ => False) x y ∧ ∃ calls, y.history =
        x.history ++ .began payload :: (calls ++ [.ended x.history.length x.signal.size]) := by
  have hbegan : (x.record (.began payload)).history[x.history.length]? = some (.began payload) := by
    simp [Session.record]
  have hcount : (x.signal.receivers.map (·.2)).length = x.signal.size := List.length_map ..
  obtain ⟨calls, hhistory, hcalls, hsignal, hcalled⟩ :=
    callEach_leads hreact (x.signal.receivers.map (·.2)) (record_signal hx _) hbegan
  obtain ⟨y, hy⟩ : ∃ y, y = callEach (fun k r => (react k r).run) x.history.length payload
      (x.signal.receivers.map (·.2)) (x.record (.began payload)) := ⟨_, rfl⟩
  rw [← hy] at hhistory hsignal
  have hrecord : (y.record (.ended x.history.length x.signal.size)).history =
      x.history ++ .began payload :: (calls ++ [.ended x.history.length x.signal.size]) := by
    rw [Session.record, hhistory, Session.record]
    simp
  rw [List.map_map, hx] at hcalled
  refine ⟨y.record (.ended x.history.length x.signal.size), ?_, ⟨record_signal hsignal _, _, hrecord, ?_⟩,
    calls, hrecord⟩
  · rw [run]
    simp only [← hy, hcount]
  · rw [hx]
    exact .whole hcalls hcalled

/-- Whatever a program does, it leaves a record in order. -/
theorem Program.run_leads (c : Program ρ π) (hx : x.signal = start.replay x.history) :
    Leads start (fun _ => False) x (c.run x) := by
  induction c generalizing x with
  | done => exact ⟨hx, [], (List.append_nil _).symm, .nil⟩
  | connect id r next ih =>
    exact (Leads.change hx (.connected id r) nofun nofun rfl).trans (ih (record_signal hx _)) nofun
  | disconnect id next ih =>
    have hanswer : ∀ i found, (Event.disconnected id (x.signal.disconnect id).2 : Event ρ π) =
        .disconnected i found → found = x.signal.has i := by
      rintro i found heq
      cases heq
      rfl
    exact (Leads.change hx _ hanswer nofun rfl).trans (ih _ (record_signal hx _)) nofun
  | disconnectAll next ih =>
    exact (Leads.change hx .cleared nofun nofun rfl).trans (ih (record_signal hx _)) nofun
  | send payload react next hreact hnext =>
    obtain ⟨y, hrun, hleads, -⟩ := run_send hx payload (fun k r _ => hreact k r) next
    rw [hrun]
    exact hleads.trans (hnext _ hleads.signal) nofun

end Runs

/-! ## The dispatch of the executor -/

namespace Program

/-- The reactions of a receiver, one after the other. -/
def following (send : π → Program ρ π → Program ρ π) : List (Reaction ρ π) → Program ρ π
  | [] => .done
  | .connect id r :: rest => .connect id r (following send rest)
  | .disconnect id :: rest => .disconnect id fun _ => following send rest
  | .disconnectAll :: rest => .disconnectAll (following send rest)
  | .send payload :: rest => send payload (following send rest)

/-- A dispatch whose receivers dispatch in turn at most `depth` deep. -/
def sending (react : ρ → π → List (Reaction ρ π)) : Nat → π → Program ρ π → Program ρ π
  | 0, _, next => next
  | depth + 1, payload, next =>
    .send payload (fun _ r => following (sending react depth) (react r payload)) fun _ => next

end Program

/-- A session has the signal of a dispatching one, and the same calls were made. -/
structure Shows (d : Dispatching ρ π) (x : Session ρ π) : Prop where
  signal : d.signal = x.signal
  calls : d.calls = x.history.filterMap Event.call?

section Dispatches

variable {d : Dispatching ρ π} {x : Session ρ π}

/-- An event that is no call. -/
theorem Shows.record (h : Shows d x) {e : Event ρ π} (he : e.call? = none) :
    Shows { d with signal := e.apply d.signal } (x.record e) where
  signal := by rw [Session.record, h.signal]
  calls := by simp [Session.record, h.calls, he]

theorem Shows.called (h : Shows d x) (n : Nat) (r : ρ) (payload : π) :
    Shows { d with calls := d.calls ++ [(r, payload)] } (x.record (.called n r payload)) where
  signal := h.signal
  calls := by simp [Session.record, h.calls, Event.call?]

/-- How a program dispatches as a dispatching session does. -/
def Matches (send : π → Dispatching ρ π → Dispatching ρ π) (send' : π → Program ρ π → Program ρ π) : Prop :=
  ∀ payload next d x, Shows d x → ∃ y, Shows (send payload d) y ∧ (send' payload next).run x = next.run y

variable {send : π → Dispatching ρ π → Dispatching ρ π} {send' : π → Program ρ π → Program ρ π}

theorem following_shows (hsend : Matches send send') (reactions : List (Reaction ρ π))
    (h : Shows d x) :
    Shows (reactions.foldl (Dispatching.perform send) d) ((Program.following send' reactions).run x) := by
  induction reactions generalizing d x with
  | nil => exact h
  | cons reaction rest ih =>
    cases reaction with
    | connect id r => exact ih (h.record (e := .connected id r) rfl)
    | disconnect id => exact ih (h.record (e := .disconnected id (x.signal.disconnect id).2) rfl)
    | disconnectAll => exact ih (h.record (e := .cleared) rfl)
    | send payload =>
      obtain ⟨y, hy, hrun⟩ := hsend payload (Program.following send' rest) d x h
      rw [List.foldl_cons, Program.following, hrun]
      exact ih hy

theorem callEach_shows (hsend : Matches send send') (react : ρ → π → List (Reaction ρ π)) (n : Nat)
    (payload : π) (receivers : List ρ) (h : Shows d x) :
    Shows (receivers.foldl (Dispatching.call react send payload) d)
      (callEach (fun _ r => (Program.following send' (react r payload)).run) n payload receivers x) := by
  induction receivers generalizing d x with
  | nil => exact h
  | cons r receivers ih => exact ih (following_shows hsend (react r payload) (h.called n r payload))

/-- A dispatch of any depth is a run of a program. -/
theorem sending_matches (react : ρ → π → List (Reaction ρ π)) (depth : Nat) :
    Matches (Dispatching.send react depth) (Program.sending react depth) := by
  induction depth with
  | zero => exact fun payload next d x h => ⟨x, h, rfl⟩
  | succ depth ih =>
    intro payload next d x h
    have hbegan : Shows { d with log := d.log ++ Dispatching.dispatchLog d.signal }
        (x.record (.began payload)) := ⟨(h.record (e := .began payload) rfl).signal,
      (h.record (e := .began payload) rfl).calls⟩
    have hcalls := callEach_shows ih react x.history.length payload
      (d.signal.receivers.map (·.2)) hbegan
    refine ⟨_, hcalls.record (e := .ended x.history.length (x.signal.receivers.map (·.2)).length) rfl, ?_⟩
    rw [Program.sending, Program.run, h.signal]

end Dispatches

/-! ## All programs -/

/--
Whatever a program and its receivers do with a signal that nobody was connected to: at every moment the receivers
are the ordered map of what happened before; who disconnects is told whether the id was there; a dispatch
calls the receivers that were connected when it began, each once and in their order; there are no other calls;
and who dispatches is told the number of these receivers. All dispatches of the executor are of this kind.
-/
theorem Program.dispatches_inOrder (c : Program ρ π) (name : String) :
    let out := c.run ⟨{ name }, []⟩
    out.signal = replay { name } out.history ∧
    (∀ before after, out.history = before ++ after → MapOf before (replay { name } before).receivers) ∧
    (∀ before id found after, out.history = before ++ .disconnected id found :: after →
      (found = true ↔ ∃ r, Held before id r)) ∧
    (∀ before payload after, out.history = before ++ .began payload :: after →
      after.filter (Event.ofDispatch before.length) =
        (replay { name } before).receivers.map (fun q => .called before.length q.2 payload) ++
          [.ended before.length (replay { name } before).size]) ∧
    (∀ before e after n, out.history = before ++ e :: after → e.dispatch? = some n →
      ∃ payload, before[n]? = some (.began payload)) ∧
    (∀ payload react next (x : Session ρ π), x.signal = replay { name } x.history →
      ∃ y calls, (send payload react next).run x = (next x.signal.size).run y ∧
        y.history = x.history ++ .began payload :: (calls ++ [.ended x.history.length x.signal.size])) ∧
    ∀ (react : ρ → π → List (Reaction ρ π)) (depth : Nat),
      Matches (Dispatching.send react depth) (sending react depth) := by
  intro out
  have hleads : Leads { name } (fun _ => False) ⟨{ name }, []⟩ out := c.run_leads rfl
  obtain ⟨hsignal, new, hrecord, hnew⟩ := hleads
  rw [List.nil_append] at hrecord
  refine ⟨hsignal, fun before _ _ => mapOf_replay name before, fun before id found after hsplit => ?_,
    fun before payload after hsplit => ?_, fun before e after n hsplit he => ?_,
    fun payload react next x hx => ?_, sending_matches⟩
  · have hmap := mapOf_replay name before
    rw [hnew.answered before id found after (hrecord ▸ hsplit), List.nil_append, has_iff, ids, List.mem_map]
    constructor
    · rintro ⟨⟨i, r⟩, hmem, rfl⟩
      exact ⟨r, (hmap.latest i r).1 hmem⟩
    · rintro ⟨r, hheld⟩
      exact ⟨(id, r), (hmap.latest id r).2 hheld, rfl⟩
  · exact hnew.dispatched before payload after (hrecord ▸ hsplit)
  · exact (hnew.belongs before e after n (hrecord ▸ hsplit) he).1
  · obtain ⟨y, hrun, -, calls, hhistory⟩ := run_send hx payload (fun k r _ => (react k r).run_leads) next
    exact ⟨y, calls, hrun, hhistory⟩

/-- A receiver that disconnects itself is called no more. -/
example : ((.connect "once" () <| .send () (fun _ _ => .disconnect "once" fun _ => .done) fun _ =>
      .send () (fun _ _ => .done) fun _ => .done : Program Unit Unit).run ⟨{}, []⟩).history =
    [.connected "once" (), .began (), .called 1 () (), .disconnected "once" true, .ended 1 1,
      .began (), .ended 5 0] := by
  rfl

end Orm.Signal
