import Orm.Proofs.Script.Steps

/-
A script that is run while a token may fire, beside the same script undisturbed: what would have happened
if the token had never fired.

Whatever a token stops, it stops at a statement or at a row. A statement that is asked for after the
token has fired is not sent, one that is on its way when the token fires is given up, and every other
statement is answered as if there were no such token. So either the token stops no step of the run, and
then the run is the undisturbed one, or the run is the undisturbed one up to a step that the token stops;
that step is the last one and the script ends with `cancelled`.
-/

namespace Orm

variable {S ι ρ σ α : Type} {t : Token}

/-- The environment in which the token never fires. -/
def Environment.without (env : Environment ι ρ σ) (t : Token) : Environment ι ρ σ :=
  { env with
    answer := fun k sql args s =>
      let (a, s) := env.answer k sql args s
      ({ a with fires := a.fires.filter (· != t) }, s)
    receiverFires := fun r event => (env.receiverFires r event).filter (· != t)
    rowFires := fun s i => (env.rowFires s i).filter (· != t) }

/-- The world as if the token had not fired. -/
def World.without (w : World ρ σ) (t : Token) : World ρ σ :=
  { w with fired := w.fired.filter (· != t) }

@[simp] theorem World.without_transactions (w : World ρ σ) :
    (w.without t).transactions = w.transactions := rfl

def Step.without (s : Step ρ σ) (t : Token) : Step ρ σ :=
  { s with before := s.before.without t, after := s.after.without t }

theorem World.not_mem_without (w : World ρ σ) : t ∉ (w.without t).fired := by
  simp [World.without]

theorem World.mem_without {w : World ρ σ} {u : Token} (h : u ≠ t) :
    u ∈ (w.without t).fired ↔ u ∈ w.fired := by
  simp [World.without, h]

section

variable (env : Environment ι ρ σ) (w : World ρ σ)

theorem announce_without (kind : HookKind) (event : WriteEvent) :
    (outcome (Executor.announce (env.without t) kind event) (w.without t)).2 =
      (outcome (Executor.announce env kind event) w).2.without t := by
  simp only [Executor.announce, outcome_modify, World.without, Environment.without,
    List.filter_append, List.filter_flatMap]

theorem reading_without (rows : Nat) :
    (env.without t).reading (w.without t) rows = (env.reading w rows).without t := by
  simp only [Environment.reading, World.without, Environment.without, List.filter_append,
    List.filter_flatMap]

/-! ## Statements -/

/-- The statement was on its way when the token fired. -/
structure Pending (t : Token) (kind : RequestKind) (sql : String) (args : List Value)
    (before after : World ρ σ) : Prop where
  sent : after = env.answered before kind sql args
  waiting : (env.answer kind sql args before.outside).1.waiting = true
  fired : t ∈ after.fired

theorem pending_iff (kind : RequestKind) (sql : String) (args : List Value) (db : Executor) :
    Pending env t kind sql args w ((db.request env kind sql args).run w).2 ↔
      ((db.request env kind sql args).run w).1.waiting = true ∧
        t ∈ ((db.request env kind sql args).run w).2.fired := by
  have cases := request_cases env kind sql args db w
  generalize (db.request env kind sql args).run w = r at cases
  constructor
  · intro h
    rcases cases with ⟨unsent, -⟩ | ⟨-, hwait⟩
    · have := congrArg World.trace (unsent.symm.trans h.sent)
      simp [Environment.answered] at this
    · exact ⟨hwait ▸ h.waiting, h.fired⟩
  · intro h
    rcases cases with ⟨-, hwait⟩ | ⟨sent, hwait⟩
    · exact absurd (hwait.symm.trans h.1) Bool.false_ne_true
    · exact ⟨sent, hwait ▸ h.1, h.2⟩

end

section

open Executor (cancellable Response)

/-- Two responses, the second one without the token `t`: they are the same, but that the token may
have fired while the first one was waited for. -/
structure Undisturbed (t : Token) (r r' : Response α × World ρ σ) : Prop where
  after : r'.2 = r.2.without t
  waiting : r'.1.waiting = r.1.waiting
  result : r.1.result = r'.1.result ∨
    r.1.waiting = true ∧ t ∈ r.2.fired ∧ r.1.result = .error .cancelled

theorem Undisturbed.observed {w : World ρ σ} (hw : t ∉ w.fired) {r r' : Response α × World ρ σ}
    (h : Undisturbed t r r') (u : Token) :
    Undisturbed t (observed u w r) (observed u (w.without t) r') := by
  by_cases hu : u = t
  · subst hu
    rw [observed_of_not_pending (w.not_mem_without) (h.after ▸ fun hp => r.2.not_mem_without hp.2)]
    by_cases hp : r.1.waiting = true ∧ u ∈ r.2.fired
    · rw [observed_of_pending hw hp]
      exact ⟨h.after, h.waiting, .inr ⟨hp.1, hp.2, rfl⟩⟩
    · rw [observed_of_not_pending hw hp]
      exact h
  · have fired : u ∈ r'.2.fired ↔ u ∈ r.2.fired := h.after ▸ World.mem_without hu
    by_cases hf : u ∈ w.fired
    · rw [observed_of_fired hf, observed_of_fired ((World.mem_without hu).2 hf)]
      exact ⟨rfl, rfl, .inl rfl⟩
    · have hf' : u ∉ (w.without t).fired := fun h => hf ((World.mem_without hu).1 h)
      by_cases hp : r.1.waiting = true ∧ u ∈ r.2.fired
      · rw [observed_of_pending hf hp, observed_of_pending hf' (by rwa [h.waiting, fired])]
        exact ⟨h.after, h.waiting, .inl rfl⟩
      · rw [observed_of_not_pending hf hp, observed_of_not_pending hf' (by rwa [h.waiting, fired])]
        exact h

theorem request_undisturbed (env : Environment ι ρ σ) (kind : RequestKind) (sql : String)
    (args : List Value) (db : Executor) {w : World ρ σ} (hw : t ∉ w.fired) :
    Undisturbed t ((db.request env kind sql args).run w)
      ((db.request (env.without t) kind sql args).run (w.without t)) := by
  induction db with
  | connection =>
    refine ⟨?_, rfl, .inl rfl⟩
    change (env.without t).answered (w.without t) kind sql args =
      (env.answered w kind sql args).without t
    simp only [Environment.answered, World.without, Environment.without, List.filter_append]
  | transaction id inner ih =>
    simp only [Executor.request, StateT.run_bind, StateT.run_get, pure_bind]
    rw [World.without_transactions]
    split
    · exact ih
    · exact ⟨rfl, rfl, .inl rfl⟩
    · exact ⟨rfl, rfl, .inl rfl⟩
  | watched u inner ih =>
    rw [Executor.request, Executor.request, cancellable_run, cancellable_run]
    exact ih.observed hw u

/-- A verb's statement through an executor that observes the token: refused, given up, or answered as
if there were no such token. -/
theorem sent_cases {db : Executor} (hdb : db.token? = some t) (env : Environment ι ρ σ)
    (kind : RequestKind) (sql : String) (args : List Value) (w : World ρ σ) :
    (t ∈ w.fired ∧ (Script.sent env db kind sql args).run w =
        (pure (.failed .cancelled, w) : Id _)) ∨
      (Pending env t kind sql args w ((Script.sent env db kind sql args).run w).2 ∧
        ((Script.sent env db kind sql args).run w).1.result = .error .cancelled) ∨
      (t ∉ w.fired ∧
        ¬ Pending env t kind sql args w ((Script.sent env db kind sql args).run w).2 ∧
        ((Script.sent (env.without t) db kind sql args).run (w.without t)).2 =
          ((Script.sent env db kind sql args).run w).2.without t ∧
        ((Script.sent (env.without t) db kind sql args).run (w.without t)).1.result =
          ((Script.sent env db kind sql args).run w).1.result) := by
  rw [Script.sent, Script.sent, hdb, cancellable_run, cancellable_run]
  by_cases hw : t ∈ w.fired
  · exact .inl ⟨hw, congrArg pure (observed_of_fired hw)⟩
  have same := request_undisturbed env kind sql args db hw
  have pending := pending_iff (t := t) env w kind sql args db
  generalize (db.request env kind sql args).run w = r at same pending
  generalize (db.request (env.without t) kind sql args).run (w.without t) = r' at same
  have never : observed t (w.without t) r' = r' :=
    observed_of_not_pending w.not_mem_without (same.after ▸ fun hp => r.2.not_mem_without hp.2)
  rw [never]
  by_cases hp : r.1.waiting = true ∧ t ∈ r.2.fired
  · rw [observed_of_pending hw hp]
    exact .inr (.inl ⟨pending.2 hp, rfl⟩)
  · rw [observed_of_not_pending hw hp]
    refine .inr (.inr ⟨hw, fun h => hp (pending.1 h), same.after, ?_⟩)
    exact (same.result.resolve_right fun h => hp ⟨h.1, h.2.1⟩).symm

end

/-- The token has stopped the step: a statement asked for after it fired or on its way when it fired,
or a row that was to be read after it fired. -/
def Step.CalledOff (env : Environment ι ρ σ) (t : Token) (s : Step ρ σ) : Prop :=
  match s.deed with
  | .announce _ _ => False
  | .request kind sql args =>
    t ∈ s.before.fired ∨ Pending env t kind sql args s.before s.after
  | .row _ => t ∈ s.after.fired

/-- No step is called off, and the steps are the undisturbed ones. -/
structure Agree (env : Environment ι ρ σ) (t : Token) (steps undisturbed : List (Step ρ σ)) :
    Prop where
  passed : ∀ s ∈ steps, ¬ s.CalledOff env t
  same : undisturbed = steps.map (·.without t)

/-- The last step is called off, and those before it are undisturbed ones; that step would have come
next. -/
def Cut (env : Environment ι ρ σ) (t : Token) (steps undisturbed : List (Step ρ σ)) : Prop :=
  ∃ earlier last next rest, steps = earlier ++ [last] ∧ last.CalledOff env t ∧
    (∀ s ∈ earlier, ¬ s.CalledOff env t) ∧
    undisturbed = earlier.map (·.without t) ++ next :: rest ∧ next.deed = last.deed

section

variable {env : Environment ι ρ σ} {steps steps' more more' : List (Step ρ σ)}

theorem Agree.nil : Agree env t ([] : List (Step ρ σ)) [] :=
  ⟨fun _ h => absurd h List.not_mem_nil, rfl⟩

theorem Agree.append (h : Agree env t steps steps') (hm : Agree env t more more') :
    Agree env t (steps ++ more) (steps' ++ more') where
  passed := List.forall_mem_append.2 ⟨h.passed, hm.passed⟩
  same := by rw [h.same, hm.same, List.map_append]

theorem Agree.single {s : Step ρ σ} (h : ¬ s.CalledOff env t) : Agree env t [s] [s.without t] :=
  ⟨List.forall_mem_singleton.2 h, rfl⟩

theorem Agree.then_cut (h : Agree env t steps steps') (hm : Cut env t more more') :
    Cut env t (steps ++ more) (steps' ++ more') := by
  obtain ⟨earlier, last, next, rest, rfl, hlast, he, rfl, hdeed⟩ := hm
  refine ⟨steps ++ earlier, last, next, rest, (List.append_assoc ..).symm, hlast,
    List.forall_mem_append.2 ⟨h.passed, he⟩, ?_, hdeed⟩
  rw [h.same, List.map_append, List.append_assoc]

theorem Cut.append (h : Cut env t steps steps') (more : List (Step ρ σ)) :
    Cut env t steps (steps' ++ more) := by
  obtain ⟨earlier, last, next, rest, hs, hlast, he, rfl, hdeed⟩ := h
  exact ⟨earlier, last, next, rest ++ more, hs, hlast, he, by simp, hdeed⟩

theorem Cut.here {deed : Deed} {before after before' after' : World ρ σ}
    (h : Step.CalledOff env t ⟨deed, before, after⟩) (rest : List (Step ρ σ)) :
    Cut env t [⟨deed, before, after⟩] (⟨deed, before', after'⟩ :: rest) :=
  ⟨[], _, _, rest, rfl, h, fun _ hs => absurd hs List.not_mem_nil, rfl, rfl⟩

end

/-! ## Rows -/

theorem watching_without {db : Executor} (hdb : db.token? = some t) (env : Environment ι ρ σ)
    (w : World ρ σ) (i : Nat) : Script.watching (env.without t) db (w.without t) i = false := by
  rw [Script.watching, hdb, reading_without]
  simpa using World.not_mem_without _

theorem watching_iff {db : Executor} (hdb : db.token? = some t) {env : Environment ι ρ σ}
    {w : World ρ σ} {i : Nat} :
    Script.watching env db w i = true ↔ t ∈ (env.reading w (i + 1)).fired := by
  rw [Script.watching, hdb]
  exact List.contains_iff_mem

/-- The rows that are taken up are the undisturbed ones, or the token stops one of them. -/
theorem rowSteps_cases {db : Executor} (hdb : db.token? = some t) (env : Environment ι ρ σ)
    (w : World ρ σ) (i : Nat) (rows : List (Result Unit)) :
    let c := Script.watching env db w
    let c' := Script.watching (env.without t) db (w.without t)
    (Agree env t (Script.rowSteps env c w i rows)
        (Script.rowSteps (env.without t) c' (w.without t) i rows) ∧
      readRows c' i rows = readRows c i rows) ∨
    (Cut env t (Script.rowSteps env c w i rows)
        (Script.rowSteps (env.without t) c' (w.without t) i rows) ∧
      readRows c i rows = .error .cancelled) := by
  intro c c'
  induction rows generalizing i with
  | nil => exact .inl ⟨.nil, rfl⟩
  | cons row rows ih =>
    have hc' : c' i = false := watching_without hdb env w i
    simp only [Script.rowSteps, readRows_cons, hc', reading_without, reduceIte, Bool.false_eq_true]
    cases hc : c i with
    | true =>
      have stopped : Step.CalledOff env t
        { deed := .row i, before := env.reading w i, after := env.reading w (i + 1) } :=
        (watching_iff hdb).1 hc
      exact .inr ⟨.here stopped _, rfl⟩
    | false =>
      have passed : ¬ Step.CalledOff env t
          { deed := .row i, before := env.reading w i, after := env.reading w (i + 1) } := by
        intro hs
        exact absurd (hc.symm.trans ((watching_iff hdb).2 hs)) Bool.false_ne_true
      have single := Agree.single passed
      rcases row with e | u
      · exact .inl ⟨single, rfl⟩
      · rcases ih (i + 1) with ⟨agree, same⟩ | ⟨cut, cancelled⟩
        · exact .inl ⟨single.append agree, same⟩
        · exact .inr ⟨single.then_cut cut, cancelled⟩

/-! ## Scripts -/

namespace Script

variable (env : Environment ι ρ σ) (db : Executor) (t : Token) (p : Script S α) (w : World ρ σ)

/-- The token has stopped nothing: the run is the undisturbed one. -/
structure Unstopped : Prop where
  steps : Agree env t (p.steps env db w) (p.steps (env.without t) db (w.without t))
  outcome : (p.run (env.without t) db (w.without t)).1 = (p.run env db w).1
  after : (p.run (env.without t) db (w.without t)).2 = (p.run env db w).2.without t

/-- The token has stopped the run at a step that would have come next. -/
structure Stopped : Prop where
  steps : Cut env t (p.steps env db w) (p.steps (env.without t) db (w.without t))
  cancelled : (p.run env db w).1.1 = .error .cancelled

variable {env db t}

section

variable {w} {p q : Script S α} {v : World ρ σ} {first first' : List (Step ρ σ)}

/-- Steps that the token does not stop come before what the rest of the script comes to. -/
theorem settled_after (hf : Agree env t first first')
    (hs : p.steps env db w = first ++ q.steps env db v)
    (hr : p.run env db w = q.run env db v)
    (hs' : p.steps (env.without t) db (w.without t) =
      first' ++ q.steps (env.without t) db (v.without t))
    (hr' : p.run (env.without t) db (w.without t) = q.run (env.without t) db (v.without t))
    (h : Unstopped env db t q v ∨ Stopped env db t q v) :
    Unstopped env db t p w ∨ Stopped env db t p w := by
  refine h.imp (fun h => ⟨?_, ?_, ?_⟩) fun h => ⟨?_, ?_⟩
  · rw [hs, hs']
    exact hf.append h.steps
  · rw [hr, hr', h.outcome]
  · rw [hr, hr', h.after]
  · rw [hs, hs']
    exact hf.then_cut h.steps
  · rw [hr, h.cancelled]

end

theorem unstopped_or_stopped (hdb : db.token? = some t) :
    Unstopped env db t p w ∨ Stopped env db t p w := by
  induction p generalizing w with
  | done r s => exact .inl ⟨.nil, rfl, rfl⟩
  | report l next ih => exact settled_after .nil rfl rfl rfl rfl (ih _)
  | announce kind event next ih =>
    have hv := announce_without (t := t) env w kind event
    refine settled_after (Agree.single (s := ⟨.announce kind event, w, _⟩) id) rfl rfl ?_ ?_ (ih _)
    · rw [steps, hv]
      rfl
    · rw [run, hv]
  | request s kind sql args next ih =>
    have cases := sent_cases hdb env kind sql args (env.reporting sql args w)
    obtain ⟨rest, undisturbed⟩ :=
      steps_request (env.without t) db s kind sql args next (w.without t)
    rcases h : (sent env db kind sql args).run (env.reporting sql args w) with ⟨⟨r, _⟩, v⟩
    rcases h' : (sent (env.without t) db kind sql args).run
      ((env.reporting sql args w).without t) with ⟨⟨r', _⟩, v'⟩
    have stopped (hr : r = .error .cancelled) (hs : Step.CalledOff env t
        ⟨.request kind sql args, env.reporting sql args w, v⟩) :
        Stopped env db t (request s kind sql args next) w := by
      subst hr
      refine ⟨?_, ?_⟩
      · rw [(request_of_error h _ _).1, undisturbed]
        exact .here hs rest
      · rw [(request_of_error h _ _).2]
    rw [h, h'] at cases
    rcases cases with ⟨fired, refused⟩ | ⟨pending, cancelled⟩ | ⟨fresh, passed, hv, hr⟩
    · have refused : (⟨r, _⟩, v) = (Executor.Response.failed .cancelled, env.reporting sql args w) :=
        refused
      simp only [Executor.Response.failed, Prod.mk.injEq, Executor.Response.mk.injEq] at refused
      exact .inr (stopped refused.1.1 (.inl fired))
    · exact .inr (stopped cancelled (.inr pending))
    · have single : Agree env t [⟨.request kind sql args, env.reporting sql args w, v⟩] _ :=
        .single (not_or_intro fresh passed)
      have hv : v' = v.without t := hv
      have hr : r' = r := hr
      subst hv hr
      rcases r' with e | a
      · refine .inl ⟨?_, ?_, ?_⟩
        · rw [(request_of_error h _ _).1, (request_of_error h' _ _).1]
          exact single
        · rw [(request_of_error h _ _).2, (request_of_error h' _ _).2]
        · rw [(request_of_error h _ _).2, (request_of_error h' _ _).2]
      · exact settled_after single (request_of_ok h _ _).1 (request_of_ok h _ _).2
          (request_of_ok h' _ _).1 (request_of_ok h' _ _).2 (ih a v)
  | read s rows next ih =>
    obtain ⟨rest, undisturbed⟩ := steps_read (env.without t) db s rows next (w.without t)
    rcases rowSteps_cases hdb env w 0 rows with ⟨agree, same⟩ | ⟨cut, cancelled⟩
    · rcases h : readRows (watching env db w) 0 rows with e | u
      · have h' := same.trans h
        refine .inl ⟨?_, ?_, ?_⟩
        · rw [(read_of_error h _ _).1, (read_of_error h' _ _).1]
          exact agree
        · rw [(read_of_error h _ _).2, (read_of_error h' _ _).2]
        · rw [(read_of_error h _ _).2, (read_of_error h' _ _).2, reading_without]
      · have h' := same.trans h
        refine settled_after agree (read_of_ok h _ _).1 (read_of_ok h _ _).2 ?_ ?_ (ih _)
        · rw [(read_of_ok h' _ _).1, reading_without]
        · rw [(read_of_ok h' _ _).2, reading_without]
    · refine .inr ⟨?_, ?_⟩
      · rw [(read_of_error cancelled _ _).1, undisturbed]
        exact cut.append rest
      · rw [(read_of_error cancelled _ _).2]

end Script

end Orm
