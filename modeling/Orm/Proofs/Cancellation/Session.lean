import Orm.Proofs.Cancellation.Script
import Orm.Proofs.Script.Course
import Orm.Proofs.Script.Performs
import Orm.Proofs.Transaction

/-
Uses of a scope that a token watches, through the scope itself or through transactions on it: verbs,
calls, and the beginning and the end of transactions. Once the token has fired no use sends anything
more, whatever happens between them.
-/

namespace Orm

variable {S ι ρ σ α : Type} {t : Token}

/-! ## After the token has fired -/

/-- The statements that have been sent. -/
def World.requests (w : World ρ σ) : List (RequestKind × String × List Value) :=
  w.trace.filterMap fun
    | .request kind sql args => some (kind, sql, args)
    | .hook _ _ _ => none

/-- The database has noticed nothing, and the token has still fired. -/
structure Untouched (t : Token) (w v : World ρ σ) : Prop where
  outside : v.outside = w.outside
  transactions : v.transactions = w.transactions
  requests : v.requests = w.requests
  fired : t ∈ v.fired

theorem Untouched.refl {w : World ρ σ} (h : t ∈ w.fired) : Untouched t w w := ⟨rfl, rfl, rfl, h⟩

theorem Untouched.trans {w v u : World ρ σ} (h : Untouched t w v) (h' : Untouched t v u) :
    Untouched t w u :=
  ⟨h'.outside.trans h.outside, h'.transactions.trans h.transactions, h'.requests.trans h.requests,
    h'.fired⟩

theorem Quiet.untouched {w v : World ρ σ} (h : Quiet w v) (ht : t ∈ w.fired) : Untouched t w v :=
  ⟨h.outside, h.transactions, by rw [World.requests, World.requests, h.trace], h.fired ht⟩

section

variable {env : Environment ι ρ σ} {db : Executor} {w v : World ρ σ}

theorem announce_untouched (kind : HookKind) (event : WriteEvent) (ht : t ∈ w.fired) :
    Untouched t w (outcome (Executor.announce env kind event) w).2 := by
  refine ⟨rfl, rfl, ?_, List.mem_append_left _ ht⟩
  rw [World.requests, Executor.announce, outcome_modify]
  simp [World.requests]

theorem sent_of_fired (hdb : db.token? = some t) (ht : t ∈ w.fired) (env : Environment ι ρ σ)
    (kind : RequestKind) (sql : String) (args : List Value) :
    (Script.sent env db kind sql args).run w = (pure (.failed .cancelled, w) : Id _) := by
  rw [Script.sent, hdb, cancellable_run, observed_of_fired ht]

theorem Step.Made.untouched (hdb : db.token? = some t) {s : Step ρ σ} (h : s.Made env db)
    (ht : t ∈ s.before.fired) : Untouched t s.before s.after := by
  cases h with
  | announce kind event w => exact announce_untouched kind event ht
  | request kind sql args w =>
    dsimp only
    rw [sent_of_fired hdb ht]
    exact .refl ht
  | row i w => exact (Quiet.reading env w (Nat.le_succ i)).untouched ht

theorem Course.untouched (hdb : db.token? = some t) {steps : List (Step ρ σ)}
    (h : Course env db w steps v) (ht : t ∈ w.fired) : Untouched t w v := by
  induction h with
  | still hq => exact hq.untouched ht
  | step hq hm _ ih =>
    have before := hq.untouched ht
    have now := hm.untouched hdb before.fired
    exact (before.trans now).trans (ih now.fired)

end

/-! ## Calls -/

/-- No transaction between the executor and the scope has ended. -/
def Executor.Live (w : World ρ σ) : Executor → Prop
  | connection => True
  | transaction id inner => w.transactions[id]? = some .active ∧ inner.Live w
  | watched _ _ => True

section

variable {db : Executor} {w : World ρ σ}

/-- A call through a scope whose token has fired does nothing. It is called off unless a transaction
that it goes through has ended. -/
theorem call_of_fired (hdb : db.token? = some t) (ht : t ∈ w.fired) (env : Environment ι ρ σ)
    (kind : RequestKind) (sql : String) (args : List Value) :
    ∃ e, outcome (db.call env kind sql args) w = (.error e, w) ∧ (db.Live w → e = .cancelled) := by
  suffices ∃ e, (db.request env kind sql args).run w = (pure (.failed e, w) : Id _) ∧
      (db.Live w → e = .cancelled) by
    obtain ⟨e, h, he⟩ := this
    refine ⟨e, ?_, he⟩
    rw [Executor.outcome_call, h]
    rfl
  induction db with
  | connection => cases hdb
  | transaction id inner ih =>
    simp only [Executor.request, StateT.run_bind, StateT.run_get, pure_bind]
    split
    next h =>
      obtain ⟨e, hr, live⟩ := ih hdb
      exact ⟨e, hr, fun hl => live hl.2⟩
    next state hs h =>
      exact ⟨_, rfl, fun hl => absurd (Option.some.inj (h.symm.trans hl.1)) hs⟩
    next h =>
      refine ⟨_, rfl, fun hl => ?_⟩
      cases h.symm.trans hl.1
  | watched u inner ih =>
    cases hdb
    refine ⟨_, ?_, fun _ => rfl⟩
    rw [Executor.request, cancellable_run, observed_of_fired ht]

theorem request_of_pending (hdb : db.token? = some t) (ht : t ∉ w.fired)
    (env : Environment ι ρ σ) (kind : RequestKind) (sql : String) (args : List Value)
    (hp : ((db.request env kind sql args).run w).1.waiting = true ∧
      t ∈ ((db.request env kind sql args).run w).2.fired) :
    ((db.request env kind sql args).run w).1.result = .error .cancelled := by
  induction db with
  | connection => cases hdb
  | transaction id inner ih =>
    simp only [Executor.request, StateT.run_bind, StateT.run_get, pure_bind] at hp ⊢
    split at hp
    · exact ih hdb hp
    · cases hp.1
    · cases hp.1
  | watched u inner ih =>
    cases hdb
    rw [Executor.request, cancellable_run] at hp ⊢
    generalize (inner.request env kind sql args).run w = r at hp
    change (observed t w r).1.waiting = true ∧ t ∈ (observed t w r).2.fired at hp
    change (observed t w r).1.result = _
    by_cases hr : r.1.waiting = true ∧ t ∈ r.2.fired
    · rw [observed_of_pending ht hr]
    · rw [observed_of_not_pending ht hr] at hp
      exact absurd hp hr

/-- A call before the token has fired is called off if it is on its way when the token fires, and is
otherwise what it would have been without the token. -/
theorem call_cases (hdb : db.token? = some t) (ht : t ∉ w.fired) (env : Environment ι ρ σ)
    (kind : RequestKind) (sql : String) (args : List Value) :
    (Pending env t kind sql args w (outcome (db.call env kind sql args) w).2 ∧
      (outcome (db.call env kind sql args) w).1 = .error .cancelled) ∨
    (¬ Pending env t kind sql args w (outcome (db.call env kind sql args) w).2 ∧
      outcome (db.call (env.without t) kind sql args) (w.without t) =
        ((outcome (db.call env kind sql args) w).1,
          (outcome (db.call env kind sql args) w).2.without t)) := by
  have same := request_undisturbed env kind sql args db ht
  have pending := pending_iff (t := t) env w kind sql args db
  have called := request_of_pending hdb ht env kind sql args
  rw [Executor.outcome_call, Executor.outcome_call]
  by_cases hp : ((db.request env kind sql args).run w).1.waiting = true ∧
      t ∈ ((db.request env kind sql args).run w).2.fired
  · exact .inl ⟨pending.2 hp, called hp⟩
  · refine .inr ⟨fun h => hp (pending.1 h), Prod.ext ?_ same.after⟩
    exact (same.result.resolve_right fun h => hp ⟨h.1, h.2.1⟩).symm

end

/-! ## Uses -/

/-- What may be done through an executor. -/
inductive Use (ι : Type) where
  | verb (db : Executor) (v : Verb ι)
  | call (db : Executor) (kind : RequestKind) (sql : String) (args : List Value)
  | start (db : Executor)
  | commit (id : Nat) (inner : Executor)
  | rollback (id : Nat) (inner : Executor)

namespace Use

def executor : Use ι → Executor
  | verb db _ | call db _ _ _ | start db => db
  | commit id inner | rollback id inner => .transaction id inner

variable [DecidableEq ι]

/-- The error that the use gives, if it gives one, and the world after it. -/
def made (env : Environment ι ρ σ) (w : World ρ σ) : Use ι → Option Error × World ρ σ
  | verb db v => ofResult ((v.perform env db).run w).1.1 ((v.perform env db).run w).2
  | call db kind sql args =>
    ofResult (outcome (db.call env kind sql args) w).1 (outcome (db.call env kind sql args) w).2
  | start db =>
    ofResult (outcome (Transaction.start env db) w).1 (outcome (Transaction.start env db) w).2
  | commit id inner =>
    ofResult (outcome (Transaction.commit env id inner) w).1
      (outcome (Transaction.commit env id inner) w).2
  | rollback id inner =>
    ofResult (outcome (Transaction.rollback env id inner) w).1
      (outcome (Transaction.rollback env id inner) w).2
where
  ofResult {α : Type} (r : Result α) (w : World ρ σ) : Option Error × World ρ σ :=
    (match r with
      | .ok _ => none
      | .error e => some e, w)

end Use

theorem finish_of_fired {id : Nat} {inner : Executor} {w : World ρ σ}
    (hdb : inner.token? = some t) (ht : t ∈ w.fired) (env : Environment ι ρ σ) (sql : String)
    (next : TransactionState) :
    ∃ e, outcome (Transaction.finish env id inner sql next) w = (.error e, w) ∧
      ((Executor.transaction id inner).Live w → e = .cancelled) := by
  rcases h : w.transactions[id]? with _ | state
  · rw [Transaction.finish, outcome_bind, outcome_get]
    simp only [h]
    refine ⟨_, rfl, fun hl => ?_⟩
    cases h.symm.trans hl.1
  · by_cases hs : state = .active
    · obtain ⟨e, he, live⟩ := call_of_fired hdb ht env .execute sql []
      exact ⟨e, Transaction.outcome_finish_error (hs ▸ h) he next, fun hl => live hl.2⟩
    · obtain ⟨why, he⟩ := Transaction.outcome_finish_ended h hs sql next
      exact ⟨_, he, fun hl => absurd (Option.some.inj (h.symm.trans hl.1)) hs⟩

/-- Every use but a verb fails once the token of its scope has fired, and changes nothing. -/
theorem Use.made_of_fired [DecidableEq ι] {u : Use ι} (hu : u.executor.token? = some t)
    {w : World ρ σ} (ht : t ∈ w.fired) (env : Environment ι ρ σ)
    (hv : ∀ db v, u ≠ .verb db v) :
    ∃ e, u.made env w = (some e, w) ∧ (u.executor.Live w → e = .cancelled) := by
  cases u with
  | verb db v => exact absurd rfl (hv db v)
  | call db kind sql args =>
    have hu : db.token? = some t := hu
    obtain ⟨e, h, live⟩ := call_of_fired hu ht env kind sql args
    refine ⟨e, ?_, live⟩
    rw [made, h, made.ofResult]
  | start db =>
    have hu : db.token? = some t := hu
    obtain ⟨e, h, live⟩ := call_of_fired hu ht env .execute "BEGIN" []
    have hs : outcome (Transaction.start env db) w = (.error e, w) := by
      rw [Transaction.start, outcome_bind, h]
    refine ⟨e, ?_, live⟩
    rw [made, hs, made.ofResult]
  | commit id inner =>
    have hu : inner.token? = some t := hu
    obtain ⟨e, h, live⟩ := finish_of_fired hu ht env "COMMIT" .committed
    refine ⟨e, ?_, live⟩
    rw [made, Transaction.commit, h, made.ofResult]
  | rollback id inner =>
    have hu : inner.token? = some t := hu
    obtain ⟨e, h, live⟩ := finish_of_fired hu ht env "ROLLBACK" .rolledBack
    refine ⟨e, ?_, live⟩
    rw [made, Transaction.rollback, h, made.ofResult]

/-- No use of a scope whose token has fired sends anything. -/
theorem Use.made_untouched [DecidableEq ι] {u : Use ι} (hu : u.executor.token? = some t)
    {w : World ρ σ} (ht : t ∈ w.fired) (env : Environment ι ρ σ) :
    Untouched t w (u.made env w).2 := by
  by_cases hv : ∃ db v, u = .verb db v
  · obtain ⟨db, v, rfl⟩ := hv
    change Untouched t w ((v.perform env db).run w).2
    rw [← Verb.script_run]
    exact (Script.course env db (v.script env) w).untouched hu ht
  · obtain ⟨e, h, -⟩ := made_of_fired hu ht env fun db v he => hv ⟨db, v, he⟩
    rw [h]
    exact .refl ht

/-! ## Sessions -/

section

variable [DecidableEq ι] {env : Environment ι ρ σ}

/-- The uses that are made of the scope of a token, each with the world before it. What happens
elsewhere between them is no matter; a token that has fired stays so. -/
inductive Session (env : Environment ι ρ σ) (t : Token) :
    World ρ σ → List (Use ι × World ρ σ) → World ρ σ → Prop
  | done (w : World ρ σ) : Session env t w [] w
  | use {w last : World ρ σ} {u : Use ι} {uses : List (Use ι × World ρ σ)} :
    u.executor.token? = some t → Session env t (u.made env w).2 uses last →
    Session env t w ((u, w) :: uses) last
  | elsewhere {w v last : World ρ σ} {uses : List (Use ι × World ρ σ)} : w.fired ⊆ v.fired →
    Session env t v uses last → Session env t w uses last

theorem Session.fired {w last : World ρ σ} {uses : List (Use ι × World ρ σ)}
    (h : Session env t w uses last) (ht : t ∈ w.fired) :
    ∀ u ∈ uses, t ∈ u.2.fired := by
  induction h with
  | done w => exact fun _ hu => absurd hu List.not_mem_nil
  | use hu _ ih =>
    exact List.forall_mem_cons.2 ⟨ht, ih (Use.made_untouched hu ht env).fired⟩
  | elsewhere he _ ih => exact ih (he ht)

theorem Session.watched {w last : World ρ σ} {uses : List (Use ι × World ρ σ)}
    (h : Session env t w uses last) : ∀ u ∈ uses, u.1.executor.token? = some t := by
  induction h with
  | done w => exact fun _ hu => absurd hu List.not_mem_nil
  | use hu _ ih => exact List.forall_mem_cons.2 ⟨hu, ih⟩
  | elsewhere _ _ ih => exact ih

/-- What has fired after one use has fired before every later one. -/
theorem Session.inTime {w last : World ρ σ} {uses : List (Use ι × World ρ σ)}
    (h : Session env t w uses last) :
    uses.Pairwise fun u u' => t ∈ (u.1.made env u.2).2.fired → t ∈ u'.2.fired := by
  induction h with
  | done w => exact .nil
  | use _ hr ih => exact .cons (fun u' hu' ht => hr.fired ht u' hu') ih
  | elsewhere _ _ ih => exact ih

end

end Orm
