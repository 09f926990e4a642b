import Orm.Proofs.Outcome
import Orm.Transaction

/-
The life of a transaction.

A history is what happens to one transaction from its BEGIN on: calls on it, one at a time, and
between them anything else that leaves its state alone. While it is active, a call is what the
executor below makes of its statement, and only a COMMIT or a ROLLBACK that succeeds there ends it.
Once it has ended, a call changes nothing at all. So a history has at most one call that ends the
transaction, and everything after that call is refused.
-/

namespace Orm

variable {ι ρ σ : Type}

/-! ## Requests -/

namespace Executor

theorem cancellable_transactions {α : Type} (token : Option Token)
    {request : StateM (World ρ σ) (Response α)} {w : World ρ σ}
    (h : (request.run w).2.transactions = w.transactions) :
    ((cancellable token request).run w).2.transactions = w.transactions := by
  cases token with
  | none => exact h
  | some token =>
    simp only [cancellable, StateT.run_bind, StateT.run_get, pure_bind]
    split
    · rfl
    · simp only [StateT.run_bind, StateT.run_get, pure_bind]
      generalize request.run w = answered at h
      change (StateT.run (m := Id) (ite _ _ _) answered.2 : _ × World ρ σ).2.transactions = _
      split <;> exact h

/-- A request ends no transaction and begins none. -/
theorem request_transactions (env : Environment ι ρ σ) (k : RequestKind) (sql : String)
    (args : List Value) (db : Executor) (w : World ρ σ) :
    ((db.request env k sql args).run w).2.transactions = w.transactions := by
  induction db with
  | connection => rfl
  | transaction id inner ih =>
    simp only [request, StateT.run_bind, StateT.run_get, pure_bind]
    split
    · exact ih
    · rfl
    · rfl
  | watched token inner ih => exact cancellable_transactions (some token) ih

theorem outcome_call (env : Environment ι ρ σ) (db : Executor) (k : RequestKind) (sql : String)
    (args : List Value) (w : World ρ σ) :
    outcome (db.call env k sql args) w =
      (((db.request env k sql args).run w).1.result, ((db.request env k sql args).run w).2) :=
  rfl

theorem call_transactions (env : Environment ι ρ σ) (k : RequestKind) (sql : String)
    (args : List Value) (db : Executor) (w : World ρ σ) :
    (outcome (db.call env k sql args) w).2.transactions = w.transactions :=
  request_transactions env k sql args db w

end Executor

namespace Transaction

/-! ## Calls -/

/-- What may be asked of a transaction. -/
inductive Operation where
  | commit
  | rollback
  | request (kind : RequestKind) (sql : String) (args : List Value)

namespace Operation

def Reply : Operation → Type
  | commit | rollback => Unit
  | request kind _ _ => kind.Reply

/-- The kind of the request that the executor below gets. -/
def kind : Operation → RequestKind
  | commit | rollback => .execute
  | request kind _ _ => kind

def sql : Operation → String
  | commit => "COMMIT"
  | rollback => "ROLLBACK"
  | request _ sql _ => sql

def args : Operation → List Value
  | commit | rollback => []
  | request _ _ args => args

/-- What the caller gets of the answer. -/
def reply : (o : Operation) → o.kind.Reply → o.Reply
  | commit, _ | rollback, _ => ()
  | request _ _ _, a => a

/-- The state that it is there to reach. -/
def ends : Operation → Option TransactionState
  | commit => some .committed
  | rollback => some .rolledBack
  | request _ _ _ => none

/-- The operation on the transaction `id`, which runs on `inner`. -/
def perform (env : Environment ι ρ σ) (id : Nat) (inner : Executor) :
    (o : Operation) → Effect ρ σ o.Reply
  | commit => Transaction.commit env id inner
  | rollback => Transaction.rollback env id inner
  | request kind sql args => (Executor.transaction id inner).call env kind sql args

end Operation

/-- A call that was made, with the world before and after it. -/
structure Call (ρ σ : Type) where
  operation : Operation
  before : World ρ σ
  result : Result operation.Reply
  after : World ρ σ

namespace Call

def Made (env : Environment ι ρ σ) (id : Nat) (inner : Executor) (c : Call ρ σ) : Prop :=
  outcome (c.operation.perform env id inner) c.before = (c.result, c.after)

/-- The executor below was handed the call's statement and nothing else, and its answer is the
call's. -/
def Passed (env : Environment ι ρ σ) (inner : Executor) (c : Call ρ σ) : Prop :=
  ∃ answer t,
    outcome (inner.call env c.operation.kind c.operation.sql c.operation.args) c.before =
      (answer, t) ∧
    c.result = answer.map c.operation.reply ∧
    c.after.outside = t.outside ∧ c.after.fired = t.fired ∧ c.after.trace = t.trace

/-- The call was let pass and left the transaction active. -/
structure Open (env : Environment ι ρ σ) (id : Nat) (inner : Executor) (c : Call ρ σ) : Prop where
  before_active : c.before.transactions[id]? = some .active
  passed : c.Passed env inner
  after_active : c.after.transactions[id]? = some .active
  /-- A COMMIT or a ROLLBACK that leaves it active has failed. -/
  fails : c.operation.ends ≠ none → ∃ e, c.result = .error e

/-- The call was a COMMIT or a ROLLBACK that succeeded. -/
structure Ending (env : Environment ι ρ σ) (id : Nat) (inner : Executor)
    (next : TransactionState) (c : Call ρ σ) : Prop where
  before_active : c.before.transactions[id]? = some .active
  passed : c.Passed env inner
  ends : c.operation.ends = some next
  succeeds : ∃ a, c.result = .ok a
  after_next : c.after.transactions[id]? = some next

/-- The call came too late: nothing was sent and nothing has changed. -/
structure Refused (id : Nat) (state : TransactionState) (c : Call ρ σ) : Prop where
  before_state : c.before.transactions[id]? = some state
  refused : ∃ why, c.result = .error (.noTransaction why)
  unchanged : c.after = c.before

end Call

/-! ## One call -/

section Steps

variable {env : Environment ι ρ σ} {id : Nat} {inner : Executor} {w : World ρ σ}

theorem outcome_finish_error (h : w.transactions[id]? = some .active) {sql : String} {e : Error}
    {t : World ρ σ} (hx : outcome (inner.call env .execute sql []) w = (.error e, t))
    (next : TransactionState) : outcome (finish env id inner sql next) w = (.error e, t) := by
  rw [finish, outcome_bind, outcome_get]
  simp only [h, outcome_bind, hx]

theorem outcome_finish_ok (h : w.transactions[id]? = some .active) {sql : String} {n : Nat}
    {t : World ρ σ} (hx : outcome (inner.call env .execute sql []) w = (.ok n, t))
    (next : TransactionState) : outcome (finish env id inner sql next) w =
      (.ok (), { t with
        transactions := t.transactions.set id next
        log := t.log ++ event .info "transaction finished"
          [("driver", .text env.driver), ("state", .text next.label)] }) := by
  rw [finish, outcome_bind, outcome_get]
  simp only [h, outcome_bind, hx]
  rfl

theorem outcome_finish_ended {state : TransactionState} (h : w.transactions[id]? = some state)
    (hs : state ≠ .active) (sql : String) (next : TransactionState) :
    ∃ why, outcome (finish env id inner sql next) w = (.error (.noTransaction why), w) := by
  rw [finish, outcome_bind, outcome_get]
  simp only [h]
  cases state with
  | active => exact absurd rfl hs
  | committed => exact ⟨_, rfl⟩
  | rolledBack => exact ⟨_, rfl⟩

theorem outcome_call_active (h : w.transactions[id]? = some .active) (k : RequestKind)
    (sql : String) (args : List Value) :
    outcome ((Executor.transaction id inner).call env k sql args) w =
      outcome (inner.call env k sql args) w := by
  have hr : ((Executor.transaction id inner).request env k sql args).run w =
      (inner.request env k sql args).run w := by
    simp only [Executor.request, StateT.run_bind, StateT.run_get, pure_bind, h]
  rw [Executor.outcome_call, Executor.outcome_call, hr]

theorem outcome_call_ended {state : TransactionState} (h : w.transactions[id]? = some state)
    (hs : state ≠ .active) (k : RequestKind) (sql : String) (args : List Value) :
    outcome ((Executor.transaction id inner).call env k sql args) w =
      (.error (Executor.inactive state), w) := by
  have hr : ((Executor.transaction id inner).request env k sql args).run w =
      (pure (.failed (Executor.inactive state), w) : Id _) := by
    simp only [Executor.request, StateT.run_bind, StateT.run_get, pure_bind, h]
    cases state with
    | active => exact absurd rfl hs
    | committed => rfl
    | rolledBack => rfl
  rw [Executor.outcome_call, hr]
  rfl

/-- The world that an operation leaves once the executor below has answered in `t`. -/
def Operation.close (env : Environment ι ρ σ) (id : Nat) (o : Operation) (t : World ρ σ) :
    World ρ σ :=
  match o.ends with
  | none => t
  | some next => { t with
      transactions := t.transactions.set id next
      log := t.log ++ event .info "transaction finished"
        [("driver", .text env.driver), ("state", .text next.label)] }

/-- What the executor below fails to do, the operation fails to do. -/
theorem Operation.outcome_perform_error (h : w.transactions[id]? = some .active) {o : Operation}
    {e : Error} {t : World ρ σ}
    (hx : outcome (inner.call env o.kind o.sql o.args) w = (.error e, t)) :
    outcome (o.perform env id inner) w = (.error e, t) := by
  cases o with
  | commit => exact outcome_finish_error h hx _
  | rollback => exact outcome_finish_error h hx _
  | request kind sql args => exact (outcome_call_active h kind sql args).trans hx

theorem Operation.outcome_perform_ok (h : w.transactions[id]? = some .active) {o : Operation}
    {a : o.kind.Reply} {t : World ρ σ}
    (hx : outcome (inner.call env o.kind o.sql o.args) w = (.ok a, t)) :
    outcome (o.perform env id inner) w = (.ok (o.reply a), o.close env id t) := by
  cases o with
  | commit => exact outcome_finish_ok h hx _
  | rollback => exact outcome_finish_ok h hx _
  | request kind sql args => exact (outcome_call_active h kind sql args).trans hx

/-- Once it has ended, an operation fails and does nothing. -/
theorem Operation.outcome_perform_ended {state : TransactionState}
    (h : w.transactions[id]? = some state) (hs : state ≠ .active) (o : Operation) :
    ∃ why, outcome (o.perform env id inner) w = (.error (.noTransaction why), w) := by
  cases o with
  | commit => exact outcome_finish_ended h hs _ _
  | rollback => exact outcome_finish_ended h hs _ _
  | request kind sql args => exact ⟨_, outcome_call_ended h hs kind sql args⟩

/-- An operation on one transaction leaves the states of all others. -/
theorem Operation.perform_transactions_of_ne {other : Nat} (hne : other ≠ id) (o : Operation) :
    (outcome (o.perform env id inner) w).2.transactions[other]? = w.transactions[other]? := by
  have finished (sql : String) (next : TransactionState) :
      (outcome (finish env id inner sql next) w).2.transactions[other]? =
        w.transactions[other]? := by
    have ht := Executor.call_transactions env .execute sql [] inner w
    rcases hw : w.transactions[id]? with _ | state
    · rw [finish, outcome_bind, outcome_get]
      simp only [hw, outcome_throw]
    by_cases hs : state = .active
    · rcases hx : outcome (inner.call env .execute sql []) w with ⟨_ | n, t⟩
      · rw [outcome_finish_error (hs ▸ hw) hx, ← ht, hx]
      · rw [outcome_finish_ok (hs ▸ hw) hx, ← ht, hx]
        exact List.getElem?_set_ne hne.symm
    · obtain ⟨why, h⟩ : ∃ why, outcome (finish env id inner sql next) w =
          (.error (.noTransaction why), w) := outcome_finish_ended hw hs sql next
      rw [h]
  cases o with
  | commit => exact finished "COMMIT" .committed
  | rollback => exact finished "ROLLBACK" .rolledBack
  | request kind sql args =>
    exact congrArg (·[other]?) (Executor.call_transactions env kind sql args _ w)

end Steps

namespace Call

variable {env : Environment ι ρ σ} {id : Nat} {inner : Executor} {c : Call ρ σ}

theorem Made.open_or_ending (hc : c.Made env id inner)
    (h : c.before.transactions[id]? = some .active) :
    c.Open env id inner ∨ ∃ next, c.Ending env id inner next := by
  unfold Made at hc
  have ht := Executor.call_transactions env c.operation.kind c.operation.sql c.operation.args
    inner c.before
  rcases hx : outcome (inner.call env c.operation.kind c.operation.sql c.operation.args) c.before
    with ⟨e | a, t⟩
  · rw [Operation.outcome_perform_error h hx] at hc
    obtain ⟨hr, ha⟩ := Prod.mk.inj hc
    refine .inl { before_active := h, passed := ?_, after_active := ?_, fails := ?_ }
    · exact ⟨_, t, hx, hr.symm, by rw [← ha], by rw [← ha], by rw [← ha]⟩
    · rw [← ha, ← h, ← ht, hx]
    · exact fun _ => ⟨e, hr.symm⟩
  · rw [Operation.outcome_perform_ok h hx] at hc
    obtain ⟨hr, ha⟩ := Prod.mk.inj hc
    have active : t.transactions[id]? = some .active := by rw [← h, ← ht, hx]
    have passed : c.Passed env inner := by
      refine ⟨_, t, hx, hr.symm, ?_⟩
      rw [← ha, Operation.close]
      split <;> exact ⟨rfl, rfl, rfl⟩
    rcases he : c.operation.ends with _ | next
    · refine .inl { before_active := h, passed, after_active := ?_, fails := ?_ }
      · rw [← ha, Operation.close, he, ← active]
      · exact fun hn => absurd he hn
    · refine .inr ⟨next, { before_active := h, passed, ends := he, succeeds := ⟨_, hr.symm⟩,
                           after_next := ?_ }⟩
      rw [← ha, Operation.close, he]
      exact List.getElem?_set_self (List.getElem?_eq_some_iff.1 active).1

theorem Made.refused (hc : c.Made env id inner) {state : TransactionState}
    (h : c.before.transactions[id]? = some state) (hs : state ≠ .active) :
    c.Refused id state := by
  obtain ⟨why, hx⟩ : ∃ why, outcome (c.operation.perform env id inner) c.before =
      (.error (.noTransaction why), c.before) := Operation.outcome_perform_ended h hs c.operation
  unfold Made at hc
  rw [hx] at hc
  obtain ⟨hr, ha⟩ := Prod.mk.inj hc
  exact ⟨h, ⟨why, hr.symm⟩, ha.symm⟩

end Call

/-! ## Histories -/

/-- The calls made on the transaction `id` from one world to another. What happens elsewhere is no
matter as long as it leaves the transaction's state. -/
inductive History (env : Environment ι ρ σ) (id : Nat) (inner : Executor) :
    World ρ σ → List (Call ρ σ) → World ρ σ → Prop
  | done (w : World ρ σ) : History env id inner w [] w
  | call {c : Call ρ σ} {calls : List (Call ρ σ)} {last : World ρ σ} :
    c.Made env id inner → History env id inner c.after calls last →
    History env id inner c.before (c :: calls) last
  | elsewhere {w v last : World ρ σ} {calls : List (Call ρ σ)} :
    v.transactions[id]? = w.transactions[id]? → History env id inner v calls last →
    History env id inner w calls last

/-- All calls leave the transaction active, or one of them ends it and all after it are refused. -/
def Lifecycle (env : Environment ι ρ σ) (id : Nat) (inner : Executor) (calls : List (Call ρ σ))
    (last : World ρ σ) : Prop :=
  ((∀ c ∈ calls, c.Open env id inner) ∧ last.transactions[id]? = some .active) ∨
  ∃ earlier c later next, calls = earlier ++ c :: later ∧
    (∀ e ∈ earlier, Call.Open env id inner e) ∧ c.Ending env id inner next ∧
    (∀ l ∈ later, Call.Refused id next l) ∧ last.transactions[id]? = some next

namespace History

variable {env : Environment ι ρ σ} {id : Nat} {inner : Executor} {w last : World ρ σ}
  {calls : List (Call ρ σ)}

theorem refused (h : History env id inner w calls last) {state : TransactionState}
    (hw : w.transactions[id]? = some state) (hs : state ≠ .active) :
    (∀ c ∈ calls, c.Refused id state) ∧ last.transactions[id]? = some state := by
  induction h with
  | done w => exact ⟨fun c hc => absurd hc List.not_mem_nil, hw⟩
  | @call c calls last hc _ ih =>
    have now := hc.refused hw hs
    obtain ⟨rest, final⟩ := ih (now.unchanged ▸ hw)
    exact ⟨List.forall_mem_cons.2 ⟨now, rest⟩, final⟩
  | elsewhere he _ ih => exact ih (he ▸ hw)

theorem lifecycle (h : History env id inner w calls last)
    (hw : w.transactions[id]? = some .active) : Lifecycle env id inner calls last := by
  -- calls that leave it active hand over to the rest; after the one that ends it all are refused
  induction h with
  | done w => exact .inl ⟨fun c hc => absurd hc List.not_mem_nil, hw⟩
  | @call c calls last hc rest ih =>
    rcases hc.open_or_ending hw with now | ⟨next, now⟩
    · rcases ih now.after_active with ⟨all, final⟩ | ⟨earlier, e, later, next, rfl, he, hend⟩
      · exact .inl ⟨List.forall_mem_cons.2 ⟨now, all⟩, final⟩
      · exact .inr ⟨c :: earlier, e, later, next, rfl, List.forall_mem_cons.2 ⟨now, he⟩, hend⟩
    · have ended : next ≠ .active := by
        rintro rfl
        have := now.ends
        cases ho : c.operation <;> simp [ho, Operation.ends] at this
      obtain ⟨later, final⟩ := rest.refused now.after_next ended
      exact .inr ⟨[], c, calls, next, rfl, fun e he => absurd he List.not_mem_nil, now, later,
        final⟩
  | elsewhere he _ ih => exact ih (he ▸ hw)

end History

/-- A call that is made in a world, with what comes of it. -/
def Call.make (env : Environment ι ρ σ) (id : Nat) (inner : Executor) (w : World ρ σ)
    (o : Operation) : Call ρ σ where
  operation := o
  before := w
  result := (outcome (o.perform env id inner) w).1
  after := (outcome (o.perform env id inner) w).2

/-- The operations one after the other: the calls made and the world after them. -/
def perform (env : Environment ι ρ σ) (id : Nat) (inner : Executor) :
    World ρ σ → List Operation → List (Call ρ σ) × World ρ σ
  | w, [] => ([], w)
  | w, o :: operations =>
    let c := Call.make env id inner w o
    let rest := perform env id inner c.after operations
    (c :: rest.1, rest.2)

/-- Operations may be performed in any order. -/
theorem History.perform (env : Environment ι ρ σ) (id : Nat) (inner : Executor) (w : World ρ σ)
    (operations : List Operation) :
    History env id inner w (Transaction.perform env id inner w operations).1
      (Transaction.perform env id inner w operations).2 := by
  induction operations generalizing w with
  | nil => exact .done w
  | cons o operations ih => exact .call (c := Call.make env id inner w o) rfl (ih _)

theorem start_yields {env : Environment ι ρ σ} {db tx : Executor} {w₀ w : World ρ σ}
    (h : Yields (start env db) w₀ tx w) :
    tx = .transaction w₀.transactions.length db ∧
      w.transactions = w₀.transactions ++ [.active] := by
  simp only [start, Effect.report, Yields.bind_iff, Yields.modify_iff, Yields.get_iff,
    Yields.pure_iff] at h
  obtain ⟨_, t, hb, _, _, rfl, _, _, ⟨rfl, rfl⟩, _, _, rfl, rfl, rfl⟩ := h
  have ht : t.transactions = w₀.transactions := by
    rw [← Executor.call_transactions env .execute "BEGIN" [] db w₀, hb]
  exact ⟨by rw [← ht], by rw [← ht]⟩

/-- A transaction that has begun is active, and whatever is asked of it from then on, in whatever
order and however the executor answers: its state changes at most once, by a COMMIT or a ROLLBACK
that succeeded, and it stays as it is from then on. -/
theorem start_lifecycle {env : Environment ι ρ σ} {db tx : Executor} {w₀ w : World ρ σ}
    (h : Yields (start env db) w₀ tx w) :
    ∃ id, tx = .transaction id db ∧ w.transactions[id]? = some .active ∧
      ∀ calls last, History env id db w calls last → Lifecycle env id db calls last := by
  obtain ⟨htx, hw⟩ := start_yields h
  have active : w.transactions[w₀.transactions.length]? = some .active := by
    rw [hw, List.getElem?_concat_length]
  exact ⟨_, htx, active, fun calls last hist => hist.lifecycle active⟩

/-- A database that answers by a script: whether each statement succeeds. -/
def scripted : Environment Empty Empty (List Bool) where
  schema := nofun
  driver := "sqlite"
  dialect := .sqlite
  answer
    | .execute, _, _, true :: script => ({ result := .ok (0 : Nat) }, script)
    | .query, _, _, true :: script => ({ result := .ok [] }, script)
    | .insert, _, _, true :: script => ({ result := .ok (.int 1) }, script)
    | _, _, _, script => ({ result := .error (.driver "database is locked") }, script.tail)
  react := nofun
  receiverFires := nofun
  rowFires _ _ := []

/-- A COMMIT fails, a query passes, the next COMMIT ends the transaction and a ROLLBACK is refused
although the database would have accepted it. -/
theorem start_lifecycle_scripted :
    ∃ w, Yields (start scripted .connection)
        ⟨[true, false, true, true, true], [], [], .none, [], []⟩ (.transaction 0 .connection) w ∧
      ∃ calls last, calls.map Call.operation =
          [.commit, .request .query "SELECT 1" [], .commit, .rollback] ∧
        Lifecycle scripted 0 .connection calls last ∧
        last.transactions = [.committed] ∧ last.outside = [true] := by
  have begun : Yields (start scripted .connection)
      ⟨[true, false, true, true, true], [], [], .none, [], []⟩ (.transaction 0 .connection) _ := rfl
  refine ⟨_, begun, ?_⟩
  obtain ⟨id, htx, -, life⟩ := start_lifecycle begun
  cases htx
  exact ⟨_, _, rfl, life _ _ (History.perform scripted 0 .connection _
    [.commit, .request .query "SELECT 1" [], .commit, .rollback]), rfl, rfl⟩

end Transaction

end Orm
