import Orm.Proofs.Cancellation.Session
import Orm.Proofs.Hooks.Final
import Orm.Proofs.Insertion.Answer
import Orm.Proofs.Presence.Row

/-
Insertions that fail. Whatever the database answers, an insertion fails for one of two reasons: a column
of the instance cannot be read, or the row would have to be selected again and cannot be named
(`refuses_iff`). The first is known before anything is sent, the second only after the INSERT. Any other
failure leaves the instance as it was, unless values that the database brought back are being written to
it: those before the one that fails stay (`createInstance_fails`).
-/

namespace Orm

variable {ι ρ σ : Type}

/-! ## Statements that are answered -/

section

variable {env : Environment ι ρ σ} {db : Executor} {kind : RequestKind} {sql : String}
  {args : List Value} {w : World ρ σ}

/-- What a token lets through has been answered. -/
theorem observed_ok {α : Type} {u : Token} {r : Executor.Response α × World ρ σ} {a : α}
    (h : (observed u w r).1.result = .ok a) : observed u w r = r := by
  by_cases hfired : u ∈ w.fired
  · rw [observed_of_fired hfired] at h
    cases h
  · by_cases hpending : r.1.waiting = true ∧ u ∈ r.2.fired
    · rw [observed_of_pending hfired hpending] at h
      cases h
    · exact observed_of_not_pending hfired hpending

/-- A request that succeeds has been answered by the database. -/
theorem request_ok {a : kind.Reply} (h : ((db.request env kind sql args).run w).1.result = .ok a) :
    ((db.request env kind sql args).run w).2 = env.answered w kind sql args := by
  induction db with
  | connection => rfl
  | transaction id inner ih =>
    simp only [Executor.request, StateT.run_bind, StateT.run_get, pure_bind] at h ⊢
    split at h
    case h_1 => exact ih h
    case h_2 => cases h
    case h_3 => cases h
  | watched u inner ih =>
    rw [Executor.request, cancellable_run] at h ⊢
    have hsame := observed_ok h
    change (observed u w _).2 = _
    rw [hsame]
    refine ih ?_
    rw [← hsame]
    exact h

/-- A verb's statement that succeeds has been sent. -/
theorem run_requests {a : kind.Reply} {v : World ρ σ}
    (h : outcome (db.run env kind sql args) w = (.ok a, v)) :
    v.requests = w.requests ++ [(kind, sql, args)] := by
  rcases hsent : (Script.sent env db kind sql args).run (env.reporting sql args w) with ⟨⟨r, b⟩, u⟩
  rw [Script.run_sent hsent] at h
  obtain ⟨rfl, rfl⟩ := Prod.mk.inj h
  have hanswered : u = env.answered (env.reporting sql args w) kind sql args := by
    rw [Script.sent] at hsent
    cases htoken : db.token? with
    | none =>
      rw [htoken] at hsent
      have hrequest : (db.request env kind sql args).run (env.reporting sql args w) =
        (⟨.ok a, b⟩, u) := hsent
      rw [← request_ok (congrArg (·.1.result) hrequest), hrequest]
    | some t =>
      rw [htoken, cancellable_run] at hsent
      have hobserved : observed t (env.reporting sql args w)
        ((db.request env kind sql args).run (env.reporting sql args w)) = (⟨.ok a, b⟩, u) := hsent
      rw [observed_ok (congrArg (·.1.result) hobserved)] at hobserved
      rw [← request_ok (congrArg (·.1.result) hobserved), hobserved]
  rw [hanswered]
  simp [World.requests, Environment.answered, Environment.reporting]

end

/-! ## Failures of an insertion's own -/

namespace Environment

variable [DecidableEq ι] (env : Environment ι ρ σ)

/-- The same environment with a database that answers every statement, by what it says alone. -/
def answering (answer : (k : RequestKind) → String → List Value → k.Reply) : Environment ι ρ σ :=
  { env with answer := fun k sql args s => ({ result := .ok (answer k sql args) }, s) }

/-- Inserting the instance fails with that error whatever the database answers. -/
def Refuses (x : Instance ι) (e : Error) : Prop :=
  ∀ (answer : (k : RequestKind) → String → List Value → k.Reply) (w : World ρ σ),
    (((((env.answering answer).createInstance .connection).run.run x).run w)).1.1 = .error e

omit [DecidableEq ι] in
/-- There is no event of which to tell the hook before the insertion. -/
def Unready (x : Instance ι) (e : Error) : Prop :=
  WriteEvent.ofInstance env.schema env.driver x true = .error e

/-- The row would have to be selected again by the instance, and there is no SELECT that does. -/
structure Unfindable (x : Instance ι) (pre : WriteEvent) (c : Compiled ι) (e : Error) : Prop where
  ready : WriteEvent.ofInstance env.schema env.driver x true = .ok pre
  compiled : compileInsert env.schema x.model x = .ok c
  left : c.returning ≠ []
  mode : env.dialect.returning = .nothing
  fails : env.rowSelect x = .error e

variable {env} {x : Instance ι} {e : Error} {c : Compiled ι}
  {answer : (k : RequestKind) → String → List Value → k.Reply} {w : World ρ σ}

section

variable (env answer w)

omit [DecidableEq ι] in
theorem answering_run (k : RequestKind) (s : Statement) :
    ∃ v, outcome ((env.answering answer).runStatement .connection k s) w =
      (.ok (answer k (s.sql.print env.dialect) s.args), v) :=
  ⟨_, rfl⟩

theorem answering_select (cs : Compiled ι) :
    ∃ v, outcome ((env.answering answer).select .connection cs) w =
      (materialize env.schema cs.scan
        ((answer .query (cs.statement.sql.print env.dialect) cs.statement.args : List Row).map (·.values))
        fun _ => false, v) :=
  ⟨_, rfl⟩

end

/-! ### What a database might answer -/

omit [DecidableEq ι] in
/-- NULL can be written to every column. -/
theorem setValue_null {schema : Schema ι} {name : String} {v : Value}
    (h : x.value schema name = .ok v) : ∃ y, x.setValue schema name .null = (y, .ok ()) := by
  obtain ⟨f, s, hf, hc, -, -⟩ := Instance.value_eq_ok.1 h
  rw [Instance.setValue, Instance.maxKeyDepth, Instance.setValueIn, hf]
  dsimp only
  cases hr : f.relation with
  | none =>
    dsimp only
    rw [Storage.read_null]
    exact ⟨_, rfl⟩
  | some r =>
    rw [FieldDef.hasColumn, hr] at hc
    dsimp only at hc ⊢
    rw [hc]
    exact ⟨_, rfl⟩

/-- Whether an insertion succeeds depends on what is brought back alone. -/
theorem createInstance_result {db : Executor} {pre : WriteEvent}
    (hpre : WriteEvent.ofInstance env.schema env.driver x true = .ok pre)
    (hc : compileInsert env.schema x.model x = .ok c) :
    (((env.createInstance db).run.run x).run w).1.1 =
      (outcome (env.generated db x c) (env.told .preSave pre w)).1 >>= fun l =>
        (x.fillAll env.schema l).2 := by
  rcases hrun : ((env.createInstance db).run.run x).run w with ⟨⟨r, x'⟩, v⟩
  cases createInstance_inserted hrun with
  | unready he => cases hpre.symm.trans he
  | unanswered hpre' hc' h =>
    obtain rfl := Except.ok.inj (hpre.symm.trans hpre')
    obtain rfl := Except.ok.inj (hc.symm.trans hc')
    rw [h]
    rfl
  | unwritten hpre' hc' h hfill | written hpre' hc' h hfill =>
    obtain rfl := Except.ok.inj (hpre.symm.trans hpre')
    obtain rfl := Except.ok.inj (hc.symm.trans hc')
    rw [h]
    exact (congrArg Prod.snd hfill).symm

theorem answering_result {db : Executor} {pre : WriteEvent}
    (hpre : WriteEvent.ofInstance env.schema env.driver x true = .ok pre)
    (hc : compileInsert env.schema x.model x = .ok c) :
    ((((env.answering answer).createInstance db).run.run x).run w).1.1 =
      (outcome ((env.answering answer).generated db x c) ((env.answering answer).told .preSave pre w)).1 >>=
        fun l => (x.fillAll env.schema l).2 :=
  createInstance_result hpre hc

/-- Where there is no SELECT of the row, the INSERT is sent all the same. -/
theorem Unfindable.generated {db : Executor} {pre : WriteEvent} (h : env.Unfindable x pre c e) :
    outcome (env.generated db x c) w =
      ((outcome (env.runStatement db .execute c.statement) w).1 >>= fun _ => .error e,
        (outcome (env.runStatement db .execute c.statement) w).2) := by
  rw [Environment.generated, if_neg fun hnil => h.left (List.isEmpty_iff.1 hnil), h.mode, outcome_bind]
  rcases outcome (env.runStatement db .execute c.statement) w with ⟨_ | n, v⟩
  · rfl
  · dsimp only
    rw [reselected, h.fails]
    rfl

theorem createInstance_unready {db : Executor} (h : env.Unready x e) :
    ((env.createInstance db).run.run x).run w = ((.error e, x), w) := by
  rw [createInstance_run, h]

theorem Unready.refuses (h : env.Unready x e) : env.Refuses x e := by
  intro answer w
  have h' : (env.answering answer).Unready x e := h
  rw [createInstance_unready h']

/-- A database that answers each kind of statement in one way. -/
def constant (affected : Nat) (rows : List Row) (id : Value) :
    (k : RequestKind) → String → List Value → k.Reply
  | .execute, _, _ => affected
  | .query, _, _ => rows
  | .insert, _, _ => id

/-- A row that is wider than a plan. -/
def tooWide (scan : ScanPlan ι) : Row where
  columns := List.replicate (scan.entries.length + 1) ""
  values := List.replicate (scan.entries.length + 1) .null
  sameLength := by rw [List.length_replicate, List.length_replicate]

/-- Such a row is refused. -/
theorem tooWide_refused (schema : Schema ι) (scan : ScanPlan ι) (name : String) :
    ∃ what, (materialize schema scan ([tooWide scan].map (·.values)) (fun _ => false) >>=
      single name) = .error (.typeMismatch what) := by
  have hwidth : ((tooWide scan).values.length != scan.entries.length) = true := by
    rw [tooWide, List.length_replicate, bne_iff_ne]
    exact Nat.succ_ne_self _
  have hrow : ∃ what, rowTree schema scan (tooWide scan).values = .error (.typeMismatch what) := by
    rw [rowTree, if_pos hwidth]
    exact ⟨_, rfl⟩
  obtain ⟨what, hrow⟩ := hrow
  refine ⟨what, ?_⟩
  rw [materialize, List.map_singleton, rowTrees, hrow]
  rfl

/-- A database that answers with rows without columns and with NULL brings back what can be written,
unless the row has to be selected again. -/
theorem generated_constant (hc : compileInsert env.schema x.model x = .ok c)
    (h : c.returning = [] ∨ env.dialect.returning ≠ .nothing) (w : World ρ σ) :
    ∃ l y v, outcome ((env.answering (constant 0 [⟨[], [], rfl⟩] .null)).generated .connection x c) w =
      (.ok l, v) ∧ x.fillAll env.schema l = (y, .ok ()) := by
  have answered (k : RequestKind) :=
    answering_run env (constant 0 [⟨[], [], rfl⟩] .null) w k c.statement
  by_cases hnil : c.returning = []
  · obtain ⟨v, hv⟩ := answered .execute
    exact ⟨_, x, v, generated_eq_ok.2 (.nothing hnil hv), rfl⟩
  cases hmode : env.dialect.returning with
  | nothing => exact absurd hmode (h.resolve_left hnil)
  | columns =>
    obtain ⟨v, hv⟩ := answered .query
    refine ⟨_, x, v, generated_eq_ok.2 (.columns hnil hmode hv), ?_⟩
    rw [List.zip_nil_right]
    rfl
  | lastInsertId =>
    obtain ⟨v, hv⟩ := answered .insert
    have hbrought : Brought (env.answering (constant 0 [⟨[], [], rfl⟩] .null)) .connection x c w _ v :=
      .lastInsertId hnil hmode hv
    have hfound := generated_eq_ok.2 hbrought
    cases hf : c.returning.find? (·.primaryKey) with
    | none =>
      rw [hf] at hfound
      exact ⟨_, x, v, hfound, rfl⟩
    | some f =>
      rw [hf] at hfound
      obtain ⟨-, u, hu, -⟩ := Instance.generated_of_compileInsert hc f (List.mem_of_find?_eq_some hf)
      obtain ⟨y, hy⟩ := setValue_null hu
      refine ⟨_, y, v, hfound, ?_⟩
      rw [Option.toList_some, List.map_singleton, constant, FieldType.normalize_null,
        Instance.fillAll, hy]
      rfl

/-- A row cannot be selected again if the rows of the SELECT are not those of one instance. -/
theorem answering_reselected {cs : Compiled ι} (hcs : env.rowSelect x = .ok cs)
    (fields : List (FieldDef ι))
    (h : (materialize env.schema cs.scan
        ((answer .query (cs.statement.sql.print env.dialect) cs.statement.args : List Row).map (·.values))
        (fun _ => false) >>= single (env.schema x.model).modelName) = .error e) :
    (outcome ((env.answering answer).reselected .connection x fields) w).1 = .error e := by
  have hcs : (env.answering answer).rowSelect x = .ok cs := hcs
  have result {α : Type} (r : Result α) (u : World ρ σ) : outcome (Effect.ofResult r) u = (r, u) := rfl
  obtain ⟨u, hu⟩ := answering_select env answer w cs
  rw [reselected, hcs, outcome_bind, result]
  dsimp only
  rw [outcome_bind, hu]
  rcases hrows : materialize env.schema cs.scan _ _ with e' | found
  · rw [hrows] at h
    obtain rfl : e' = e := Except.error.inj h
    rfl
  · rw [hrows] at h
    have h : single ((env.answering answer).schema x.model).modelName found = .error e := h
    dsimp only
    rw [outcome_bind, result, h]

/-- Such an insertion fails in the same way. -/
theorem reselected_fails {cs : Compiled ι} {pre : WriteEvent}
    (hpre : WriteEvent.ofInstance env.schema env.driver x true = .ok pre)
    (hc : compileInsert env.schema x.model x = .ok c) (hleft : c.returning ≠ [])
    (hmode : env.dialect.returning = .nothing) (hcs : env.rowSelect x = .ok cs)
    (h : (materialize env.schema cs.scan
        ((answer .query (cs.statement.sql.print env.dialect) cs.statement.args : List Row).map (·.values))
        (fun _ => false) >>= single (env.schema x.model).modelName) = .error e) (w : World ρ σ) :
    ((((env.answering answer).createInstance .connection).run.run x).run w).1.1 = .error e := by
  have hmode : (env.answering answer).dialect.returning = .nothing := hmode
  obtain ⟨v, hv⟩ := answering_run env answer ((env.answering answer).told .preSave pre w) .execute
    c.statement
  rw [answering_result hpre hc, generated, if_neg fun hnil => hleft (List.isEmpty_iff.1 hnil), hmode,
    outcome_bind, hv]
  dsimp only
  rw [answering_reselected hcs c.returning h]
  rfl

theorem Unfindable.refuses {pre : WriteEvent} (h : env.Unfindable x pre c e) : env.Refuses x e := by
  intro answer w
  have h' : (env.answering answer).Unfindable x pre c e := ⟨h.ready, h.compiled, h.left, h.mode, h.fails⟩
  obtain ⟨v, hv⟩ := answering_run env answer ((env.answering answer).told .preSave pre w) .execute
    c.statement
  rw [createInstance_result h'.ready h'.compiled, h'.generated, hv]
  rfl

/-- The errors with which an insertion fails whatever the database answers. -/
theorem refuses_iff (w : World ρ σ) :
    env.Refuses x e ↔ env.Unready x e ∨ ∃ pre c, env.Unfindable x pre c e := by
  constructor
  · intro h
    cases hpre : WriteEvent.ofInstance env.schema env.driver x true with
    | error e' =>
      have hfails : env.Refuses x e' := Unready.refuses hpre
      have hsame := (hfails (constant 0 [] .null) w).symm.trans (h (constant 0 [] .null) w)
      obtain rfl := Except.error.inj hsame
      exact .inl hpre
    | ok pre =>
      obtain ⟨c, hc⟩ := exists_compileInsert (WriteEvent.readable hpre)
      by_cases hmode : c.returning = [] ∨ env.dialect.returning ≠ .nothing
      · -- rows without columns and NULL can always be taken
        let env' := env.answering (constant 0 [⟨[], [], rfl⟩] .null)
        obtain ⟨l, y, v, hl, hy⟩ := generated_constant hc hmode (env'.told .preSave pre w)
        have hfails := h (constant 0 [⟨[], [], rfl⟩] .null) w
        rw [answering_result hpre hc, hl] at hfails
        have hok : (x.fillAll env.schema l).2 = .error e := hfails
        rw [hy] at hok
        cases hok
      · obtain ⟨hleft, hmode⟩ := not_or.1 hmode
        have hmode := not_not.1 hmode
        refine .inr ⟨pre, c, hpre, hc, hleft, hmode, ?_⟩
        cases hcs : env.rowSelect x with
        | error e' =>
          have hfails : env.Refuses x e' := Unfindable.refuses ⟨hpre, hc, hleft, hmode, hcs⟩
          have hsame := (hfails (constant 0 [] .null) w).symm.trans (h (constant 0 [] .null) w)
          rw [Except.error.inj hsame]
        | ok cs =>
          -- no row and a row that is too wide are refused with different errors
          obtain ⟨what, hwide⟩ := tooWide_refused env.schema cs.scan (env.schema x.model).modelName
          have hnone := h (constant 0 [] .null) w
          rw [reselected_fails hpre hc hleft hmode hcs rfl w] at hnone
          have hbroad := h (constant 0 [tooWide cs.scan] .null) w
          rw [reselected_fails hpre hc hleft hmode hcs hwide w] at hbroad
          obtain rfl := Except.error.inj hnone
          cases hbroad
  · rintro (h | ⟨pre, c, h⟩)
    · exact h.refuses
    · exact h.refuses

/-! ## All failures -/

omit [DecidableEq ι] in
theorem told_requests (env : Environment ι ρ σ) (kind : HookKind) (event : WriteEvent)
    (w : World ρ σ) : (env.told kind event w).requests = w.requests := by
  rw [told, World.requests, Executor.announce, outcome_modify]
  simp [World.requests]

/-- The insertion failed while the instance was written: what comes before one of the fields has been
written, and that field could not be. -/
inductive Interrupted (env : Environment ι ρ σ) (db : Executor) (x : Instance ι) (w : World ρ σ)
    (e : Error) (x' : Instance ι) (v : World ρ σ) : Prop
  | intro {pre : WriteEvent} {c : Compiled ι} {before after : List (FieldDef ι × Result Value)}
      {f : FieldDef ι} {r : Result Value} {y : Instance ι} :
      WriteEvent.ofInstance env.schema env.driver x true = .ok pre →
      compileInsert env.schema x.model x = .ok c →
      Brought env db x c (env.told .preSave pre w) (before ++ (f, r) :: after) v →
      x.fillAll env.schema before = (y, .ok ()) →
      (r = .error e ∧ x' = y ∨ ∃ a, r = .ok a ∧ y.setValue env.schema f.name a = (x', .error e)) →
      Interrupted env db x w e x' v

/--
An insertion that fails whatever the database answers does so before anything is sent, if a column of the
instance cannot be read, and otherwise once its INSERT has been carried out, if the row would have to be
selected again and cannot be named. Whenever one fails, only fields that are left to the database may
have changed, and these only if the database has brought back values for them, one of which could not be
written.
-/
theorem createInstance_fails (env : Environment ι ρ σ) (db : Executor) (x : Instance ι)
    (w : World ρ σ) :
    (∀ e, env.Refuses x e ↔ env.Unready x e ∨ ∃ pre c, env.Unfindable x pre c e) ∧
    (∀ e, env.Unready x e → ((env.createInstance db).run.run x).run w = ((.error e, x), w)) ∧
    (∀ pre c e, env.Unfindable x pre c e → ∃ r v,
      outcome (env.runStatement db .execute c.statement) (env.told .preSave pre w) = (r, v) ∧
      ((env.createInstance db).run.run x).run w = ((r >>= fun _ => .error e, x), v) ∧
      ∀ n, r = .ok n → v.requests =
        w.requests ++ [(.execute, c.statement.sql.print env.dialect, c.statement.args)]) ∧
    ∀ e x' v, ((env.createInstance db).run.run x).run w = ((.error e, x'), v) →
      (∀ c, compileInsert env.schema x.model x = .ok c →
        x.SameBut (c.returning.map (·.name)) x') ∧
      (x' = x ∨ Interrupted env db x w e x' v) := by
  refine ⟨fun e => refuses_iff w, fun e => createInstance_unready, fun pre c e h => ?_,
    fun e x' v h => ?_⟩
  · rcases hsent : outcome (env.runStatement db .execute c.statement) (env.told .preSave pre w) with ⟨r, v⟩
    refine ⟨r, v, rfl, ?_, ?_⟩
    · rw [createInstance_run, h.ready, h.compiled]
      dsimp only
      rw [insert_splits env db x c, h.generated, hsent]
      cases r <;> rfl
    · rintro n rfl
      rw [run_requests hsent, told_requests]
  · cases createInstance_inserted h with
    | unready _ => exact ⟨fun _ _ => .refl _ x, .inl rfl⟩
    | unanswered _ _ _ => exact ⟨fun _ _ => .refl _ x, .inl rfl⟩
    | unwritten hpre hc hgenerated hfill =>
      have hbrought := generated_eq_ok.1 hgenerated
      constructor
      · intro c' hc'
        obtain rfl := Except.ok.inj (hc.symm.trans hc')
        exact hbrought.sameBut hfill
      · obtain ⟨before, f, r, after, y, rfl, hbefore, hr⟩ := Instance.fillAll_failed hfill
        exact .inr (.intro hpre hc hbrought hbefore hr)

end Environment

/-! ## Tags and ticks -/

/-- A database that says nothing of a new row, but that it is there. -/
def Sample.plain : Environment Sample Unit Unit where
  schema := Sample.schema
  driver := "plainsql"
  dialect := { driver := "plainsql" }
  answer k _ _ s := ({ result := .ok (Environment.constant 1 [] .null k "" []) }, s)
  react _ _ := []
  receiverFires _ _ := []
  rowFires _ _ := []

/-- A database that gives a new tick the key 5, and as its serial number something that is none. -/
def Sample.miscounting : Environment Sample Unit Unit :=
  { Sample.plain with
    dialect := .postgres
    answer := fun k _ _ s =>
      ({ result := .ok (Environment.constant 1 [⟨["id", "serial"], [.int 5, .string "x"], rfl⟩] .null
          k "" []) }, s) }

/-- An instance without any column. -/
def Sample.bareTag : Instance Sample := { model := .tag, slots := [] }

def Sample.newTick : Instance Sample := .new Sample.schema .tick

open Environment Sample in
/-- A tag has nothing but its key by which to find it. -/
theorem newTag_unfindable :
    ∃ pre c, plain.Unfindable (newTag "home") pre c (.noUniqueKey "tags") ∧
      c.statement.sql.print plain.dialect = "INSERT INTO \"tags\" (\"label\") VALUES (?)" ∧
      c.statement.args = [.string "home"] :=
  ⟨_, _, ⟨rfl, rfl, List.cons_ne_nil Sample.key [], rfl, rfl⟩, rfl, rfl⟩

open Environment Sample in
/-- An instance without columns cannot be inserted, a tag that cannot be found again is, and the key of
a tick is written before its number is looked at. -/
theorem insertions_fail :
    (plain.Unready bareTag (.unknownField "tags" "id") ∧
      ((plain.createInstance .connection).run.run bareTag).run { outside := () } =
        ((.error (.unknownField "tags" "id"), bareTag), { outside := () })) ∧
    (∃ v, ((plain.createInstance .connection).run.run (newTag "home")).run { outside := () } =
        ((.error (.noUniqueKey "tags"), newTag "home"), v) ∧
      v.requests = [(.execute, "INSERT INTO \"tags\" (\"label\") VALUES (?)", [.string "home"])]) ∧
    ∃ e x' v, ((miscounting.createInstance .connection).run.run newTick).run { outside := () } =
        ((.error e, x'), v) ∧ newTick.SameBut ["id", "serial"] x' ∧
      (x' = newTick ∨ Interrupted miscounting .connection newTick { outside := () } e x' v) := by
  have hbare : plain.Unready bareTag (.unknownField "tags" "id") := rfl
  obtain ⟨pre, c, hfindable, hsql, hargs⟩ := newTag_unfindable
  refine ⟨⟨hbare, (createInstance_fails plain .connection bareTag _).2.1 _ hbare⟩, ?_, ?_⟩
  · obtain ⟨r, v, hsent, hrun, hrequests⟩ :=
      (createInstance_fails plain .connection (newTag "home") { outside := () }).2.2.1 _ _ _ hfindable
    obtain rfl : (.ok 1 : Result Nat) = r := congrArg Prod.fst hsent
    refine ⟨v, hrun, ?_⟩
    rw [hrequests (1 : Nat) rfl, hsql, hargs]
    rfl
  · obtain ⟨hsame, hinterrupted⟩ :=
      (createInstance_fails miscounting .connection newTick { outside := () }).2.2.2 _ _ _ rfl
    exact ⟨_, _, _, rfl, hsame _ rfl, hinterrupted⟩

/-- Where the database does not say what key a tag has been given, the INSERT is sent before it is
noticed that the tag cannot be found again. A tick that is given no number keeps the key that the
database gave it. -/
theorem insertions_leave_traces :
    (Sample.plain.Refuses (Sample.newTag "home") (.noUniqueKey "tags") ∧
      ∃ v, ((Sample.plain.createInstance .connection).run.run (Sample.newTag "home")).run
          { outside := () } = ((.error (.noUniqueKey "tags"), Sample.newTag "home"), v) ∧
        v.requests =
          [(.execute, "INSERT INTO \"tags\" (\"label\") VALUES (?)", [.string "home"])]) ∧
    ∃ what x' v, ((Sample.miscounting.createInstance .connection).run.run Sample.newTick).run
        { outside := () } = ((.error (.typeMismatch what), x'), v) ∧
      Sample.newTick.value Sample.schema "id" = .ok (.int 0) ∧
      x'.value Sample.schema "id" = .ok (.int 5) := by
  obtain ⟨pre, c, hfindable, -, -⟩ := newTag_unfindable
  exact ⟨⟨hfindable.refuses, _, rfl, rfl⟩, _, _, _, rfl, rfl, rfl⟩

end Orm
