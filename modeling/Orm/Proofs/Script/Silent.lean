import Orm.Proofs.Hooks.Filling
import Orm.Proofs.Script.Steps
import Orm.Proofs.Script.Verb

/-
Scripts that tell no hook anything, whatever the database answers: reading, and what an INSERT does
between its hooks. Where such a script succeeds, it is known what it has done to its state.
-/

namespace Orm

variable {S T ι ρ σ α β : Type}

/-- No hook is told anything, and if the script succeeds then with such a result and state. -/
def Script.Silent (Q : α → S → Prop) : Script S α → Prop
  | done (.ok a) s => Q a s
  | done (.error _) _ => True
  | report _ next => next.Silent Q
  | announce _ _ _ => False
  | request _ _ _ _ next => ∀ a, (next a).Silent Q
  | read _ _ next => next.Silent Q

namespace Script.Silent

variable {Q : α → S → Prop} {R : β → T → Prop} {p : Script S α}

theorem andThen {g : S → T} {f : α → S → Script T β} (h : p.Silent Q)
    (hf : ∀ a s, Q a s → (f a s).Silent R) : (p.andThen g f).Silent R := by
  induction p with
  | done r s =>
    cases r with
    | error e => trivial
    | ok a => exact hf a s h
  | report l next ih => exact ih h
  | announce kind event next ih => exact h.elim
  | request s kind sql args next ih => exact fun a => ih a (h a)
  | read s rows next ih => exact ih h

theorem mono {Q' : α → S → Prop} (h : p.Silent Q) (hq : ∀ a s, Q a s → Q' a s) : p.Silent Q' := by
  induction p with
  | done r s =>
    cases r with
    | error e => trivial
    | ok a => exact hq a s h
  | report l next ih => exact ih h
  | announce kind event next ih => exact h
  | request s kind sql args next ih => exact fun a => ih a (h a)
  | read s rows next ih => exact ih h

variable {env : Environment ι ρ σ} {db : Executor}

/-- What is known where the script succeeds. -/
theorem of_run (h : p.Silent Q) {w v : World ρ σ} {a : α} {s : S}
    (hr : p.run env db w = ((.ok a, s), v)) : Q a s := by
  induction p generalizing w with
  | done r t =>
    cases hr
    exact h
  | report l next ih => exact ih h hr
  | announce kind event next ih => exact h.elim
  | request t kind sql args next ih =>
    rw [run] at hr
    split at hr
    · exact ih _ (h _) hr
    · cases hr
  | read t rows next ih =>
    rw [run_read] at hr
    split at hr
    · exact ih h hr
    · cases hr

theorem rowSteps_silent (c : CalledOff) (w : World ρ σ) (i : Nat) (rows : List (Result Unit)) :
    ∀ s ∈ rowSteps env c w i rows, ∀ kind event, s.deed ≠ .announce kind event := by
  induction rows generalizing i with
  | nil => exact fun _ hs => absurd hs List.not_mem_nil
  | cons row rows ih =>
    simp only [rowSteps]
    refine List.forall_mem_cons.2 ⟨fun _ _ => nofun, ?_⟩
    split
    · exact fun _ hs => absurd hs List.not_mem_nil
    · split
      · exact ih (i + 1)
      · exact fun _ hs => absurd hs List.not_mem_nil

theorem steps (h : p.Silent Q) (w : World ρ σ) :
    ∀ s ∈ p.steps env db w, ∀ kind event, s.deed ≠ .announce kind event := by
  induction p generalizing w with
  | done r s => exact fun _ hs => absurd hs List.not_mem_nil
  | report l next ih => exact ih h _
  | announce kind event next ih => exact h.elim
  | request s kind sql args next ih =>
    rcases hr : (sent env db kind sql args).run (env.reporting sql args w) with ⟨⟨e | a, _⟩, v⟩
    · rw [(request_of_error hr _ _).1]
      exact List.forall_mem_singleton.2 fun _ _ => nofun
    · rw [(request_of_ok hr _ _).1]
      exact List.forall_mem_append.2
        ⟨List.forall_mem_singleton.2 fun _ _ => nofun, ih a (h a) v⟩
  | read s rows next ih =>
    rcases hr : readRows (watching env db w) 0 rows with e | u
    · rw [(read_of_error hr _ _).1]
      exact rowSteps_silent _ _ _ _
    · rw [(read_of_ok hr _ _).1]
      exact List.forall_mem_append.2 ⟨rowSteps_silent _ _ _ _, ih h _⟩

end Script.Silent

/-! ## Programs -/

namespace Program

open Script (Silent)

theorem silent_bind {Q : α → S → Prop} {R : β → S → Prop} {p : Program S α}
    {q : α → Program S β} {s : S} (h : (p s).Silent Q)
    (hq : ∀ a s', Q a s' → (q a s').Silent R) : ((p >>= q) s).Silent R :=
  Silent.andThen h hq

theorem silent_ofResult (r : Result α) (s : S) :
    (ofResult r s).Silent fun a s' => r = .ok a ∧ s' = s := by
  cases r with
  | error e => trivial
  | ok a => exact ⟨rfl, rfl⟩

variable (env : Environment ι ρ σ)

theorem silent_statement (k : RequestKind) (st : Statement) (s : S) :
    (statement env k st s).Silent fun _ s' => s' = s :=
  fun _ => rfl

theorem silent_current (s : S) : (current s).Silent fun a s' => a = s ∧ s' = s := ⟨rfl, rfl⟩

theorem silent_select [DecidableEq ι] (c : Compiled ι) (s : S) :
    (select env c s).Silent fun _ s' => s' = s := by
  intro rows
  exact (silent_ofResult _ s).mono fun _ _ h => h.2

/-! ## Writing to an instance -/

section

variable {schema : Schema ι} {names : List String}

theorem silent_setValue {x : Instance ι} {name : String} {v w : Value} (hn : name ∈ names)
    (hx : x.value schema name = .ok w) :
    (setValue schema name v x).Silent fun _ x' => x.Filled schema names x' := by
  unfold setValue
  rcases h : x.setValue schema name v with ⟨x', e | u⟩
  · trivial
  · exact .setValue hn hx h

/-- A field is written and then the rest is done, which finds readable what was readable before. -/
theorem silent_fill {x : Instance ι} {name : String} {w : Value} (hn : name ∈ names)
    (hx : x.value schema name = .ok w) (r : Result Value) {rest : Program (Instance ι) Unit}
    (hrest : ∀ y, x.Filled schema names y → (rest y).Silent fun _ z => y.Filled schema names z) :
    ((do setValue schema name (← ofResult r); rest : Program (Instance ι) Unit) x).Silent
      fun _ z => x.Filled schema names z := by
  refine silent_bind (silent_ofResult r x) fun v s hs => ?_
  rw [hs.2]
  exact silent_bind (silent_setValue hn hx) fun _ y hy => (hrest y hy).mono fun _ _ => hy.trans

theorem silent_setAll (values : List (FieldDef ι × Value)) (x : Instance ι)
    (h : ∀ p ∈ values, p.1.name ∈ names ∧ ∃ v, x.value schema p.1.name = .ok v) :
    (setAll schema values x).Silent fun _ x' => x.Filled schema names x' := by
  induction values generalizing x with
  | nil => exact .refl names x
  | cons p rest ih =>
    obtain ⟨f, v⟩ := p
    obtain ⟨⟨hn, u, hu⟩, hrest⟩ := List.forall_mem_cons.1 h
    refine silent_fill hn hu _ fun y hy => ih y fun p hp => ?_
    obtain ⟨hp, v', hv'⟩ := hrest p hp
    exact ⟨hp, hy.readable _ _ hv'⟩

theorem silent_copyAll (row : Instance ι) (fields : List (FieldDef ι)) (x : Instance ι)
    (h : ∀ f ∈ fields, f.name ∈ names ∧ ∃ v, x.value schema f.name = .ok v) :
    (copyAll schema row fields x).Silent fun _ x' => x.Filled schema names x' := by
  induction fields generalizing x with
  | nil => exact .refl names x
  | cons f rest ih =>
    obtain ⟨⟨hn, u, hu⟩, hrest⟩ := List.forall_mem_cons.1 h
    refine silent_fill hn hu _ fun y hy => ih y fun g hg => ?_
    obtain ⟨hg, v, hv⟩ := hrest g hg
    exact ⟨hg, hy.readable _ _ hv⟩

end

variable [DecidableEq ι] {names : List String}

theorem silent_reselect (fields : List (FieldDef ι)) (x : Instance ι)
    (h : ∀ f ∈ fields, f.name ∈ names ∧ ∃ v, x.value env.schema f.name = .ok v) :
    (reselect env fields x).Silent fun _ x' => x.Filled env.schema names x' := by
  refine silent_bind (silent_current x) fun a s hs => ?_
  obtain ⟨rfl, rfl⟩ := hs
  refine silent_bind (silent_ofResult _ _) fun c s hs => ?_
  rw [hs.2]
  refine silent_bind (silent_select env c _) fun found s hs => ?_
  rw [hs]
  refine silent_bind (silent_ofResult _ _) fun row s hs => ?_
  rw [hs.2]
  exact silent_copyAll row fields _ h

/-- An INSERT fills in the fields that it leaves to the database. -/
theorem silent_insert (c : Compiled ι) (x : Instance ι)
    (h : ∀ f ∈ c.returning, ∃ v, x.value env.schema f.name = .ok v) :
    (insert env c x).Silent fun _ x' => x.Filled env.schema (c.returning.map (·.name)) x' := by
  have filled : ∀ f ∈ c.returning, f.name ∈ c.returning.map (·.name) ∧
      ∃ v, x.value env.schema f.name = .ok v :=
    fun f hf => ⟨List.mem_map_of_mem hf, h f hf⟩
  have executed (k : RequestKind) (next : k.Reply → Program (Instance ι) Unit)
      (hnext : ∀ a, (next a x).Silent fun _ x' =>
        x.Filled env.schema (c.returning.map (·.name)) x') :
      ((statement env k c.statement >>= next) x).Silent fun _ x' =>
        x.Filled env.schema (c.returning.map (·.name)) x' :=
    silent_bind (silent_statement env k c.statement x) fun a s hs => hs ▸ hnext a
  unfold insert
  split
  · exact executed .execute _ fun _ => .refl _ x
  · cases env.dialect.returning with
    | columns =>
      refine executed .query _ fun rows => ?_
      cases rows with
      | nil => trivial
      | cons row rest => exact silent_setAll _ x fun p hp => filled p.1 (List.of_mem_zip hp).1
    | lastInsertId =>
      refine executed .insert _ fun id => silent_setAll _ x fun p hp => ?_
      obtain ⟨f, hf, rfl⟩ := Option.map_eq_some_iff.1 (Option.mem_toList.1 hp)
      exact filled f (List.mem_of_find?_eq_some hf)
    | nothing => exact executed .execute _ fun _ => silent_reselect env c.returning x filled

/-- What is done between the hooks of an INSERT. -/
def insertion : Program (Instance ι) Unit := do
  let x ← current
  let c ← ofResult (compileInsert env.schema x.model x)
  insert env c

theorem silent_insertion (x : Instance ι) :
    (insertion env x).Silent fun _ x' => ∃ c, compileInsert env.schema x.model x = .ok c ∧
      x.Filled env.schema (c.returning.map (·.name)) x' := by
  refine silent_bind (silent_current x) fun a s hs => ?_
  obtain ⟨rfl, rfl⟩ := hs
  refine silent_bind (silent_ofResult _ _) fun c s hs => ?_
  obtain ⟨hc, rfl⟩ := hs
  refine (silent_insert env c _ fun f hf => ?_).mono fun _ x' hx' => ⟨c, hc, hx'⟩
  obtain ⟨-, v, hv, -⟩ := Instance.generated_of_compileInsert hc f hf
  exact ⟨v, hv⟩

end Program

end Orm
