import Orm.Proofs.Script.Steps

/-
The course of a run: its steps follow one another, each does what its deed says, and between them
nothing happens that anyone outside could notice. So the steps account for the whole trace, and what
has fired by one step has fired before the next.
-/

namespace Orm

variable {S ι ρ σ α : Type}

/-- Nothing has happened but reports and tokens that fired. -/
structure Quiet (w v : World ρ σ) : Prop where
  outside : v.outside = w.outside
  transactions : v.transactions = w.transactions
  hooks : v.hooks = w.hooks
  trace : v.trace = w.trace
  fired : w.fired ⊆ v.fired

theorem Quiet.refl (w : World ρ σ) : Quiet w w := ⟨rfl, rfl, rfl, rfl, fun _ h => h⟩

theorem Quiet.trans {w v u : World ρ σ} (h : Quiet w v) (h' : Quiet v u) : Quiet w u :=
  ⟨h'.outside.trans h.outside, h'.transactions.trans h.transactions, h'.hooks.trans h.hooks,
    h'.trace.trans h.trace, List.Subset.trans h.fired h'.fired⟩

theorem Quiet.report (w : World ρ σ) (l : Log) : Quiet w { w with log := w.log ++ l } :=
  ⟨rfl, rfl, rfl, rfl, fun _ h => h⟩

theorem Quiet.reading (env : Environment ι ρ σ) (w : World ρ σ) {i j : Nat} (h : i ≤ j) :
    Quiet (env.reading w i) (env.reading w j) := by
  refine ⟨rfl, rfl, rfl, rfl, fun u hu => ?_⟩
  simp only [Environment.reading, List.mem_append, List.mem_flatMap, List.mem_range] at hu ⊢
  refine hu.imp_right ?_
  rintro ⟨k, hk, hu⟩
  exact ⟨k, Nat.lt_of_lt_of_le hk h, hu⟩

theorem Quiet.read (env : Environment ι ρ σ) (w : World ρ σ) (rows : Nat) :
    Quiet w (env.reading w rows) :=
  ⟨rfl, rfl, rfl, rfl, List.subset_append_left _ _⟩

/-- What the outside has noticed in a step. -/
def Step.seen (s : Step ρ σ) : List (Happening ρ) := s.after.trace.drop s.before.trace.length

/-- The step has done to the world what its deed says. -/
inductive Step.Made (env : Environment ι ρ σ) (db : Executor) : Step ρ σ → Prop
  | announce (kind : HookKind) (event : WriteEvent) (w : World ρ σ) :
    Made env db ⟨.announce kind event, w, (outcome (Executor.announce env kind event) w).2⟩
  | request (kind : RequestKind) (sql : String) (args : List Value) (w : World ρ σ) :
    Made env db ⟨.request kind sql args, w, ((Script.sent env db kind sql args).run w).2⟩
  | row (i : Nat) (w : World ρ σ) :
    Made env db ⟨.row i, env.reading w i, env.reading w (i + 1)⟩

section

variable {env : Environment ι ρ σ} {db : Executor} {s : Step ρ σ}

theorem Step.seen_eq {l : List (Happening ρ)} (h : s.after.trace = s.before.trace ++ l) :
    s.seen = l := by
  rw [Step.seen, h, List.drop_left]

theorem Step.Made.trace (h : s.Made env db) : s.after.trace = s.before.trace ++ s.seen := by
  suffices ∃ l, s.after.trace = s.before.trace ++ l by
    obtain ⟨l, hl⟩ := this
    rw [hl, seen_eq hl]
  cases h with
  | announce kind event w => exact ⟨_, rfl⟩
  | request kind sql args w =>
    rcases cancellable_cases env kind sql args db db.token? w with h | h
    · exact ⟨[], (congrArg World.trace h).trans (List.append_nil _).symm⟩
    · exact ⟨_, congrArg World.trace h⟩
  | row i w => exact ⟨[], (List.append_nil _).symm⟩

theorem Step.Made.fired (h : s.Made env db) : s.before.fired ⊆ s.after.fired := by
  cases h with
  | announce kind event w => exact List.subset_append_left _ _
  | request kind sql args w =>
    change w.fired ⊆ ((Script.sent env db kind sql args).run w).2.fired
    rcases cancellable_cases env kind sql args db db.token? w with h | h
    · rw [Script.sent, h]
      exact fun _ h => h
    · rw [Script.sent, h]
      exact List.subset_append_left _ _
  | row i w => exact (Quiet.reading env w (Nat.le_succ i)).fired

end

/-- The steps lead from one world to another. -/
inductive Course (env : Environment ι ρ σ) (db : Executor) :
    World ρ σ → List (Step ρ σ) → World ρ σ → Prop
  | still {w v : World ρ σ} : Quiet w v → Course env db w [] v
  | step {w v : World ρ σ} {s : Step ρ σ} {rest : List (Step ρ σ)} : Quiet w s.before →
    s.Made env db → Course env db s.after rest v → Course env db w (s :: rest) v

namespace Course

variable {env : Environment ι ρ σ} {db : Executor} {w v u : World ρ σ}
  {steps more : List (Step ρ σ)}

theorem after (hq : Quiet w v) (h : Course env db v steps u) : Course env db w steps u := by
  cases h with
  | still h => exact .still (hq.trans h)
  | step h hm hr => exact .step (hq.trans h) hm hr

theorem append (h : Course env db w steps v) (h' : Course env db v more u) :
    Course env db w (steps ++ more) u := by
  induction h with
  | still hq => exact h'.after hq
  | step hq hm _ ih => exact .step hq hm (ih h')

theorem single {s : Step ρ σ} (h : s.Made env db) : Course env db s.before [s] s.after :=
  .step (.refl _) h (.still (.refl _))

theorem then_quiet (h : Course env db w steps v) (hq : Quiet v u) : Course env db w steps u := by
  simpa using h.append (.still hq)

/-- The steps account for the trace. -/
theorem trace (h : Course env db w steps v) : v.trace = w.trace ++ steps.flatMap Step.seen := by
  induction h with
  | still hq => rw [hq.trace, List.flatMap_nil, List.append_nil]
  | step hq hm _ ih => rw [ih, hm.trace, hq.trace, List.flatMap_cons, List.append_assoc]

theorem fired (h : Course env db w steps v) : w.fired ⊆ v.fired := by
  induction h with
  | still hq => exact hq.fired
  | step hq hm _ ih => exact List.Subset.trans (List.Subset.trans hq.fired hm.fired) ih

theorem fired_before (h : Course env db w steps v) : ∀ s ∈ steps, w.fired ⊆ s.before.fired := by
  induction h with
  | still hq => exact fun _ hs => absurd hs List.not_mem_nil
  | step hq hm _ ih =>
    refine List.forall_mem_cons.2 ⟨hq.fired, fun s hs => ?_⟩
    exact List.Subset.trans (List.Subset.trans hq.fired hm.fired) (ih s hs)

/-- What has fired by a step has fired before every later one. -/
theorem inTime (h : Course env db w steps v) :
    steps.Pairwise fun s s' => s.after.fired ⊆ s'.before.fired := by
  induction h with
  | still hq => exact .nil
  | step hq hm hr ih => exact .cons hr.fired_before ih

theorem made (h : Course env db w steps v) : ∀ s ∈ steps, s.Made env db := by
  induction h with
  | still hq => exact fun _ hs => absurd hs List.not_mem_nil
  | step hq hm _ ih => exact List.forall_mem_cons.2 ⟨hm, ih⟩

end Course

/-! ## Scripts -/

namespace Script

variable (env : Environment ι ρ σ) (db : Executor)

theorem rowSteps_course (c : CalledOff) (w : World ρ σ) (i n : Nat) (rows : List (Result Unit))
    (hn : n = i + rows.length) :
    Course env db (env.reading w i) (rowSteps env c w i rows) (env.reading w n) := by
  induction rows generalizing i with
  | nil => exact .still (hn ▸ .refl _)
  | cons row rows ih =>
    have first : Course env db (env.reading w i)
        [⟨.row i, env.reading w i, env.reading w (i + 1)⟩] (env.reading w (i + 1)) :=
      .single (.row i w)
    have hnext : n = i + 1 + rows.length := by
      rw [hn, List.length_cons]
      omega
    have rest : Quiet (env.reading w (i + 1)) (env.reading w n) := .reading env w (by omega)
    simp only [rowSteps]
    split
    · exact first.then_quiet rest
    · split
      · exact first.append (ih (i + 1) hnext)
      · exact first.then_quiet rest

/-- A run follows the course of its steps. -/
theorem course (p : Script S α) (w : World ρ σ) :
    Course env db w (p.steps env db w) (p.run env db w).2 := by
  induction p generalizing w with
  | done r s => exact .still (.refl w)
  | report l next ih => exact (ih _).after (.report w l)
  | announce kind event next ih =>
    exact (Course.single (.announce kind event w)).append (ih _)
  | request s kind sql args next ih =>
    have first : Course env db w [⟨.request kind sql args, env.reporting sql args w,
        ((sent env db kind sql args).run (env.reporting sql args w)).2⟩] _ :=
      .after (.report w _) (.single (.request kind sql args (env.reporting sql args w)))
    rcases h : (sent env db kind sql args).run (env.reporting sql args w) with ⟨⟨e | a, _⟩, v⟩
    · rw [h] at first
      rw [(request_of_error h _ _).1, (request_of_error h _ _).2]
      exact first
    · rw [h] at first
      rw [(request_of_ok h _ _).1, (request_of_ok h _ _).2]
      exact first.append (ih _ _)
  | read s rows next ih =>
    have first : Course env db w (rowSteps env (watching env db w) w 0 rows)
        (env.reading w rows.length) :=
      .after (.read env w 0) (rowSteps_course env db _ w 0 _ rows (Nat.zero_add _).symm)
    rcases h : readRows (watching env db w) 0 rows with e | u
    · rw [(read_of_error h _ _).1, (read_of_error h _ _).2]
      exact first
    · rw [(read_of_ok h _ _).1, (read_of_ok h _ _).2]
      exact first.append (ih _)

end Script

end Orm
