import Orm.Proofs.Script.Course
import Orm.Proofs.Script.Silent

/-
Blocks: a write with what hooks are told before and after it.

The event after the work is told exactly if nothing in the work failed (`Block.steps`). A script is
bracketed by blocks if its steps are those of the blocks, one block after the other; only the last one
may have failed, and then the script has failed (`Script.Bracketed`).
-/

namespace Orm

variable {S T ι ρ σ α β : Type}

inductive WriteKind where
  | save
  | delete
  deriving DecidableEq, Repr

def WriteKind.before : WriteKind → HookKind
  | save => .preSave
  | delete => .preDelete

def WriteKind.after : WriteKind → HookKind
  | save => .postSave
  | delete => .postDelete

/-- A write that begins with an event in some world, and ends with another event if the work between
them succeeds. -/
structure Block (ι ρ σ : Type) where
  kind : WriteKind
  pre : WriteEvent
  work : Script (List (Instance ι)) Unit
  post : WriteEvent
  start : World ρ σ

namespace Block

variable (env : Environment ι ρ σ) (db : Executor) (b : Block ι ρ σ)

/-- The world once the hook before the write has been told. -/
def opened : World ρ σ := (outcome (Executor.announce env b.kind.before b.pre) b.start).2

/-- What the work comes to, the instances that it leaves, and the world. -/
def worked : (Result Unit × List (Instance ι)) × World ρ σ := b.work.run env db (b.opened env)

def result : Result Unit := (b.worked env db).1.1

def left : List (Instance ι) := (b.worked env db).1.2

/-- The statements that are sent and the rows that are read. -/
def between : List (Step ρ σ) := b.work.steps env db (b.opened env)

def closing : List (Step ρ σ) :=
  match b.result env db with
  | .ok () =>
    let w := (b.worked env db).2
    [⟨.announce b.kind.after b.post, w, (outcome (Executor.announce env b.kind.after b.post) w).2⟩]
  | .error _ => []

def steps : List (Step ρ σ) :=
  ⟨.announce b.kind.before b.pre, b.start, b.opened env⟩ ::
    (b.between env db ++ b.closing env db)

end Block

/-- What a script does are these blocks, and it fails where one of them fails. -/
structure Script.Bracketed (env : Environment ι ρ σ) (db : Executor) (p : Script S α)
    (w : World ρ σ) (blocks : List (Block ι ρ σ)) : Prop where
  steps : p.steps env db w = blocks.flatMap (·.steps env db)
  /-- A block after which another one comes has not failed. -/
  earlier : blocks.Pairwise fun b _ => b.result env db = .ok ()
  failed : ∀ b ∈ blocks, ∀ e, b.result env db = .error e → (p.run env db w).1.1 = .error e

namespace Script.Bracketed

variable {env : Environment ι ρ σ} {db : Executor} {p : Script S α} {w v : World ρ σ}
  {blocks more : List (Block ι ρ σ)} {g : S → T} {f : α → S → Script T β} {s : S}

theorem nil (h : p.steps env db w = []) : Bracketed env db p w [] :=
  ⟨h, .nil, fun _ hb => absurd hb List.not_mem_nil⟩

theorem result_ok {a : α} (h : Bracketed env db p w blocks)
    (hr : p.run env db w = ((.ok a, s), v)) : ∀ b ∈ blocks, b.result env db = .ok () := by
  intro b hb
  cases hres : b.result env db with
  | ok u => rfl
  | error e =>
    have hfail := h.failed b hb e hres
    rw [hr] at hfail
    cases hfail

/-- A script that fails is all that is done. -/
theorem stop {e : Error} (h : Bracketed env db p w blocks)
    (hr : p.run env db w = ((.error e, s), v)) : Bracketed env db (p.andThen g f) w blocks where
  steps := (andThen_of_error hr).1.trans h.steps
  earlier := h.earlier
  failed b hb e' he := by
    have hfail := h.failed b hb e' he
    rw [hr] at hfail
    cases hfail
    rw [(andThen_of_error hr).2]

/-- The blocks of a script that succeeds are followed by those of what comes next. -/
theorem append {a : α} (h : Bracketed env db p w blocks)
    (hr : p.run env db w = ((.ok a, s), v)) (h' : Bracketed env db (f a s) v more) :
    Bracketed env db (p.andThen g f) w (blocks ++ more) where
  steps := by rw [(andThen_of_ok hr).1, h.steps, h'.steps, List.flatMap_append]
  earlier := List.pairwise_append.2 ⟨h.earlier, h'.earlier, fun b hb _ _ => h.result_ok hr b hb⟩
  failed := by
    rw [(andThen_of_ok hr).2]
    refine List.forall_mem_append.2 ⟨fun b hb e he => ?_, h'.failed⟩
    rw [h.result_ok hr b hb] at he
    cases he

/-- A script whose result is only handed on. -/
theorem handOn {g' : α → S → T} {k : α → β} (h : Bracketed env db p w blocks) :
    Bracketed env db (p.andThen g fun a s => .done (.ok (k a)) (g' a s)) w blocks := by
  rcases hr : p.run env db w with ⟨⟨e | a, s⟩, v⟩
  · exact h.stop hr
  · have rest : Bracketed env db (.done (.ok (k a)) (g' a s)) v [] := nil rfl
    simpa using h.append (g := g) (f := fun a s => .done (.ok (k a)) (g' a s)) hr rest

end Script.Bracketed

/-! ## One bracket -/

/-- What a bracket does is one block, if it is known of what its second hook is told; it fails only
where the block does. -/
theorem Program.bracket_bracketed (env : Environment ι ρ σ) (db : Executor) (kind : WriteKind)
    (pre post : WriteEvent) {work : Program S α} {closing : Program S WriteEvent}
    (g : S → List (Instance ι)) (s : S) (w : World ρ σ)
    (hclosing : ∀ a s' v, (work s).run env db (outcome (Executor.announce env kind.before pre) w).2 =
      ((.ok a, s'), v) → closing s' = .done (.ok post) s') :
    let b : Block ι ρ σ :=
      { kind, pre, post, start := w, work := (work s).andThen g fun _ s' => .done (.ok ()) (g s') }
    let script := bracket kind.before kind.after pre work closing s
    script.Bracketed env db w [b] ∧
      (b.result env db = .ok () → ∃ a, (script.run env db w).1.1 = .ok a) := by
  intro b script
  let close (a : α) (s' : S) : Script S α :=
    (closing s').andThen id fun e s'' => .announce kind.after e (.done (.ok a) s'')
  have steps : script.steps env db w =
      ⟨.announce kind.before pre, w, b.opened env⟩ ::
        ((work s).andThen id close).steps env db (b.opened env) := rfl
  have run : script.run env db w =
      ((work s).andThen id close).run env db (b.opened env) := rfl
  rcases hr : (work s).run env db (b.opened env) with ⟨⟨e | a, s'⟩, v⟩
  · have worked : b.worked env db = ((.error e, g s'), v) := (Script.andThen_of_error hr).2
    have between : b.between env db = (work s).steps env db (b.opened env) :=
      (Script.andThen_of_error hr).1
    refine ⟨⟨?_, List.pairwise_singleton _ _, List.forall_mem_singleton.2 fun e' he => ?_⟩,
      fun hok => ?_⟩
    · rw [steps, (Script.andThen_of_error hr).1, List.flatMap_singleton, Block.steps, between,
        Block.closing, Block.result, worked, List.append_nil]
    · rw [Block.result, worked] at he
      cases he
      rw [run, (Script.andThen_of_error hr).2]
    · rw [Block.result, worked] at hok
      cases hok
  · have worked : b.worked env db = ((.ok (), g s'), v) := (Script.andThen_of_ok hr).2
    have between : b.between env db = (work s).steps env db (b.opened env) :=
      (Script.andThen_of_ok hr).1.trans (List.append_nil _)
    have closed : close a s' = .announce kind.after post (.done (.ok a) s') := by
      dsimp only [close]
      rw [hclosing a s' v hr]
      rfl
    refine ⟨⟨?_, List.pairwise_singleton _ _, List.forall_mem_singleton.2 fun e' he => ?_⟩,
      fun _ => ⟨a, ?_⟩⟩
    · rw [steps, (Script.andThen_of_ok hr).1, List.flatMap_singleton, Block.steps, between,
        Block.closing, Block.result, worked, closed]
      rfl
    · rw [Block.result, worked] at he
      cases he
    · rw [run, (Script.andThen_of_ok hr).2, closed]
      rfl

end Orm
