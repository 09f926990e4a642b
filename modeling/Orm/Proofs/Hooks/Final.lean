import Orm.Proofs.Hooks.Verb
import Orm.Sample

/-
Hooks bracket writes: whatever the database answers, what a verb that writes does is a sequence of
blocks, each with the event before the write and, if nothing in it failed, the event after it.
-/

namespace Orm

variable {ι ρ σ : Type}

namespace Verb

/-- The verbs that write. -/
def writes : Verb ι → Bool
  | update _ _ | delete _ | create _ _ | bulkCreate _ _ | createInstance _ | updateInstance _
  | deleteInstance _ | saveObject _ => true
  | _ => false

/-- What the verb may do to rows that are there already. -/
def change? : Verb ι → Option WriteKind
  | update _ _ | updateInstance _ | saveObject _ => some .save
  | delete _ | deleteInstance _ => some .delete
  | _ => none

variable [DecidableEq ι] (env : Environment ι ρ σ) (db : Executor) (w : World ρ σ)

/-- What a verb that writes does: blocks that change rows which are there already, then blocks that
insert instances. -/
structure Bracketed (v : Verb ι) (changes inserts : List (Block ι ρ σ)) : Prop where
  performs : (v.script env).run env db w = (v.perform env db).run w
  /-- Every hook that is told of something and every statement belongs to a block. -/
  steps : (v.script env).steps env db w = (changes ++ inserts).flatMap (·.steps env db)
  course : Course env db w ((changes ++ inserts).flatMap (·.steps env db))
    ((v.perform env db).run w).2
  trace : ((v.perform env db).run w).2.trace =
    w.trace ++ (changes ++ inserts).flatMap fun b => (b.steps env db).flatMap Step.seen
  /-- No hook is told anything but at the beginning and at the end of a block. -/
  between : ∀ b ∈ changes ++ inserts, ∀ s ∈ b.between env db, ∀ kind event,
    s.deed ≠ .announce kind event
  /-- A block after which another one comes has not failed. -/
  earlier : (changes ++ inserts).Pairwise fun b _ => b.result env db = .ok ()
  failed : ∀ b ∈ changes ++ inserts, ∀ e, b.result env db = .error e →
    ((v.perform env db).run w).1.1 = .error e
  once : changes.length ≤ 1
  changed : ∀ b ∈ changes, ∃ kind, v.change? = some kind ∧ b.Changes env kind
  inserted : List.Forall₂ (Block.Inserts env db) (v.instances.take inserts.length) inserts
  /-- If no block has failed, the verb has written all there is to write, or could not begin the next
  block. -/
  settled : (∀ b ∈ changes ++ inserts, b.result env db = .ok ()) →
    v.Settles env ((v.perform env db).run w).1.1 changes.length inserts.length
  /-- An update with nothing to write is no block. -/
  nothing : ∀ p x, v = .update p x → updateFields env.schema p x = .ok [] →
    changes = [] ∧ inserts = []

end Verb

section

variable [DecidableEq ι] {env : Environment ι ρ σ} {db : Executor} {w : World ρ σ}

omit [DecidableEq ι] in
theorem Block.Changes.between {kind : WriteKind} {b : Block ι ρ σ} (h : b.Changes env kind) :
    ∀ s ∈ b.between env db, ∀ kind event, s.deed ≠ .announce kind event := by
  obtain ⟨st, hst⟩ := h.work
  have silent : b.work.Silent fun _ _ => True := by
    rw [hst]
    exact fun _ => trivial
  exact silent.steps _

theorem Block.Inserts.between {x : Instance ι} {b : Block ι ρ σ} (h : b.Inserts env db x) :
    ∀ s ∈ b.between env db, ∀ kind event, s.deed ≠ .announce kind event := by
  have silent : b.work.Silent fun _ _ => True := by
    rw [h.work]
    exact (Program.silent_insertion env x).andThen fun _ _ _ => trivial
  exact silent.steps _

theorem Verb.bracketed (v : Verb ι) {changes inserts : List (Block ι ρ σ)}
    (h : (v.script env).Writes env db v.change? v.instances (v.Settles env) w changes inserts)
    (hn : ∀ p x, v = .update p x → updateFields env.schema p x = .ok [] →
      changes = [] ∧ inserts = []) :
    v.Bracketed env db w changes inserts := by
  have performs : (v.script env).run env db w = (v.perform env db).run w := v.script_run w
  have course := Script.course env db (v.script env) w
  rw [performs, h.bracketed.steps] at course
  have trace := course.trace
  rw [List.flatMap_assoc] at trace
  refine ⟨performs, h.bracketed.steps, course, trace, ?_, h.bracketed.earlier, ?_, h.once, h.changed,
    h.inserted, ?_, hn⟩
  · refine List.forall_mem_append.2 ⟨fun b hb => ?_, ?_⟩
    · obtain ⟨kind, -, hchange⟩ := h.changed b hb
      exact hchange.between
    · exact forall_mem_of_forall₂ h.inserted fun x _ b hb => hb.between
  · rw [← performs]
    exact h.bracketed.failed
  · rw [← performs]
    exact h.settled

end

/-- What a verb that writes does is a sequence of blocks. Each begins with the event before the write and
ends with the event after it exactly if nothing between them failed; a block that fails is the last
one, and the verb fails with its error. -/
theorem hooks_bracket [DecidableEq ι] (env : Environment ι ρ σ) (db : Executor) (w : World ρ σ)
    (v : Verb ι) (hv : v.writes = true) :
    ∃ changes inserts, v.Bracketed env db w changes inserts := by
  cases v with
  | update p x =>
    obtain ⟨changes, h, hn⟩ := Program.update_writes env db p x [] w
    refine ⟨changes, [], Verb.bracketed _ h fun p' x' he hf => ?_⟩
    cases he
    exact ⟨hn hf, rfl⟩
  | delete p =>
    obtain ⟨changes, h⟩ := Program.delete_writes env db p [] w
    exact ⟨changes, [], Verb.bracketed _ h nofun⟩
  | create p x =>
    obtain ⟨inserts, h⟩ := Program.create_writes env db p x w
    exact ⟨[], inserts, Verb.bracketed _ h.on nofun⟩
  | bulkCreate p xs =>
    obtain ⟨inserts, h⟩ := Program.bulkCreate_writes env db p xs w
    exact ⟨[], inserts, Verb.bracketed _ h nofun⟩
  | createInstance x =>
    obtain ⟨inserts, h⟩ := Program.createInstance_writes env db x w
    have created : Script.Writes env db none [x] (Verb.Settles env (.createInstance x))
        (Program.createInstance env x) w [] inserts :=
      h.imp fun r hr => Ends.imp hr (fun _ => And.right) fun _ => id
    exact ⟨[], inserts, Verb.bracketed _ created.on nofun⟩
  | updateInstance x =>
    obtain ⟨changes, h⟩ := Program.updateInstance_writes env db [] x [] w
    exact ⟨changes, [], Verb.bracketed _ h nofun⟩
  | deleteInstance x =>
    obtain ⟨changes, h⟩ := Program.deleteInstance_writes env db x [] w
    exact ⟨changes, [], Verb.bracketed _ h nofun⟩
  | saveObject x =>
    obtain ⟨changes, inserts, h⟩ := Program.saveObject_writes env db x w
    exact ⟨changes, inserts, Verb.bracketed _ h.on nofun⟩
  | _ => cases hv

/-- A database that takes one new row and refuses every other one. -/
def Sample.oneRow : Environment Sample Unit Nat where
  schema := Sample.schema
  driver := "sqlite"
  dialect := .sqlite
  answer
    | .execute, _, _, n => ({ result := .ok (1 : Nat) }, n)
    | .query, _, _, n => ({ result := .ok ([] : List Row) }, n)
    | .insert, _, _, 0 => ({ result := .ok (.int 1) }, 1)
    | .insert, _, _, n => ({ result := .error (.driver "table is full") }, n)
  react _ _ := []
  receiverFires _ _ := []
  rowFires _ _ := []

/-- A world in which one receiver is told of everything. -/
def Sample.audited : World Unit Nat where
  outside := 0
  hooks kind := { name := kind.name, receivers := [("audit", ())] }

def Sample.newTag (label : String) : Instance Sample :=
  (Instance.new Sample.schema .tag).withSlot "label" (.scalar (.string label))

/-- The second tag is refused, so the hook after it is not told. The hook after the first one is told of
the key that the database gave it. -/
theorem secondTag_refused :
    let v : Verb Sample := .bulkCreate { model := .tag } [Sample.newTag "home", Sample.newTag "work"]
    let after := (v.perform Sample.oneRow .connection).run Sample.audited
    v.writes = true ∧
      (∃ changes inserts, v.Bracketed Sample.oneRow .connection Sample.audited changes inserts) ∧
      after.1.1 = .error (.driver "table is full") ∧
      after.2.trace.map (fun | .hook kind _ e => some (kind, e.pk) | .request _ _ _ => none) =
        [some (.preSave, .int 0), none, some (.postSave, .int 1), some (.preSave, .int 0), none] :=
  ⟨rfl, hooks_bracket _ _ _ _ rfl, rfl, rfl⟩

end Orm
