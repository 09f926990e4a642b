import Orm.Proofs.Cancellation.Session
import Orm.Sample

/-
A token that has fired is final: for every verb and call through its scope, at whatever moment it
fires, and for everything that is done through the scope from then on.
-/

namespace Orm

variable {S ι ρ σ α : Type} {t : Token}

/-! ## Scripts do not know of tokens -/

theorem createEach_without [DecidableEq ι] (env : Environment ι ρ σ) (xs : List (Instance ι)) :
    Program.createEach (env.without t) xs = Program.createEach env xs := by
  induction xs with
  | nil => rfl
  | cons x xs ih =>
    rw [Program.createEach, Program.createEach, ih]
    rfl

theorem Verb.script_without [DecidableEq ι] (v : Verb ι) (env : Environment ι ρ σ) :
    v.script (env.without t) = v.script env := by
  cases v with
  | bulkCreate p xs =>
    rw [script, script, Program.bulkCreate, Program.bulkCreate, createEach_without]
    rfl
  | _ => rfl

/-! ## Verbs and calls -/

section

variable [DecidableEq ι] (env : Environment ι ρ σ) (db : Executor) (t : Token) (w : World ρ σ)

/-- What comes of a verb while a token is watched. Its script says what it goes on to do; its steps are
the statements that it asks for, the rows that it reads and the hooks that it tells. -/
structure Verb.Watched (v : Verb ι) : Prop where
  performs : (v.script env).run env db w = (v.perform env db).run w
  /-- The same without the token. -/
  undisturbed : (v.script env).run (env.without t) db (w.without t) =
    (v.perform (env.without t) db).run (w.without t)
  /-- The steps account for all that the outside notices. -/
  trace : ((v.perform env db).run w).2.trace =
    w.trace ++ ((v.script env).steps env db w).flatMap Step.seen
  inTime : ((v.script env).steps env db w).Pairwise fun s s' => s.after.fired ⊆ s'.before.fired
  /-- No statement is sent once the token has fired. -/
  unsent : ∀ s ∈ (v.script env).steps env db w, ∀ kind sql args, s.deed = .request kind sql args →
    t ∈ s.before.fired → s.after = s.before
  /-- The verb is cancelled at the first step that the token stops, or is not affected by it. -/
  settled : (v.script env).Unstopped env db t w ∨ (v.script env).Stopped env db t w
  /-- What it gives is what it gives without the token, and not a part of it. -/
  whole : ∀ a, ((v.perform env db).run w).1.1 = .ok a →
    ((v.perform (env.without t) db).run (w.without t)).1.1 = .ok a

/-- What comes of a call that is made before the token has fired. -/
structure Called (kind : RequestKind) (sql : String) (args : List Value) : Prop where
  pending : t ∉ w.fired → Pending env t kind sql args w (outcome (db.call env kind sql args) w).2 →
    (outcome (db.call env kind sql args) w).1 = .error .cancelled
  passed : t ∉ w.fired →
    ¬ Pending env t kind sql args w (outcome (db.call env kind sql args) w).2 →
    outcome (db.call (env.without t) kind sql args) (w.without t) =
      ((outcome (db.call env kind sql args) w).1,
        (outcome (db.call env kind sql args) w).2.without t)

end

section

variable {env : Environment ι ρ σ} {db : Executor} {w : World ρ σ}

theorem Verb.watched [DecidableEq ι] (hdb : db.token? = some t) (v : Verb ι) :
    v.Watched env db t w := by
  have performs : (v.script env).run env db w = _ := v.script_run w
  have undisturbed : (v.script env).run (env.without t) db (w.without t) =
      (v.perform (env.without t) db).run (w.without t) := by
    rw [← v.script_run, v.script_without]
  have course := Script.course env db (v.script env) w
  have settled : (v.script env).Unstopped env db t w ∨ (v.script env).Stopped env db t w :=
    Script.unstopped_or_stopped _ w hdb
  refine ⟨performs, undisturbed, ?_, course.inTime, ?_, settled, ?_⟩
  · rw [← performs]
    exact course.trace
  · intro s hs kind sql args hd ht
    have made := course.made s hs
    cases made with
    | request kind sql args v => exact congrArg Prod.snd (sent_of_fired hdb ht env kind sql args)
    | _ => cases hd
  · intro a ha
    rw [← performs] at ha
    rw [← undisturbed]
    rcases settled with h | h
    · rw [h.outcome, ha]
    · rw [h.cancelled] at ha
      cases ha

theorem called (hdb : db.token? = some t) (kind : RequestKind) (sql : String)
    (args : List Value) : Called env db t w kind sql args := by
  refine ⟨fun ht hp => ?_, fun ht hp => ?_⟩
  · rcases call_cases hdb ht env kind sql args with h | h
    · exact h.2
    · exact absurd hp h.1
  · rcases call_cases hdb ht env kind sql args with h | h
    · exact absurd h.1 hp
    · exact h.2

end

/-! ## Everything done through a scope -/

/-- Whatever is done through the scope of a token, and whenever the token fires. From then on nothing
is sent, and every use but a verb fails, with `cancelled` unless it goes through a transaction that has
ended. A verb or a call during which the token fires is cancelled if a statement was on its way, and a
verb also if a statement or a row would have come next; otherwise it is what it would have been. -/
theorem session_cancelled [DecidableEq ι] (env : Environment ι ρ σ) (t : Token)
    {w last : World ρ σ} {uses : List (Use ι × World ρ σ)} (h : Session env t w uses last) :
    (uses.Pairwise fun u u' => t ∈ (u.1.made env u.2).2.fired → t ∈ u'.2.fired) ∧
    ∀ u ∈ uses,
      (t ∈ u.2.fired → Untouched t u.2 (u.1.made env u.2).2) ∧
      (t ∈ u.2.fired → (∀ db v, u.1 ≠ .verb db v) →
        ∃ e, u.1.made env u.2 = (some e, u.2) ∧ (u.1.executor.Live u.2 → e = .cancelled)) ∧
      (∀ db v, u.1 = .verb db v → v.Watched env db t u.2) ∧
      ∀ db kind sql args, u.1 = .call db kind sql args → Called env db t u.2 kind sql args := by
  refine ⟨h.inTime, fun u hu => ?_⟩
  have watched := h.watched u hu
  refine ⟨fun ht => Use.made_untouched watched ht env, fun ht => Use.made_of_fired watched ht env,
    ?_, ?_⟩
  · rintro db v he
    rw [he] at watched
    exact v.watched watched
  · rintro db kind sql args he
    rw [he] at watched
    exact called watched kind sql args

/-- A database with two tags, where the token `stop` fires before the second one is read. -/
def Sample.interrupted : Environment Sample Empty Unit where
  schema := Sample.schema
  driver := "sqlite"
  dialect := .sqlite
  answer
    | .execute, _, _, _ => ({ result := .ok (1 : Nat) }, ())
    | .query, _, _, _ =>
      ({ result := .ok
          [{ columns := ["id", "label"], values := [.int 1, .string "home"], sameLength := rfl },
           { columns := ["id", "label"], values := [.int 2, .string "work"], sameLength := rfl }] },
        ())
    | .insert, _, _, _ => ({ result := .ok (.int 3) }, ())
  react := nofun
  receiverFires := nofun
  rowFires _ i := if i = 1 then ["stop"] else []

def Sample.scope : Executor := .watched "stop" .connection

def Sample.readTags : Use Sample := .verb Sample.scope (.all { model := .tag })

/-- The tag that has been read is not handed out, and neither a call nor a transaction gets through to
the database any more. -/
theorem readTags_cancelled :
    let w : World Empty Unit := { outside := () }
    let v := (Sample.readTags.made Sample.interrupted w).2
    let call : Use Sample := .call Sample.scope .execute "DELETE FROM tags" []
    let begin : Use Sample := .start Sample.scope
    Session Sample.interrupted "stop" w [(Sample.readTags, w), (call, v), (begin, v)] v ∧
      (Verb.all { model := .tag }).Watched Sample.interrupted Sample.scope "stop" w ∧
      (Sample.readTags.made Sample.interrupted w).1 = some .cancelled ∧
      v.requests.length = 1 ∧ "stop" ∈ v.fired ∧
      call.made Sample.interrupted v = (some .cancelled, v) ∧
      begin.made Sample.interrupted v = (some .cancelled, v) := by
  intro w v call begin
  have h : Session Sample.interrupted "stop" w [(Sample.readTags, w), (call, v), (begin, v)] v :=
    .use rfl (.use rfl (.use rfl (.done _)))
  obtain ⟨later, each⟩ := session_cancelled Sample.interrupted "stop" h
  have fired : "stop" ∈ v.fired := by
    rw [show v.fired = ["stop"] from rfl]
    exact List.mem_singleton_self _
  obtain ⟨e, he, live⟩ := (each (call, v) (by simp)).2.1 fired nofun
  obtain ⟨e', he', live'⟩ := (each (begin, v) (by simp)).2.1 fired nofun
  refine ⟨h, (each (Sample.readTags, w) (by simp)).2.2.1 _ _ rfl, rfl, rfl, fired, ?_, ?_⟩
  · exact live trivial ▸ he
  · exact live' trivial ▸ he'

end Orm
