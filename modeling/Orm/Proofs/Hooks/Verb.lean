import Orm.Proofs.Hooks.Block
import Orm.Proofs.Script.Performs

/-
The blocks of the verbs that write: at most one that changes rows which are there already, and then one
for each instance that is inserted, in the order in which the verb was given them.
-/

namespace Orm

variable {S T ι ρ σ α β : Type}

/-! ## Two kinds of blocks -/

/-- One statement, and the same event before and after it. -/
structure Block.Changes (env : Environment ι ρ σ) (kind : WriteKind) (b : Block ι ρ σ) : Prop where
  same_kind : b.kind = kind
  work : ∃ s : Statement, b.work =
    .request [] .execute (s.sql.print env.dialect) s.args fun _ => .done (.ok ()) []
  post : b.post = b.pre

/-- The INSERT of an instance. The event after it is that of the instance as it is then, and differs
in what the database has filled in. -/
structure Block.Inserts [DecidableEq ι] (env : Environment ι ρ σ) (db : Executor) (x : Instance ι)
    (b : Block ι ρ σ) : Prop where
  same_kind : b.kind = .save
  pre : WriteEvent.ofInstance env.schema env.driver x true = .ok b.pre
  work : b.work = (Program.insertion env).on x
  post : b.result env db = .ok () → ∃ x', b.left env db = [x'] ∧
    WriteEvent.ofInstance env.schema env.driver x' true = .ok b.post ∧
    b.pre.FilledIn env.schema x b.post

/-- The blocks of a script: those that change rows and those that insert instances. If none of them has
failed, then the result and their numbers are as `settles` says. -/
structure Script.Writes [DecidableEq ι] (env : Environment ι ρ σ) (db : Executor)
    (kind? : Option WriteKind) (xs : List (Instance ι)) (settles : Result α → Nat → Nat → Prop)
    (p : Script S α) (w : World ρ σ) (changes inserts : List (Block ι ρ σ)) : Prop where
  bracketed : p.Bracketed env db w (changes ++ inserts)
  once : changes.length ≤ 1
  changed : ∀ b ∈ changes, ∃ kind, kind? = some kind ∧ b.Changes env kind
  inserted : List.Forall₂ (Block.Inserts env db) (xs.take inserts.length) inserts
  settled : (∀ b ∈ changes ++ inserts, b.result env db = .ok ()) →
    settles (p.run env db w).1.1 changes.length inserts.length

section

variable [DecidableEq ι] {env : Environment ι ρ σ} {db : Executor} {w v : World ρ σ}
  {kind? : Option WriteKind} {xs : List (Instance ι)} {settles : Result α → Nat → Nat → Prop}

namespace Script.Writes

variable {p : Script S α} {changes inserts : List (Block ι ρ σ)} {s : S}

theorem nil (hs : p.steps env db w = []) (hp : settles (p.run env db w).1.1 0 0) :
    Writes env db kind? xs settles p w [] [] :=
  ⟨.nil hs, Nat.zero_le 1, fun _ hb => absurd hb List.not_mem_nil, .nil, fun _ => hp⟩

theorem report {l : Log}
    (h : Writes env db kind? xs settles p { w with log := w.log ++ l } changes inserts) :
    Writes env db kind? xs settles (.report l p) w changes inserts :=
  ⟨⟨h.bracketed.steps, h.bracketed.earlier, h.bracketed.failed⟩, h.once, h.changed, h.inserted,
    h.settled⟩

theorem settled_ok {a : α} (h : Writes env db kind? xs settles p w changes inserts)
    (hr : p.run env db w = ((.ok a, s), v)) :
    settles (.ok a) changes.length inserts.length := by
  have hok := h.settled (h.bracketed.result_ok hr)
  rwa [hr] at hok

theorem stop {g : S → T} {f : α → S → Script T β} {settles' : Result β → Nat → Nat → Prop}
    {e : Error} (h : Writes env db kind? xs settles p w changes inserts)
    (hr : p.run env db w = ((.error e, s), v))
    (hs : settles (.error e) changes.length inserts.length →
      settles' (.error e) changes.length inserts.length) :
    Writes env db kind? xs settles' (p.andThen g f) w changes inserts := by
  refine ⟨h.bracketed.stop hr, h.once, h.changed, h.inserted, fun hok => ?_⟩
  have hfail := h.settled hok
  rw [hr] at hfail
  rw [(andThen_of_error hr).2]
  exact hs hfail

/-- Rows that are changed, and instances that are inserted afterwards. -/
theorem append {g : S → T} {f : α → S → Script T β} {more settles' : Result β → Nat → Nat → Prop}
    {a : α} (h : Writes env db kind? xs settles p w changes [])
    (hr : p.run env db w = ((.ok a, s), v)) (h' : Writes env db none xs more (f a s) v [] inserts)
    (hs : ∀ r, settles (.ok a) changes.length 0 → more r 0 inserts.length →
      settles' r changes.length inserts.length) :
    Writes env db kind? xs settles' (p.andThen g f) w changes inserts := by
  have blocks : (p.andThen g f).Bracketed env db w (changes ++ [] ++ ([] ++ inserts)) :=
    h.bracketed.append hr h'.bracketed
  rw [List.append_nil, List.nil_append] at blocks
  refine ⟨blocks, h.once, h.changed, h'.inserted, fun hok => ?_⟩
  rw [(andThen_of_ok hr).2]
  exact hs _ (h.settled_ok hr) (h'.settled (List.forall_mem_append.1 hok).2)

theorem imp {settles' : Result α → Nat → Nat → Prop}
    (h : Writes env db kind? xs settles p w changes inserts)
    (hs : ∀ r, settles r changes.length inserts.length →
      settles' r changes.length inserts.length) :
    Writes env db kind? xs settles' p w changes inserts :=
  ⟨h.bracketed, h.once, h.changed, h.inserted, fun hok => hs _ (h.settled hok)⟩

theorem handOn {settles' : Result β → Nat → Nat → Prop} {g : S → T} {g' : α → S → T} {k : α → β}
    (h : Writes env db kind? xs settles p w changes inserts)
    (hs : ∀ r, settles r changes.length inserts.length →
      settles' (r.map k) changes.length inserts.length) :
    Writes env db kind? xs settles' (p.andThen g fun a s => .done (.ok (k a)) (g' a s)) w changes
      inserts := by
  refine ⟨h.bracketed.handOn, h.once, h.changed, h.inserted, fun hok => ?_⟩
  have hall := hs _ (h.settled hok)
  rcases hr : p.run env db w with ⟨⟨e | a, s⟩, v⟩
  · rw [hr] at hall
    rw [(andThen_of_error hr).2]
    exact hall
  · rw [hr] at hall
    rw [(andThen_of_ok hr).2]
    exact hall

theorem on {p : Program (Instance ι) α} {x : Instance ι}
    (h : Writes env db kind? xs settles (p x) w changes inserts) :
    Writes env db kind? xs settles (p.on x) w changes inserts :=
  h.handOn fun r hr => by cases r <;> exact hr

end Script.Writes

variable (env db)

/-! ## One write -/

theorem Program.bracketed_writes (kind : WriteKind) (xs : List (Instance ι)) (event : WriteEvent)
    (st : Statement) (s : S) (w : World ρ σ) :
    ∃ b, Script.Writes env db (some kind) xs (fun r n _ => Ends (fun _ => False) (fun _ => n = 1) r)
      (bracketed env kind.before kind.after event st s) w [b] [] := by
  let b : Block ι ρ σ :=
    { kind, pre := event, post := event, start := w
      work := .request [] .execute (st.sql.print env.dialect) st.args fun _ => .done (.ok ()) [] }
  have block : (bracketed env kind.before kind.after event st s).Bracketed env db w [b] ∧
      (b.result env db = .ok () →
        ∃ n, ((bracketed env kind.before kind.after event st s).run env db w).1.1 = .ok n) :=
    bracket_bracketed env db kind event event (fun _ => []) s w fun _ _ _ _ => rfl
  refine ⟨b, block.1, Nat.le_refl 1, List.forall_mem_singleton.2 ⟨kind, rfl, rfl, ⟨st, rfl⟩, rfl⟩,
    .nil, fun hok => ?_⟩
  obtain ⟨n, hn⟩ := block.2 (hok b (List.mem_singleton_self b))
  rw [hn]
  exact .of_ok rfl

theorem Program.createInstance_eq (x : Instance ι) :
    createInstance env x =
      match WriteEvent.ofInstance env.schema env.driver x true with
      | .error e => .done (.error e) x
      | .ok pre => bracket .preSave .postSave pre (insertion env) (insertEvent env) x := by
  change Script.andThen id _ (.done (WriteEvent.ofInstance env.schema env.driver x true) x) = _
  cases WriteEvent.ofInstance env.schema env.driver x true <;> rfl

/-- If an INSERT succeeds, there is an event of which to tell the hook after it. -/
theorem Program.insertion_event {x : Instance ι} {pre : WriteEvent}
    (hpre : WriteEvent.ofInstance env.schema env.driver x true = .ok pre) (w : World ρ σ) :
    ∃ post, ∀ a x' v, (insertion env x).run env db w = ((.ok a, x'), v) →
      WriteEvent.ofInstance env.schema env.driver x' true = .ok post ∧
        pre.FilledIn env.schema x post := by
  rcases hr : (insertion env x).run env db w with ⟨⟨e | a, x'⟩, v⟩
  · exact ⟨pre, fun _ _ _ h => nomatch h⟩
  · obtain ⟨c, hcompile, hfilled⟩ := (silent_insertion env x).of_run hr
    obtain ⟨post, hpost, hdiffers⟩ := WriteEvent.ofInstance_filled
      (Instance.generated_of_compileInsert hcompile) hfilled hpre
    refine ⟨post, fun _ _ _ h => ?_⟩
    cases h
    exact ⟨hpost, hdiffers⟩

/-- Inserting an instance is one block, unless there is no event of which to tell the hook before it. -/
theorem Program.createInstance_writes (x : Instance ι) (w : World ρ σ) :
    ∃ inserts, Script.Writes env db none [x]
      (fun r _ n => Ends
        (fun e => n = 0 ∧ WriteEvent.ofInstance env.schema env.driver x true = .error e)
        (fun _ => n = 1) r)
      (createInstance env x) w [] inserts := by
  rw [createInstance_eq]
  cases hpre : WriteEvent.ofInstance env.schema env.driver x true with
  | error e => exact ⟨[], .nil rfl (.of_error ⟨rfl, rfl⟩)⟩
  | ok pre =>
    obtain ⟨post, hpost⟩ :=
      insertion_event env db hpre (outcome (Executor.announce env .preSave pre) w).2
    let b : Block ι ρ σ :=
      { kind := .save, pre, work := (insertion env).on x, post, start := w }
    let script := bracket .preSave .postSave pre (insertion env) (insertEvent env) x
    have block : script.Bracketed env db w [b] ∧
        (b.result env db = .ok () → ∃ a, (script.run env db w).1.1 = .ok a) := by
      refine bracket_bracketed env db .save pre post ([·]) x w fun a x' v hr => ?_
      change Script.done (WriteEvent.ofInstance env.schema env.driver x' true) x' = _
      rw [(hpost a x' v hr).1]
    refine ⟨[b], block.1, Nat.zero_le 1, fun _ hb => absurd hb List.not_mem_nil,
      .cons ⟨rfl, hpre, rfl, fun hok => ?_⟩ .nil, fun hok => ?_⟩
    · rcases hr : (insertion env x).run env db (b.opened env) with ⟨⟨e | a, x'⟩, v⟩
      · have worked : b.worked env db = ((.error e, [x']), v) := (Script.andThen_of_error hr).2
        rw [Block.result, worked] at hok
        cases hok
      · have worked : b.worked env db = ((.ok (), [x']), v) := (Script.andThen_of_ok hr).2
        exact ⟨x', by rw [Block.left, worked], hpost a x' v hr⟩
    · obtain ⟨a, ha⟩ := block.2 (hok b (List.mem_singleton_self b))
      change Ends _ _ (script.run env db w).1.1
      rw [ha]
      exact .of_ok rfl

/-! ## Verbs -/

/-- Why a verb cannot begin a write: its query has a mistake, or a statement or an event cannot be put
together. Of a list of instances, so many have been inserted by then. -/
def Verb.Unready (env : Environment ι ρ σ) : Verb ι → (inserts : Nat) → Error → Prop
  | update p x, _, e =>
    p.check = .error e ∨ (p.filters = [] ∧ e = .unsafeUpdate (env.schema p.model).table) ∨
      updateFields env.schema p x = .error e ∨ compileUpdate env.schema p x = .error e
  | delete p, _, e => compileDelete env.schema p = .error e
  | updateInstance x, _, e =>
    (do compileUpdate env.schema (← env.rowOf x).savingAll x : Result _) = .error e ∨
      WriteEvent.ofInstance env.schema env.driver x false = .error e
  | deleteInstance x, _, e =>
    (do compileDelete env.schema (← env.rowOf x) : Result _) = .error e ∨
      WriteEvent.ofInstance env.schema env.driver x false = .error e
  | create p x, _, e =>
    p.check = .error e ∨ WriteEvent.ofInstance env.schema env.driver x true = .error e
  | bulkCreate p xs, n, e =>
    p.check = .error e ∨
      ∃ x, xs[n]? = some x ∧ WriteEvent.ofInstance env.schema env.driver x true = .error e
  | createInstance x, _, e => WriteEvent.ofInstance env.schema env.driver x true = .error e
  | saveObject x, _, e =>
    x.key env.schema = .error e ∨
      (do compileUpdate env.schema (← env.rowOf x).savingAll x : Result _) = .error e ∨
      WriteEvent.ofInstance env.schema env.driver x false = .error e ∨
      WriteEvent.ofInstance env.schema env.driver x true = .error e
  | _, _, _ => False

/-- How often a verb with such a reply has changed rows, and how many it has inserted. -/
def Verb.Counts : (v : Verb ι) → v.Reply → (changes inserts : Nat) → Prop
  | update _ _, (affected : Nat), changes, _ => changes = 0 → affected = 0
  | delete _, _, changes, _ | updateInstance _, _, changes, _ | deleteInstance _, _, changes, _ =>
    changes = 1
  | create _ _, _, _, inserts | createInstance _, _, _, inserts => inserts = 1
  | bulkCreate _ xs, (inserted : Nat), _, inserts => inserted = xs.length ∧ inserts = xs.length
  | saveObject _, (inserted : Bool), changes, inserts =>
    if inserted then inserts = 1 else changes = 1 ∧ inserts = 0
  | _, _, _, _ => True

/-- What a verb gives if nothing fails in its blocks: it has written all there is to write, or could
not begin the next write. -/
def Verb.Settles (env : Environment ι ρ σ) (v : Verb ι) (r : Result v.Reply)
    (changes inserts : Nat) : Prop :=
  Ends (v.Unready env inserts) (fun a => v.Counts a changes inserts) r

namespace Program

/-- With nothing to write there is no block. -/
theorem update_writes (p : Plan ι) (x : Instance ι) (s : S) (w : World ρ σ) :
    ∃ changes, Script.Writes env db (some .save) [] (Verb.Settles env (.update p x))
        (update env p x s) w changes [] ∧
      (updateFields env.schema p x = .ok [] → changes = []) := by
  unfold update
  rcases hcheck : p.check with e | u
  · exact ⟨[], .nil rfl (.of_error (.inl hcheck)), fun _ => rfl⟩
  cases hfilters : p.filters.isEmpty with
  | true =>
    have hnil := List.isEmpty_iff.1 hfilters
    exact ⟨[], .nil rfl (.of_error (.inr (.inl ⟨hnil, rfl⟩))), fun _ => rfl⟩
  | false =>
    rcases hfields : updateFields env.schema p x with e | _ | ⟨written, rest⟩
    · exact ⟨[], .nil rfl (.of_error (.inr (.inr (.inl hfields)))), fun _ => rfl⟩
    · exact ⟨[], .nil rfl (.of_ok fun _ => rfl), fun _ => rfl⟩
    · rcases hc : compileUpdate env.schema p x with e | c
      · exact ⟨[], .nil rfl (.of_error (.inr (.inr (.inr hc)))), fun _ => rfl⟩
      · obtain ⟨b, hb⟩ := bracketed_writes env db .save []
          (.ofQuery env p ((written :: rest).map fun q => (q.1.name, q.2))) c.statement s _
        refine ⟨[b], .imp hb.report fun r hr => hr.imp (fun _ => False.elim) fun _ hone hnone => ?_,
          fun hnil => ?_⟩
        · cases hone.symm.trans hnone
        · cases hnil

theorem delete_writes (p : Plan ι) (s : S) (w : World ρ σ) :
    ∃ changes, Script.Writes env db (some .delete) [] (Verb.Settles env (.delete p))
      (delete env p s) w changes [] := by
  unfold delete
  rcases hc : compileDelete env.schema p with e | c
  · exact ⟨[], .nil rfl (.of_error hc)⟩
  · obtain ⟨b, hb⟩ := bracketed_writes env db .delete [] (.ofQuery env p []) c.statement s _
    exact ⟨[b], .imp hb.report fun r hr => hr.imp (fun _ => False.elim) fun _ => id⟩

theorem updateInstance_writes (xs : List (Instance ι)) (x : Instance ι) (s : S) (w : World ρ σ) :
    ∃ changes, Script.Writes env db (some .save) xs (Verb.Settles env (.updateInstance x))
      (updateInstance env x s) w changes [] := by
  unfold updateInstance
  rcases hc : (do compileUpdate env.schema (← env.rowOf x).savingAll x : Result (Compiled ι))
    with e | c
  · exact ⟨[], .nil rfl (.of_error (.inl hc))⟩
  rcases hevent : WriteEvent.ofInstance env.schema env.driver x false with e | event
  · exact ⟨[], .nil rfl (.of_error (.inr hevent))⟩
  · obtain ⟨b, hb⟩ := bracketed_writes env db .save xs event c.statement s w
    exact ⟨[b], .imp hb fun r hr => hr.imp (fun _ => False.elim) fun _ => id⟩

theorem deleteInstance_writes (x : Instance ι) (s : S) (w : World ρ σ) :
    ∃ changes, Script.Writes env db (some .delete) [] (Verb.Settles env (.deleteInstance x))
      (deleteInstance env x s) w changes [] := by
  unfold deleteInstance
  rcases hc : (do compileDelete env.schema (← env.rowOf x) : Result (Compiled ι)) with e | c
  · exact ⟨[], .nil rfl (.of_error (.inl hc))⟩
  rcases hevent : WriteEvent.ofInstance env.schema env.driver x false with e | event
  · exact ⟨[], .nil rfl (.of_error (.inr hevent))⟩
  · obtain ⟨b, hb⟩ := bracketed_writes env db .delete [] event c.statement s w
    exact ⟨[b], .imp hb fun r hr => hr.imp (fun _ => False.elim) fun _ => id⟩

/-- One block for each instance, in order, up to the first one that fails or cannot begin. -/
theorem createEach_writes (xs : List (Instance ι)) (w : World ρ σ) :
    ∃ inserts, Script.Writes env db none xs
      (fun r _ n => Ends
        (fun e => ∃ x, xs[n]? = some x ∧
          WriteEvent.ofInstance env.schema env.driver x true = .error e)
        (fun m => m = xs.length ∧ n = xs.length) r)
      (createEach env xs) w [] inserts := by
  induction xs generalizing w with
  | nil => exact ⟨[], .nil rfl (.of_ok ⟨rfl, rfl⟩)⟩
  | cons x rest ih =>
    obtain ⟨first, hfirst⟩ := createInstance_writes env db x w
    rcases hr : (createInstance env x).run env db w with ⟨⟨e | u, x'⟩, v⟩
    · refine ⟨first, hfirst.bracketed.stop hr, hfirst.once, hfirst.changed, ?_, fun hok => ?_⟩
      · rcases first with _ | ⟨b, _ | ⟨b', more⟩⟩
        · exact .nil
        · exact hfirst.inserted
        · cases hfirst.inserted with
          | cons _ h => cases h
      · have hfail := hfirst.settled hok
        rw [hr] at hfail
        obtain ⟨hnone, hevent⟩ := hfail.fault_of_error rfl
        rw [createEach, (Script.andThen_of_error hr).2, hnone]
        exact .of_error ⟨x, rfl, hevent⟩
    · obtain ⟨more, hmore⟩ := ih v
      have next : Script.Writes env db none rest
          (fun r _ n => Ends
            (fun e => ∃ x, rest[n]? = some x ∧
              WriteEvent.ofInstance env.schema env.driver x true = .error e)
            (fun m => m = (x :: rest).length ∧ n = rest.length) r)
          ((createEach env rest).andThen (x' :: ·) fun n rest => .done (.ok (n + 1)) (x' :: rest)) v
          [] more :=
        hmore.handOn fun r hr => hr.map fun n h => ⟨congrArg (· + 1) h.1, h.2⟩
      obtain ⟨b, rfl⟩ := List.length_eq_one_iff.1 (hfirst.settled_ok hr)
      refine ⟨b :: more, hfirst.bracketed.append hr next.bracketed, Nat.zero_le 1,
        fun _ hb => absurd hb List.not_mem_nil, ?_, fun hok => ?_⟩
      · cases hfirst.inserted with
        | cons hb _ => exact .cons hb next.inserted
      · rw [createEach, (Script.andThen_of_ok hr).2]
        refine (next.settled (List.forall_mem_cons.1 hok).2).imp (fun e he => he) fun m hm => ?_
        exact ⟨hm.1, congrArg (· + 1) hm.2⟩

theorem create_writes (p : Plan ι) (x : Instance ι) (w : World ρ σ) :
    ∃ inserts, Script.Writes env db none [x] (Verb.Settles env (.create p x)) (create env p x) w []
      inserts := by
  unfold create
  rcases hcheck : p.check with e | u
  · exact ⟨[], .nil rfl (.of_error (.inl hcheck))⟩
  · obtain ⟨inserts, h⟩ := createInstance_writes env db x _
    exact ⟨inserts, .imp h.report fun r hr => hr.imp (fun _ he => .inr he.2) fun _ => id⟩

theorem bulkCreate_writes (p : Plan ι) (xs : List (Instance ι)) (w : World ρ σ) :
    ∃ inserts, Script.Writes env db none xs (Verb.Settles env (.bulkCreate p xs))
      (bulkCreate env p xs) w [] inserts := by
  unfold bulkCreate
  rcases hcheck : p.check with e | u
  · exact ⟨[], .nil rfl (.of_error (.inl hcheck))⟩
  · obtain ⟨inserts, h⟩ := createEach_writes env db xs _
    exact ⟨inserts, .imp h.report fun r hr => hr.imp (fun _ => .inr) fun _ => id⟩

/-- An update, and an INSERT where there is no row to update. -/
theorem saveObject_writes (x : Instance ι) (w : World ρ σ) :
    ∃ changes inserts, Script.Writes env db (some .save) [x] (Verb.Settles env (.saveObject x))
      (saveObject env x) w changes inserts := by
  let insert : Script (Instance ι) Bool :=
    (createInstance env x).andThen id fun _ x' => .done (.ok true) x'
  have inserted (w : World ρ σ) : ∃ inserts, Script.Writes env db none [x]
      (fun r _ n => Ends
        (fun e => WriteEvent.ofInstance env.schema env.driver x true = .error e)
        (fun inserted => inserted = true ∧ n = 1) r) insert w [] inserts := by
    obtain ⟨inserts, h⟩ := createInstance_writes env db x w
    refine ⟨inserts, h.handOn fun r hr => ?_⟩
    exact (Ends.imp hr (fun _ => And.right) fun _ hn => hn).map fun _ hn => ⟨rfl, hn⟩
  change ∃ changes inserts, Script.Writes env db (some .save) [x] _
    (Script.andThen id _ (.done (x.key env.schema) x)) w changes inserts
  rcases hkey : x.key env.schema with e | key
  · exact ⟨[], [], .nil rfl (.of_error (.inl hkey))⟩
  change ∃ changes inserts, Script.Writes env db (some .save) [x] _
    ((if key.isZero then _ else _ : Program (Instance ι) Bool) x) w changes inserts
  cases key.isZero with
  | true =>
    obtain ⟨inserts, h⟩ := inserted w
    refine ⟨[], inserts, h.bracketed, h.once, fun _ hb => absurd hb List.not_mem_nil, h.inserted,
      fun hok => (h.settled hok).imp (fun _ he => .inr (.inr (.inr he))) fun a ha => ?_⟩
    rw [Verb.Counts, ha.1]
    exact ha.2
  | false =>
    obtain ⟨changes, hc⟩ := updateInstance_writes env db [x] x x w
    let follow (affected : Nat) (x' : Instance ι) : Script (Instance ι) Bool :=
      (if affected = 0 then (do createInstance env; return true) else return false :
        Program (Instance ι) Bool) x'
    change ∃ changes inserts, Script.Writes env db (some .save) [x] _
      ((updateInstance env x x).andThen id follow) w changes inserts
    have kept : ((updateInstance env x x).run env db w).1.2 = x := by
      rw [updateInstance_performs x x w]
      rfl
    rcases hr : (updateInstance env x x).run env db w with ⟨⟨e | _ | n, x'⟩, v⟩
    · exact ⟨changes, [], hc.stop hr fun he =>
        .of_error (.inr (Or.imp_right .inl (he.fault_of_error rfl)))⟩
    · rw [hr] at kept
      obtain rfl : x = x' := kept.symm
      obtain ⟨inserts, h⟩ := inserted v
      refine ⟨changes, inserts, hc.append hr h fun r _ hrest =>
        hrest.imp (fun _ he => .inr (.inr (.inr he))) fun a ha => ?_⟩
      rw [Verb.Counts, ha.1]
      exact ha.2
    · have still : Script.Writes env db none [x]
          (fun r _ k => r = .ok false ∧ k = 0) (follow (n + 1) x') v [] [] :=
        .nil rfl ⟨rfl, rfl⟩
      refine ⟨changes, [], hc.append hr still fun r hn hrest => ?_⟩
      rw [hrest.1]
      exact .of_ok ⟨hn, rfl⟩

end Program

end

end Orm
