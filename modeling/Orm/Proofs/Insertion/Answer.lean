import Orm.Proofs.Alike.Saved
import Orm.Proofs.Keys.Writing

/-
An INSERT divides the columns of an instance: those that it binds values to, in the order of their
declaration, and those that it leaves to the database (`Instance.Split`). Every instance whose columns
can be read is divided so (`compileInsert_split`, `exists_compileInsert`).

An insertion has two parts: what the database brings back (`Environment.generated`), which the instance
does not notice, and writing that to the instance, of which the database does not hear any more
(`insert_run`). So there are four ways in which an insertion ends (`Environment.Inserted`).
-/

namespace Orm

/-! ## Columns -/

section

variable {ι : Type} {schema : Schema ι} {x : Instance ι} {c : Compiled ι}

namespace Instance

/-- How an INSERT divides the columns of an instance. -/
structure Split (schema : Schema ι) (x : Instance ι) (bound : List (FieldDef ι × Value))
    (c : Compiled ι) : Prop where
  /-- The columns that are bound, in the order in which they are declared. -/
  columns : (bound.map (·.1)).Sublist (schema x.model).columnFields
  values : ∀ p ∈ bound, x.value schema p.1.name = .ok p.2
  returning : c.returning.Sublist (schema x.model).columnFields
  returning_iff : ∀ f, f ∈ c.returning ↔ f ∈ (schema x.model).columnFields ∧ f.auto = true ∧
    ∃ v, x.value schema f.name = .ok v ∧ v.isZero = true
  disjoint : ∀ f ∈ c.returning, f ∉ bound.map (·.1)
  whole : (bound.map (·.1) ++ c.returning).Perm (schema x.model).columnFields
  /-- A column and a placeholder for each of them, which is given its value. -/
  statement : c.statement = ⟨[.text "INSERT INTO ", .ident [(schema x.model).table]] ++
    insertBody bound c.returning, bound.map (·.2)⟩

end Instance

/-! ## Statements -/

/-- An instance whose columns can be read can be inserted. -/
theorem exists_compileInsert (h : ∀ f ∈ (schema x.model).columnFields, ∃ v, x.value schema f.name = .ok v) :
    ∃ c, compileInsert schema x.model x = .ok c := by
  have hends : Ends (fun _ => False) (fun fields => ∀ p ∈ fields, x.value schema p.1.name = .ok p.2)
      (insertFields schema x.model x) := by
    refine Ends.mapM fun f hf => ?_
    obtain ⟨v, hv⟩ := h f hf
    rw [hv]
    exact hv
  obtain ⟨fields, hfields, -⟩ := hends.exists_ok
  rw [compileInsert, hfields]
  exact ⟨_, rfl⟩

/-- A hook can be told only of an instance whose columns can be read. -/
theorem WriteEvent.readable {driver : String} {created : Bool} {event : WriteEvent}
    (h : ofInstance schema driver x created = .ok event) :
    ∀ f ∈ (schema x.model).columnFields, ∃ v, x.value schema f.name = .ok v := by
  simp only [ofInstance, bind_eq_ok] at h
  obtain ⟨-, -, values, hvalues, -⟩ := h
  intro f hf
  obtain ⟨p, hp⟩ := exists_of_mapM_eq_ok hvalues f hf
  simp only [bind_eq_ok] at hp
  obtain ⟨v, hv, -⟩ := hp
  exact ⟨v, hv⟩

end

variable {ι ρ σ α β : Type}

/-! ## Runs -/

namespace Environment.Filling

variable {schema : Schema ι} {x : Instance ι}

theorem run_bind (p : Filling ι ρ σ α) (f : α → Filling ι ρ σ β) (x : Instance ι) (w : World ρ σ) :
    ((p >>= f).run.run x).run w =
      match (p.run.run x).run w with
      | ((.ok a, y), v) => ((f a).run.run y).run v
      | ((.error e, y), v) => ((.error e, y), v) := by
  change (ExceptT.bindCont f ((p.run.run x).run w).1.1 ((p.run.run x).run w).1.2)
    ((p.run.run x).run w).2 = _
  rcases (p.run.run x).run w with ⟨⟨_ | a, y⟩, v⟩ <;> rfl

/-- What writing fields comes to, in a world that it leaves alone. -/
def filled (schema : Schema ι) (x : Instance ι) (l : List (FieldDef ι × Result Value))
    (w : World ρ σ) : (Result Unit × Instance ι) × World ρ σ :=
  (((x.fillAll schema l).2, (x.fillAll schema l).1), w)

/-- A field is written, and what follows writes the others. -/
theorem run_fill (f : FieldDef ι) (r : Result Value) {rest : Filling ι ρ σ Unit}
    {l : List (FieldDef ι × Result Value)}
    (hrest : ∀ y w, (rest.run.run y).run w = filled schema y l w) (x : Instance ι) (w : World ρ σ) :
    ((do setValue schema f.name (← ofPure r); rest : Filling ι ρ σ Unit).run.run x).run w =
      filled schema x ((f, r) :: l) w := by
  rw [run_bind]
  cases r with
  | error e => rfl
  | ok v =>
    have written : ((setValue schema f.name v : Filling ι ρ σ Unit).run.run x).run w =
        (((x.setValue schema f.name v).2, (x.setValue schema f.name v).1), w) := rfl
    change ((setValue schema f.name v >>= fun _ => rest : Filling ι ρ σ Unit).run.run x).run w = _
    rw [run_bind, written, filled, Instance.fillAll]
    rcases x.setValue schema f.name v with ⟨y, _ | _⟩
    · rfl
    · exact hrest y w

theorem run_setAll (l : List (FieldDef ι × Value)) (x : Instance ι) (w : World ρ σ) :
    ((setAll schema l : Filling ι ρ σ Unit).run.run x).run w =
      filled schema x (l.map fun (f, v) => (f, f.type.normalize v)) w := by
  induction l generalizing x w with
  | nil => rfl
  | cons p l ih => exact run_fill p.1 (p.1.type.normalize p.2) ih x w

/-- The fields of one instance are written to another one. -/
theorem run_copy (row : Instance ι) (fields : List (FieldDef ι)) (x : Instance ι) (w : World ρ σ) :
    ((do for f in fields do
          setValue schema f.name (← ofPure (row.value schema f.name)) :
        Filling ι ρ σ Unit).run.run x).run w =
      filled schema x (fields.map fun f => (f, row.value schema f.name)) w := by
  induction fields generalizing x w with
  | nil => rfl
  | cons f fields ih =>
    simp only [List.forIn_cons, bind_assoc, pure_bind] at ih ⊢
    exact run_fill f (row.value schema f.name) ih x w

/-- Work on an instance that is an effect first and then writes what the effect gives. -/
def Splits (schema : Schema ι) (x : Instance ι) (p : Filling ι ρ σ Unit)
    (e : Effect ρ σ (List (FieldDef ι × Result Value))) : Prop :=
  ∀ w, (p.run.run x).run w =
    match outcome e w with
    | (.ok l, v) => filled schema x l v
    | (.error e, v) => ((.error e, x), v)

namespace Splits

theorem pure {p : Filling ι ρ σ Unit} {l : List (FieldDef ι × Result Value)}
    (h : ∀ w, (p.run.run x).run w = filled schema x l w) : Splits schema x p (pure l) := h

theorem throw (e : Error) : Splits (ρ := ρ) (σ := σ) schema x (throw e) (throw e) := fun _ => rfl

theorem bind (e : Effect ρ σ α) {f : α → Filling ι ρ σ Unit}
    {g : α → Effect ρ σ (List (FieldDef ι × Result Value))}
    (h : ∀ a, Splits schema x (f a) (g a)) : Splits schema x (ofEffect e >>= f) (e >>= g) := by
  intro w
  have first : ((ofEffect e : Filling ι ρ σ α).run.run x).run w =
    (((outcome e w).1, x), (outcome e w).2) := rfl
  rw [run_bind, first, outcome_bind]
  rcases outcome e w with ⟨_ | a, v⟩
  · rfl
  · exact h a v

end Splits

end Environment.Filling

/-! ## The two parts of an insertion -/

namespace Environment

variable [DecidableEq ι] (env : Environment ι ρ σ) (db : Executor)

/-- The SELECT of the row that an instance stands for. -/
def rowSelect (x : Instance ι) : Result (Compiled ι) := do
  compileSelect env.schema (← env.rowOf x)

/-- Fields of an instance with the values that its row has. -/
def reselected (x : Instance ι) (fields : List (FieldDef ι)) :
    Effect ρ σ (List (FieldDef ι × Result Value)) := do
  let found ← env.select db (← Effect.ofResult (env.rowSelect x))
  let row ← Effect.ofResult (single (env.schema x.model).modelName found)
  return fields.map fun f => (f, row.value env.schema f.name)

/-- Runs an INSERT. Gives the fields to be written, each with what its value comes to. -/
def generated (x : Instance ι) (c : Compiled ι) :
    Effect ρ σ (List (FieldDef ι × Result Value)) := do
  if c.returning.isEmpty then
    let _ ← env.runStatement db .execute c.statement
    return []
  match env.dialect.returning with
  | .columns =>
    let rows : List Row ← env.runStatement db .query c.statement
    match rows with
    | [] => throw (.driver "INSERT ... RETURNING produced no row")
    | row :: _ => return (c.returning.zip row.values).map fun (f, v) => (f, f.type.normalize v)
  | .lastInsertId =>
    let id : Value ← env.runStatement db .insert c.statement
    return (c.returning.find? (·.primaryKey)).toList.map fun f => (f, f.type.normalize id)
  | .nothing =>
    let _ ← env.runStatement db .execute c.statement
    env.reselected db x c.returning

open Filling (Splits)

theorem reselect_splits (x : Instance ι) (fields : List (FieldDef ι)) :
    Splits env.schema x (env.reselect db fields) (env.reselected db x fields) :=
  Splits.bind (Effect.ofResult (env.rowSelect x)) fun c =>
    Splits.bind (env.select db c) fun found =>
    Splits.bind (Effect.ofResult (single (env.schema x.model).modelName found)) fun row =>
    Splits.pure fun w => Filling.run_copy row fields x w

/-- An INSERT is run as if there were no instance, and then its answer is written to the instance. -/
theorem insert_splits (x : Instance ι) (c : Compiled ι) :
    Splits env.schema x (env.insert db c) (env.generated db x c) := by
  rw [insert, generated]
  split
  · exact Splits.bind (env.runStatement db .execute c.statement) fun _ => Splits.pure fun _ => rfl
  · cases env.dialect.returning with
    | columns =>
      refine Splits.bind (env.runStatement db .query c.statement) fun (rows : List Row) => ?_
      cases rows with
      | nil => exact Splits.throw _
      | cons row rest => exact Splits.pure (Filling.run_setAll (c.returning.zip row.values) x)
    | lastInsertId =>
      refine Splits.bind (env.runStatement db .insert c.statement) fun (id : Value) =>
        Splits.pure fun w => ?_
      rw [Filling.run_setAll]
      cases c.returning.find? (·.primaryKey) <;> rfl
    | nothing =>
      exact Splits.bind (env.runStatement db .execute c.statement) fun _ =>
        reselect_splits env db x c.returning

variable {env db} {x : Instance ι} {c : Compiled ι} {w v : World ρ σ}
  {l : List (FieldDef ι × Result Value)}

/-- What an INSERT brings back: for each kind of dialect, by which statements it is found. -/
inductive Brought (env : Environment ι ρ σ) (db : Executor) (x : Instance ι) (c : Compiled ι)
    (w : World ρ σ) : List (FieldDef ι × Result Value) → World ρ σ → Prop
  | nothing {n : Nat} {v : World ρ σ} : c.returning = [] →
      outcome (env.runStatement db .execute c.statement) w = (.ok n, v) → Brought env db x c w [] v
  | columns {row : Row} {rest : List Row} {v : World ρ σ} : c.returning ≠ [] →
      env.dialect.returning = .columns →
      outcome (env.runStatement db .query c.statement) w = (.ok (row :: rest), v) →
      Brought env db x c w ((c.returning.zip row.values).map fun (f, v) => (f, f.type.normalize v)) v
  | lastInsertId {id : Value} {v : World ρ σ} : c.returning ≠ [] →
      env.dialect.returning = .lastInsertId →
      outcome (env.runStatement db .insert c.statement) w = (.ok id, v) →
      Brought env db x c w
        ((c.returning.find? (·.primaryKey)).toList.map fun f => (f, f.type.normalize id)) v
  | reselected {n : Nat} {cs : Compiled ι} {row : Instance ι} {v u : World ρ σ} : c.returning ≠ [] →
      env.dialect.returning = .nothing →
      outcome (env.runStatement db .execute c.statement) w = (.ok n, v) →
      env.rowSelect x = .ok cs → outcome (env.select db cs) v = (.ok [row], u) →
      Brought env db x c w (c.returning.map fun f => (f, row.value env.schema f.name)) u

omit [DecidableEq ι] in
theorem single_eq_ok {name : String} {found : List (Instance ι)} {row : Instance ι}
    (h : single name found = .ok row) : found = [row] := by
  match found, h with
  | [_], h => rw [Except.ok.inj h]

theorem reselected_eq_ok {fields : List (FieldDef ι)} :
    outcome (env.reselected db x fields) w = (.ok l, v) ↔
      ∃ cs row, env.rowSelect x = .ok cs ∧ outcome (env.select db cs) w = (.ok [row], v) ∧
        l = fields.map fun f => (f, row.value env.schema f.name) := by
  change Yields _ _ _ _ ↔ _
  simp only [reselected, Effect.ofResult, Yields.bind_iff, Yields.mk_pure_iff, Yields.pure_iff]
  constructor
  · rintro ⟨cs, _, ⟨hcs, rfl⟩, found, u, hfound, row, _, ⟨hrow, rfl⟩, rfl, rfl⟩
    obtain rfl := single_eq_ok hrow
    exact ⟨cs, row, hcs, hfound, rfl⟩
  · rintro ⟨cs, row, hcs, hfound, rfl⟩
    exact ⟨cs, w, ⟨hcs, rfl⟩, [row], v, hfound, row, v, ⟨rfl, rfl⟩, rfl, rfl⟩

theorem generated_eq_ok :
    outcome (env.generated db x c) w = (.ok l, v) ↔ Brought env db x c w l v := by
  change Yields _ _ _ _ ↔ _
  rw [generated]
  constructor
  · intro h
    by_cases hempty : c.returning.isEmpty = true
    · rw [if_pos hempty, Yields.bind_iff] at h
      obtain ⟨n, v, hn, h⟩ := h
      obtain ⟨rfl, rfl⟩ := Yields.pure_iff.1 h
      exact .nothing (List.isEmpty_iff.1 hempty) hn
    · have hleft : c.returning ≠ [] := fun hnil => hempty (List.isEmpty_iff.2 hnil)
      rw [if_neg hempty] at h
      cases hmode : env.dialect.returning with
      | columns =>
        rw [hmode] at h
        obtain ⟨rows, v, hrows, h⟩ := Yields.bind_iff.1 h
        match (rows : List Row), hrows, h with
        | [], _, h => exact absurd h Yields.not_throw
        | row :: rest, hrows, h =>
          obtain ⟨rfl, rfl⟩ := Yields.pure_iff.1 h
          exact .columns hleft hmode hrows
      | lastInsertId =>
        rw [hmode] at h
        obtain ⟨id, v, hid, h⟩ := Yields.bind_iff.1 h
        obtain ⟨rfl, rfl⟩ := Yields.pure_iff.1 h
        exact .lastInsertId hleft hmode hid
      | nothing =>
        rw [hmode] at h
        obtain ⟨n, v, hexecuted, h⟩ := Yields.bind_iff.1 h
        obtain ⟨cs, row, hcs, hfound, rfl⟩ := reselected_eq_ok.1 h
        exact .reselected hleft hmode hexecuted hcs hfound
  · intro h
    cases h with
    | nothing hnil hn =>
      rw [if_pos (List.isEmpty_iff.2 hnil)]
      exact Yields.bind_iff.2 ⟨_, v, hn, Yields.pure_iff.2 ⟨rfl, rfl⟩⟩
    | columns hleft hmode hrows =>
      rw [if_neg fun hempty => hleft (List.isEmpty_iff.1 hempty), hmode]
      exact Yields.bind_iff.2 ⟨_, v, hrows, Yields.pure_iff.2 ⟨rfl, rfl⟩⟩
    | lastInsertId hleft hmode hid =>
      rw [if_neg fun hempty => hleft (List.isEmpty_iff.1 hempty), hmode]
      exact Yields.bind_iff.2 ⟨_, v, hid, Yields.pure_iff.2 ⟨rfl, rfl⟩⟩
    | reselected hleft hmode hexecuted hcs hfound =>
      rw [if_neg fun hempty => hleft (List.isEmpty_iff.1 hempty), hmode]
      exact Yields.bind_iff.2 ⟨_, _, hexecuted, reselected_eq_ok.2 ⟨_, _, hcs, hfound, rfl⟩⟩

omit [DecidableEq ι] in
/-- As many fields as there are values. -/
theorem zip_fields (fields : List (FieldDef ι)) (values : List Value) :
    (fields.zip values).map (·.1) = fields.take values.length := by
  induction fields generalizing values with
  | nil => rw [List.zip_nil_left, List.map_nil, List.take_nil]
  | cons f fields ih =>
    cases values with
    | nil => rfl
    | cons v values => rw [List.zip_cons_cons, List.map_cons, ih, List.length_cons, List.take_succ_cons]

/-- Only fields that were left to the database are written, in their order. -/
theorem Brought.sublist (h : Brought env db x c w l v) : (l.map (·.1)).Sublist c.returning := by
  cases h with
  | nothing => exact List.nil_sublist _
  | @columns row =>
    have hfields : ((c.returning.zip row.values).map fun (f, v) => (f, f.type.normalize v)).map (·.1) =
        (c.returning.zip row.values).map (·.1) := by
      rw [List.map_map]
      rfl
    rw [hfields, zip_fields]
    exact List.take_sublist _ _
  | lastInsertId =>
    rw [List.map_map]
    cases hf : c.returning.find? (·.primaryKey) with
    | none => exact List.nil_sublist _
    | some f => exact List.singleton_sublist.2 (List.mem_of_find?_eq_some hf)
  | reselected =>
    rw [List.map_map]
    exact (List.map_id c.returning).symm ▸ .refl _

/-- Whatever comes of writing them, the other fields are as they were. -/
theorem Brought.sameBut {x' : Instance ι} {r : Result Unit} (h : Brought env db x c w l v)
    (hfill : x.fillAll env.schema l = (x', r)) : x.SameBut (c.returning.map (·.name)) x' := by
  refine (Instance.fillAll_sameBut hfill).mono ?_
  have hsub := (h.sublist.map (·.name)).subset
  rwa [List.map_map] at hsub

/-! ## Insertions -/

/-- The world once the hook before an insertion has been told of it. -/
def told (env : Environment ι ρ σ) (kind : HookKind) (event : WriteEvent) (w : World ρ σ) :
    World ρ σ :=
  (outcome (Executor.announce env kind event) w).2

/-- The ways in which an insertion ends. -/
inductive Inserted (env : Environment ι ρ σ) (db : Executor) (x : Instance ι) (w : World ρ σ) :
    Result Unit → Instance ι → World ρ σ → Prop
  /-- There is no event of which to tell the hook before it. -/
  | unready {e : Error} : WriteEvent.ofInstance env.schema env.driver x true = .error e →
      Inserted env db x w (.error e) x w
  /-- What the database would have to fill in is not known. -/
  | unanswered {pre : WriteEvent} {c : Compiled ι} {e : Error} {v : World ρ σ} :
      WriteEvent.ofInstance env.schema env.driver x true = .ok pre →
      compileInsert env.schema x.model x = .ok c →
      outcome (env.generated db x c) (env.told .preSave pre w) = (.error e, v) →
      Inserted env db x w (.error e) x v
  /-- It cannot be written to the instance. -/
  | unwritten {pre : WriteEvent} {c : Compiled ι} {l : List (FieldDef ι × Result Value)} {e : Error}
      {x' : Instance ι} {v : World ρ σ} :
      WriteEvent.ofInstance env.schema env.driver x true = .ok pre →
      compileInsert env.schema x.model x = .ok c →
      outcome (env.generated db x c) (env.told .preSave pre w) = (.ok l, v) →
      x.fillAll env.schema l = (x', .error e) → Inserted env db x w (.error e) x' v
  | written {pre post : WriteEvent} {c : Compiled ι} {l : List (FieldDef ι × Result Value)}
      {x' : Instance ι} {v : World ρ σ} :
      WriteEvent.ofInstance env.schema env.driver x true = .ok pre →
      compileInsert env.schema x.model x = .ok c →
      outcome (env.generated db x c) (env.told .preSave pre w) = (.ok l, v) →
      x.fillAll env.schema l = (x', .ok ()) →
      WriteEvent.ofInstance env.schema env.driver x' true = .ok post →
      Inserted env db x w (.ok ()) x' (env.told .postSave post v)

omit [DecidableEq ι] in
/-- What could be read of an instance can be read of it when fields have been written. -/
theorem filled_of_fillAll {names : List String} {schema : Schema ι} {x x' : Instance ι}
    {l : List (FieldDef ι × Result Value)}
    (hl : ∀ p ∈ l, p.1.name ∈ names ∧ ∃ v, x.value schema p.1.name = .ok v)
    (h : x.fillAll schema l = (x', .ok ())) : x.Filled schema names x' := by
  induction l generalizing x with
  | nil =>
    cases h
    exact .refl ..
  | cons p rest ih =>
    obtain ⟨⟨hn, u, hu⟩, hrest⟩ := List.forall_mem_cons.1 hl
    obtain ⟨f, e | v⟩ := p
    · cases h
    · rw [Instance.fillAll] at h
      split at h
      case h_1 y hy =>
        have hfirst : x.Filled schema names y := .setValue hn hu hy
        refine hfirst.trans (ih (fun q hq => ?_) h)
        obtain ⟨hq, v', hv'⟩ := hrest q hq
        exact ⟨hq, hfirst.readable _ _ hv'⟩
      case h_2 => cases h

omit [DecidableEq ι] in
theorem announceInsert_run (env : Environment ι ρ σ) (kind : HookKind) (x : Instance ι)
    (w : World ρ σ) :
    ((env.announceInsert kind).run.run x).run w =
      match WriteEvent.ofInstance env.schema env.driver x true with
      | .error e => ((.error e, x), w)
      | .ok event => ((.ok (), x), env.told kind event w) := by
  rw [announceInsert, Filling.run_bind]
  change (((Filling.ofPure (WriteEvent.ofInstance env.schema env.driver x true) >>= fun event =>
    Filling.ofEffect (Executor.announce env kind event) : Filling ι ρ σ Unit).run.run x).run w) = _
  rw [Filling.run_bind]
  cases WriteEvent.ofInstance env.schema env.driver x true <;> rfl

/-- An insertion runs its INSERT between two hooks that are told of the instance. -/
theorem createInstance_run (env : Environment ι ρ σ) (db : Executor) (x : Instance ι)
    (w : World ρ σ) :
    ((env.createInstance db).run.run x).run w =
      match WriteEvent.ofInstance env.schema env.driver x true with
      | .error e => ((.error e, x), w)
      | .ok pre =>
        match compileInsert env.schema x.model x with
        | .error e => ((.error e, x), env.told .preSave pre w)
        | .ok c =>
          match ((env.insert db c).run.run x).run (env.told .preSave pre w) with
          | ((.error e, x'), v) => ((.error e, x'), v)
          | ((.ok (), x'), v) => ((env.announceInsert .postSave).run.run x').run v := by
  rw [createInstance, Filling.run_bind, announceInsert_run]
  cases WriteEvent.ofInstance env.schema env.driver x true with
  | error e => rfl
  | ok pre =>
    change (((Filling.ofPure (compileInsert env.schema x.model x) >>= fun c => do
      env.insert db c; env.announceInsert .postSave : Filling ι ρ σ Unit).run.run x).run
        (env.told .preSave pre w)) = _
    rw [Filling.run_bind]
    cases compileInsert env.schema x.model x with
    | error e => rfl
    | ok c =>
      change ((env.insert db c >>= fun _ => env.announceInsert .postSave).run.run x).run
        (env.told .preSave pre w) = _
      rw [Filling.run_bind]
      dsimp only
      rcases ((env.insert db c).run.run x).run (env.told .preSave pre w) with ⟨⟨_ | _, y⟩, v⟩ <;> rfl

theorem createInstance_inserted {r : Result Unit} {x' : Instance ι}
    (h : ((env.createInstance db).run.run x).run w = ((r, x'), v)) :
    Inserted env db x w r x' v := by
  rw [createInstance_run] at h
  cases hpre : WriteEvent.ofInstance env.schema env.driver x true with
  | error e =>
    rw [hpre] at h
    cases h
    exact .unready hpre
  | ok pre =>
    obtain ⟨c, hc⟩ := exists_compileInsert (WriteEvent.readable hpre)
    rw [hpre, hc] at h
    dsimp only at h
    rw [insert_splits env db x c] at h
    rcases hanswer : outcome (env.generated db x c) (env.told .preSave pre w) with ⟨e | l, u⟩
    · rw [hanswer] at h
      cases h
      exact .unanswered hpre hc hanswer
    · rw [hanswer] at h
      dsimp only [Filling.filled] at h
      have hbrought := generated_eq_ok.1 hanswer
      rcases hfill : x.fillAll env.schema l with ⟨y, e | _⟩
      · rw [hfill] at h
        cases h
        exact .unwritten hpre hc hanswer hfill
      · rw [hfill] at h
        dsimp only at h
        -- what has been written can be read, so the hook after the INSERT can be told
        have hgenerated := Instance.generated_of_compileInsert hc
        have hfilled : x.Filled env.schema (c.returning.map (·.name)) y := by
          refine filled_of_fillAll (fun p hp => ?_) hfill
          have hleft := hbrought.sublist.subset (List.mem_map_of_mem hp)
          obtain ⟨-, u, hu, -⟩ := hgenerated _ hleft
          exact ⟨List.mem_map_of_mem hleft, u, hu⟩
        obtain ⟨post, hpost, -⟩ := WriteEvent.ofInstance_filled hgenerated hfilled hpre
        rw [announceInsert_run, hpost] at h
        cases h
        exact .written hpre hc hanswer hfill hpost

end Environment

end Orm
