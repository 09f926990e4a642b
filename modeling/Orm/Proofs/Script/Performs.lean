import Orm.Proofs.Script.Verb

/-
Every verb is what its script does.

One step performs one effect, and what follows it performs what follows the effect, so a program that
is put together like a verb performs it. Only the rows of a result are read differently: a verb asks
before each row whether it is called off, a script has read them all before it looks at them.
-/

namespace Orm

variable {S ι ρ σ α β : Type}

/-! ## Rows -/

theorem valueRows_cons (scan : ScanPlan ι) (c : CalledOff) (i : Nat) (row : List Value)
    (rest : List (List Value)) :
    valueRows scan c i (row :: rest) =
      if c i then .error .cancelled
      else Program.tuple scan row >>= fun values =>
        (valueRows scan c (i + 1) rest).map (values :: ·) := by
  rw [valueRows]
  cases c i with
  | true => rfl
  | false =>
    refine congrArg (Program.tuple scan row >>= ·) (funext fun values => ?_)
    cases valueRows scan c (i + 1) rest <;> rfl

theorem rowTrees_eq_readRows (schema : Schema ι) (scan : ScanPlan ι) (c : CalledOff) (i : Nat)
    (trees : List (Tree ι)) (rows : List (List Value)) :
    rowTrees schema scan c i trees rows =
      (readRows c i (rows.map fun row => (rowTree schema scan row).map fun _ => ()) >>= fun _ =>
        rowTrees schema scan Program.undisturbed i trees rows) := by
  induction rows generalizing i trees with
  | nil => rfl
  | cons row rows ih =>
    rw [List.map_cons, readRows_cons, rowTrees, rowTrees, Program.undisturbed]
    cases c i with
    | true => rfl
    | false =>
      rcases rowTree schema scan row with e | t
      · rfl
      · exact ih (i + 1) (placeTree scan trees t)

theorem materialize_eq_readRows [DecidableEq ι] (schema : Schema ι) (scan : ScanPlan ι)
    (c : CalledOff) (rows : List (List Value)) :
    materialize schema scan rows c =
      (readRows c 0 (rows.map fun row => (rowTree schema scan row).map fun _ => ()) >>= fun _ =>
        materialize schema scan rows Program.undisturbed) := by
  rw [materialize, materialize, rowTrees_eq_readRows]
  cases readRows c 0 (rows.map fun row => (rowTree schema scan row).map fun _ => ()) <;> rfl

theorem valueRows_eq_readRows (scan : ScanPlan ι) (c : CalledOff) (i : Nat)
    (rows : List (List Value)) :
    valueRows scan c i rows =
      (readRows c i (rows.map fun row => (Program.tuple scan row).map fun _ => ()) >>= fun _ =>
        valueRows scan Program.undisturbed i rows) := by
  induction rows generalizing i with
  | nil => rfl
  | cons row rows ih =>
    rw [List.map_cons, readRows_cons, valueRows_cons, valueRows_cons, Program.undisturbed]
    cases c i with
    | true => rfl
    | false =>
      rcases Program.tuple scan row with e | values
      · rfl
      · change (valueRows scan c (i + 1) rows).map (values :: ·) = _
        rw [ih]
        cases readRows c (i + 1) (rows.map fun row => (Program.tuple scan row).map fun _ => ()) <;>
          rfl

open Program (ofResult report announce request current)

/-! ## Steps -/

section

variable {env : Environment ι ρ σ} {db : Executor}

theorem Program.Performs.then_ {p : Program S α} {x : Effect ρ σ α} {q : α → Program S β}
    {f : α → Effect ρ σ β} (hp : p.Performs env db x.lift)
    (hq : ∀ a, (q a).Performs env db (f a).lift) :
    Program.Performs env db (p >>= q) (x >>= f).lift := by
  rw [Effect.lift_bind]
  exact hp.bind hq

theorem pure_performs (a : α) :
    Program.Performs (S := S) env db (pure a) (pure a : Effect ρ σ α).lift :=
  fun _ _ => rfl

theorem ofResult_performs (r : Result α) :
    (ofResult r : Program S α).Performs env db (Effect.ofResult r).lift :=
  fun _ _ => rfl

theorem report_performs (l : Log) :
    (report l : Program S Unit).Performs env db (Effect.report l).lift :=
  fun _ _ => rfl

theorem announce_performs (kind : HookKind) (event : WriteEvent) :
    (announce kind event : Program S Unit).Performs env db
      (Executor.announce env kind event).lift :=
  fun _ _ => rfl

theorem request_performs (k : RequestKind) (sql : String) (args : List Value) :
    (request k sql args : Program S k.Reply).Performs env db (db.run env k sql args).lift := by
  intro s w
  change (Script.request s k sql args _).run env db w =
    (((outcome (db.run env k sql args) w).1, s), (outcome (db.run env k sql args) w).2)
  rw [Script.run]
  rcases outcome (db.run env k sql args) w with ⟨_ | a, v⟩ <;> rfl

/-- Rows that are read, with what is made of them if they all could be. -/
theorem read_performs {rows : List (Result Unit)} {n : Nat} (hn : rows.length = n) {r : Result α}
    {g : CalledOff → Result α} (hg : ∀ c, g c = readRows c 0 rows >>= fun _ => r) :
    Program.Performs (S := S) env db (Program.read rows >>= fun _ => ofResult r)
      (db.watch env n >>= fun c => Effect.ofResult (g c)).lift := by
  subst hn
  intro s w
  change (Script.read s rows (.done r s)).run env db w =
    (((outcome (db.watch env rows.length >>= fun c => Effect.ofResult (g c)) w).1, s),
      (outcome (db.watch env rows.length >>= fun c => Effect.ofResult (g c)) w).2)
  rw [Script.run, outcome_bind]
  rcases outcome (db.watch env rows.length) w with ⟨_ | c, v⟩
  · rfl
  · change _ = ((g c, s), v)
    rw [hg]
    dsimp only
    cases readRows c 0 rows <;> rfl

/-! ## Verbs of queries -/

variable (p : Plan ι)

theorem count_performs :
    (Program.count env p : Program S Nat).Performs env db (env.count db p).lift :=
  (report_performs _).then_ fun _ => (ofResult_performs _).then_ fun _ =>
    (request_performs _ _ _).then_ fun _ => ofResult_performs _

theorem exists_performs :
    (Program.exists_ env p : Program S Bool).Performs env db (env.exists_ db p).lift :=
  (count_performs _).then_ fun _ => pure_performs _

theorem bracketed_performs (before after : HookKind) (event : WriteEvent) (s : Statement) :
    (Program.bracketed env before after event s : Program S Nat).Performs env db
      (env.bracketed db before after event s).lift :=
  (announce_performs _ _).then_ fun _ => (request_performs _ _ _).then_ fun _ =>
    (announce_performs _ _).then_ fun _ => pure_performs _

theorem update_performs (x : Instance ι) :
    (Program.update env p x : Program S Nat).Performs env db (env.update db p x).lift := by
  refine (report_performs _).then_ fun _ => (ofResult_performs _).then_ fun _ => ?_
  split
  · exact ofResult_performs _
  · refine (ofResult_performs _).then_ fun fields => ?_
    split
    · exact (report_performs _).then_ fun _ => pure_performs _
    · exact (ofResult_performs _).then_ fun _ => bracketed_performs _ _ _ _

theorem delete_performs :
    (Program.delete env p : Program S Nat).Performs env db (env.delete db p).lift :=
  (report_performs _).then_ fun _ => (ofResult_performs _).then_ fun _ => bracketed_performs _ _ _ _

theorem valuesList_performs (paths : List String) :
    (Program.valuesList env p paths : Program S _).Performs env db
      (env.valuesList db p paths).lift := by
  refine (report_performs _).then_ fun _ => (ofResult_performs _).then_ fun c =>
    (request_performs _ _ _).then_ fun (rows : List Row) => read_performs ?_ fun calledOff => ?_
  · exact List.length_map _
  · rw [valueRows_eq_readRows, Program.tupleChecks, List.map_map]
    rfl

theorem valuesFlat_performs (path : String) (convert : Value → Result Value) :
    (Program.valuesFlat env p path convert : Program S _).Performs env db
      (env.valuesFlat db p path convert).lift :=
  (valuesList_performs p _).then_ fun _ => ofResult_performs _

variable [DecidableEq ι]

theorem select_performs (c : Compiled ι) :
    (Program.select env c : Program S _).Performs env db (env.select db c).lift := by
  refine (request_performs _ _ _).then_ fun (rows : List Row) => read_performs ?_ fun calledOff => ?_
  · exact List.length_map _
  · rw [materialize_eq_readRows, Program.rowChecks, List.map_map]
    rfl

theorem all_performs : (Program.all env p : Program S _).Performs env db (env.all db p).lift :=
  (report_performs _).then_ fun _ => (ofResult_performs _).then_ fun _ => select_performs _

theorem first_performs :
    (Program.first env p : Program S _).Performs env db (env.first db p).lift :=
  (all_performs _).then_ fun _ => pure_performs _

theorem get_performs : (Program.get env p : Program S _).Performs env db (env.get db p).lift :=
  (all_performs _).then_ fun _ => ofResult_performs _

end

/-! ## Verbs of instances -/

open Environment (Filling)
open Environment.Filling (ofPure)

section

variable {env : Environment ι ρ σ} {db : Executor}

theorem building_performs (p : Plan ι) (step : Plan ι → Plan ι) :
    (Program.building env p step : Program S _).Performs env db (env.building p step).lift :=
  (report_performs _).then_ fun _ => pure_performs _

theorem updateInstance_performs (x : Instance ι) :
    (Program.updateInstance env x : Program S Nat).Performs env db
      (env.updateInstance db x).lift :=
  (ofResult_performs _).then_ fun _ => (ofResult_performs _).then_ fun _ =>
    bracketed_performs _ _ _ _

theorem deleteInstance_performs (x : Instance ι) :
    (Program.deleteInstance env x : Program S Nat).Performs env db
      (env.deleteInstance db x).lift :=
  (ofResult_performs _).then_ fun _ => (ofResult_performs _).then_ fun _ =>
    bracketed_performs _ _ _ _

theorem current_performs :
    (current : Program (Instance ι) _).Performs env db (Filling.current : Filling ι ρ σ _) :=
  fun _ _ => rfl

theorem replace_performs (x : Instance ι) :
    (Program.replace x).Performs env db (ExceptT.lift (StateT.set x) : Filling ι ρ σ _) :=
  fun _ _ => rfl

theorem setValue_performs (name : String) (v : Value) :
    (Program.setValue env.schema name v).Performs env db
      (Filling.setValue env.schema name v : Filling ι ρ σ _) :=
  fun _ _ => rfl

theorem setAll_performs (l : List (FieldDef ι × Value)) :
    (Program.setAll env.schema l).Performs env db
      (Filling.setAll env.schema l : Filling ι ρ σ _) := by
  induction l with
  | nil => exact pure_performs _
  | cons a l ih =>
    exact Program.Performs.bind (ofResult_performs (a.1.type.normalize a.2)) fun v =>
      (setValue_performs _ v).bind fun _ => ih

theorem copyAll_performs (row : Instance ι) (fields : List (FieldDef ι)) :
    (Program.copyAll env.schema row fields).Performs env db
      (do for f in fields do
            Filling.setValue env.schema f.name (← ofPure (row.value env.schema f.name)) :
        Filling ι ρ σ Unit) := by
  induction fields with
  | nil => exact pure_performs _
  | cons f fields ih =>
    simp only [List.forIn_cons, bind_assoc, pure_bind] at ih ⊢
    exact Program.Performs.bind (ofResult_performs (row.value env.schema f.name)) fun v =>
      (setValue_performs _ v).bind fun _ => ih

theorem insertEvent_performs :
    (Program.insertEvent env).Performs env db
      (Filling.current >>= fun x =>
        ofPure (WriteEvent.ofInstance env.schema env.driver x true) : Filling ι ρ σ _) :=
  current_performs.bind fun x => ofResult_performs (WriteEvent.ofInstance env.schema env.driver x true)

/-- An effect alone leaves no instance behind. -/
theorem Program.Performs.alone {p : Program (List (Instance ι)) α} {x : Effect ρ σ α}
    (h : p.Performs env db x.lift) (w : World ρ σ) :
    (p []).run env db w = (Effect.alone x : StateM (World ρ σ) (Performed ι α)).run w :=
  h [] w

theorem Program.Performs.on {p : Program (Instance ι) α} {f : Filling ι ρ σ α}
    (h : p.Performs env db f) (x : Instance ι) (w : World ρ σ) :
    (p.on x).run env db w = (f.on x).run w := by
  rw [Program.on, Script.run_andThen, h]
  change _ = (((((f.run.run x).run w).1.1), [((f.run.run x).run w).1.2]), ((f.run.run x).run w).2)
  rcases (f.run.run x).run w with ⟨⟨_ | a, x'⟩, v⟩ <;> rfl

variable [DecidableEq ι]

theorem reselect_performs (fields : List (FieldDef ι)) :
    (Program.reselect env fields).Performs env db (env.reselect db fields) := by
  refine current_performs.bind fun x => Program.Performs.bind (ofResult_performs _) fun c =>
    Program.Performs.bind (select_performs c) fun found =>
    Program.Performs.bind (ofResult_performs _) fun row => copyAll_performs row fields

theorem insert_performs (c : Compiled ι) :
    (Program.insert env c).Performs env db (env.insert db c) := by
  rw [Program.insert, Environment.insert]
  split
  · exact Program.Performs.bind (request_performs .execute _ _) fun _ => pure_performs _
  · cases env.dialect.returning with
    | columns =>
      refine Program.Performs.bind (request_performs .query _ _) fun (rows : List Row) => ?_
      cases rows with
      | nil => exact fun _ _ => rfl
      | cons row rows => exact setAll_performs _
    | lastInsertId =>
      exact Program.Performs.bind (request_performs .insert _ _) fun _ => setAll_performs _
    | nothing =>
      exact Program.Performs.bind (request_performs .execute _ _) fun _ => reselect_performs _

theorem createInstance_performs :
    (Program.createInstance env).Performs env db (env.createInstance db) := by
  have told : (Program.insertEvent env).Performs env db _ := insertEvent_performs
  have inserted (c : Compiled ι) : (Program.insert env c).Performs env db _ := insert_performs c
  have h := told.bind fun event =>
    Program.Performs.bind (announce_performs .preSave event) fun _ =>
    (current_performs.bind fun x =>
      Program.Performs.bind (ofResult_performs (compileInsert env.schema x.model x)) inserted).bind
    fun a => told.bind fun event =>
    Program.Performs.bind (announce_performs .postSave event) fun _ => pure_performs a
  simp only [bind_assoc] at h
  simp only [Environment.createInstance, Environment.announceInsert, bind_assoc]
  exact h

theorem create_performs (p : Plan ι) :
    (Program.create env p).Performs env db (env.create db p) :=
  Program.Performs.bind (ofResult_performs _) fun _ => Program.Performs.bind (report_performs _)
    fun _ => createInstance_performs

theorem saveObject_performs : (Program.saveObject env).Performs env db (env.saveObject db) := by
  have created : (Program.createInstance env).Performs env db _ := createInstance_performs
  have inserted := created.bind fun _ => pure_performs true
  refine current_performs.bind fun x => Program.Performs.bind (ofResult_performs _) fun key => ?_
  dsimp only
  split
  · rw [pure_bind, if_pos rfl]
    exact inserted
  · refine Program.Performs.bind (updateInstance_performs x) fun affected => ?_
    split
    · exact inserted
    · exact pure_performs _

theorem refreshObject_performs :
    (Program.refreshObject env).Performs env db (env.refreshObject db) := by
  refine current_performs.bind fun x => Program.Performs.bind (ofResult_performs _) fun e => ?_
  have found : Program.Performs (S := Instance ι) env db
      (Program.building env { model := x.model } (·.filter env.schema e) >>= Program.get env)
      (env.building { model := x.model } (·.filter env.schema e) >>= env.get db).lift :=
    (building_performs _ _).then_ fun p => get_performs p
  exact found.bind replace_performs

theorem getObject_performs (model : ι) (id : Value) :
    (Program.getObject env model id : Program S _).Performs env db
      (env.getObject db model id).lift :=
  (ofResult_performs _).then_ fun _ => (building_performs _ _).then_ fun _ => get_performs _

theorem listObjects_performs (model : ι) (offset limit : Nat) (ordering : List String) :
    (Program.listObjects env model offset limit ordering : Program S _).Performs env db
      (env.listObjects db model offset limit ordering).lift := by
  rw [Program.listObjects, Environment.listObjects]
  split
  · exact (pure_performs _).then_ fun _ => all_performs _
  · exact (building_performs _ _).then_ fun _ => all_performs _

theorem listByIds_performs (model : ι) (offset limit : Nat) (ids : List Value) :
    (Program.listByIds env model offset limit ids : Program S _).Performs env db
      (env.listByIds db model offset limit ids).lift :=
  (ofResult_performs _).then_ fun _ => (building_performs _ _).then_ fun _ => all_performs _

/-! ## All verbs -/

theorem createEach_run (xs : List (Instance ι)) (w : World ρ σ) :
    (Program.createEach env xs).run env db w = (env.createEach db xs).run w := by
  induction xs generalizing w with
  | nil => rfl
  | cons x xs ih =>
    rw [Program.createEach, Script.run_andThen, createInstance_performs, Environment.createEach,
      StateT.run_bind]
    rcases ((env.createInstance db).run.run x).run w with ⟨⟨_ | _, x'⟩, v⟩
    · rfl
    · dsimp only
      rw [Script.run_andThen, ih]
      change _ = ((((env.createEach db xs).run v).1.1.map (· + 1),
        x' :: ((env.createEach db xs).run v).1.2), ((env.createEach db xs).run v).2)
      rcases (env.createEach db xs).run v with ⟨⟨_ | n, xs'⟩, u⟩ <;> rfl

theorem bulkCreate_run (p : Plan ι) (xs : List (Instance ι)) (w : World ρ σ) :
    (Program.bulkCreate env p xs).run env db w = (env.bulkCreate db p xs).run w := by
  rw [Program.bulkCreate, Environment.bulkCreate]
  cases p.check with
  | error e => rfl
  | ok u => exact createEach_run xs _

theorem Verb.script_run (v : Verb ι) (w : World ρ σ) :
    (v.script env).run env db w = (v.perform env db).run w := by
  cases v with
  | all p => exact (all_performs p).alone w
  | first p => exact (first_performs p).alone w
  | get p => exact (get_performs p).alone w
  | count p => exact (count_performs p).alone w
  | «exists» p => exact (exists_performs p).alone w
  | valuesList p paths => exact (valuesList_performs p paths).alone w
  | valuesFlat p path convert => exact (valuesFlat_performs p path convert).alone w
  | update p x => exact (update_performs p x).alone w
  | delete p => exact (delete_performs p).alone w
  | create p x => exact (create_performs p).on x w
  | bulkCreate p xs => exact bulkCreate_run p xs w
  | createInstance x => exact createInstance_performs.on x w
  | updateInstance x => exact (updateInstance_performs x).alone w
  | deleteInstance x => exact (deleteInstance_performs x).alone w
  | saveObject x => exact saveObject_performs.on x w
  | refreshObject x => exact refreshObject_performs.on x w
  | getObject model id => exact (getObject_performs model id).alone w
  | listObjects model offset limit ordering =>
    exact (listObjects_performs model offset limit ordering).alone w
  | listByIds model offset limit ids => exact (listByIds_performs model offset limit ids).alone w

end

end Orm
