import Orm.Proofs.Outcome
import Orm.Statement.Write

/-
Compiling taken apart: for each statement, the runs of which a successful compilation consists and
the text it puts together from them. Every other file on statements goes through these lemmas.
-/

namespace Orm

variable {ι : Type} {schema : Schema ι} {nested : Plan ι → Binding Sql} {p : Plan ι}
  {paths : List String} {asNested dedupe : Bool}

/-! ## Projection -/

/-- What a projection comes to: nothing if the column is there, or one entry more. -/
theorem ScanPlan.project_cases (s : ScanPlan ι) (i : Nat) (f : FieldDef ι) (dedupe : Bool) :
    s.project i f dedupe = s ∨ ∃ n, s.nodes[i]? = some n ∧
      (dedupe && s.entries.any (·.columnAlias == Aliases.columnAlias n.tableAlias f.column)) = false ∧
      s.project i f dedupe =
        { s with
          nodes := if f.primaryKey then ScanPlan.setPkEntry s.nodes i s.entries.length else s.nodes
          entries := s.entries ++
            [⟨Aliases.columnAlias n.tableAlias f.column, .field i f⟩] } := by
  unfold ScanPlan.project
  split
  · exact .inl rfl
  · rename_i n hn
    dsimp only
    split
    · exact .inl rfl
    · rename_i h
      exact .inr ⟨n, hn, Bool.eq_false_iff.2 h, rfl⟩

theorem ScanPlan.alias_of_mem_setPkEntry {nodes : List (ScanNode ι)} {node entry : Nat}
    {n : ScanNode ι} (h : n ∈ setPkEntry nodes node entry) :
    ∃ m ∈ nodes, n.tableAlias = m.tableAlias := by
  obtain ⟨i, hi, rfl⟩ := List.mem_iff_getElem.1 h
  have hi' : i < nodes.length := by simpa [setPkEntry] using hi
  refine ⟨nodes[i], List.getElem_mem hi', ?_⟩
  simp only [setPkEntry, List.getElem_modify]
  split <;> rfl

/-! ## Resolution -/

/-- The plan of the columns once all joins are known. -/
def ScanPlan.keyed (schema : Schema ι) (model : ι) (dedupe multiplied : Bool) (scan : ScanPlan ι) :
    ScanPlan ι :=
  let scan :=
    match (schema model).pk? with
    | some pk => if dedupe && multiplied && scan.rootKey.isNone then scan.project 0 pk dedupe else scan
    | none => scan
  { scan with groupRows := multiplied && scan.rootKey.isSome }

/-- The five stages of resolving a query, each from the scope that the one before has left. -/
structure Plan.Stages (schema : Schema ι) (p : Plan ι) (paths : List String)
    (asNested dedupe : Bool) (s : Scope) (r : ResolvedSelect ι) (t : Scope) where
  explicit : Scope
  projected : Scope
  computed : Scope
  filtered : Scope
  scan : ScanPlan ι
  joins : Yields (addExplicits schema p.model p.joins) s ⟨⟩ explicit
  projection : Yields (projection schema p.model dedupe paths) explicit scan projected
  annotations : Yields (resolveNamed schema p.model p.annotations) projected r.annotations computed
  filters : Yields (resolveFilters schema p.model p.filters) computed r.filters filtered
  ordering : Yields ((p.ordering schema asNested).mapM
    (resolveOrderingItem schema p.model (p.annotations.map (·.1)))) filtered r.ordering t
  scan_eq : r.scan = scan.keyed schema p.model dedupe t.toMany

theorem Plan.check_ok {u : Unit} (h : p.check = .ok u) : p.error = none := by
  unfold Plan.check at h
  split at h
  · cases h
  · assumption

theorem Plan.stages {s t : Scope} {r : ResolvedSelect ι}
    (h : Yields (p.resolve schema paths asNested dedupe) s r t) :
    p.error = none ∧ Nonempty (p.Stages schema paths asNested dedupe s r t) := by
  simp only [Plan.resolve, Resolving.ofResult, Yields.bind_iff, Yields.pure_iff,
    Yields.mk_pure_iff, Yields.get_iff] at h
  obtain ⟨_, _, ⟨hc, rfl⟩, _, s₁, hj, scan, s₂, hs, annotations, s₃, ha, filters, s₄, hf, ordering,
    s₅, ho, _, _, ⟨rfl, rfl⟩, rfl, rfl⟩ := h
  exact ⟨Plan.check_ok hc, ⟨s₁, s₂, s₃, s₄, scan, hj, hs, ha, hf, ho, rfl⟩⟩

/-! ## SELECT -/

/-- The text of a SELECT. -/
def Plan.selectSql (schema : Schema ι) (p : Plan ι) (r : ResolvedSelect ι) (joins : List Join)
    (computed predicates : List Sql) : Sql :=
  .text (if p.distinct then "SELECT DISTINCT " else "SELECT ") ::
    Sql.join ", " (r.scan.entries.map r.scan.fieldSql ++ computed) ++
    [.text " FROM ", .ident [(schema p.model).table]] ++ joinsSql joins ++
    whereSql predicates ++ orderingSql r.ordering ++ pagingSql p.limit p.offset

/-- The columns of a SELECT with its computed ones. -/
def ResolvedSelect.fullScan (r : ResolvedSelect ι) : ScanPlan ι :=
  { r.scan with
    entries := r.scan.entries ++ r.annotations.map fun (name, _) => ⟨name, .computed name⟩ }

theorem Plan.writeSelect_eq (p : Plan ι) : p.writeSelect schema nested paths asNested dedupe =
    (do
      let resolving := outcome (p.resolve schema paths asNested dedupe) {}
      let r ← ExceptT.mk (pure resolving.1)
      let computed ← writeAnnotations schema nested r.annotations
      let predicates ← Expression.writeAll schema nested r.filters
      return (p.selectSql schema r resolving.2.joins computed predicates, r.fullScan)) := rfl

theorem Plan.writeSelect_cases {args args' : List Value} {out : Sql × ScanPlan ι}
    (h : Yields (p.writeSelect schema nested paths asNested dedupe) args out args') :
    ∃ r scope computed mid predicates,
      Yields (p.resolve schema paths asNested dedupe) {} r scope ∧
      Yields (writeAnnotations schema nested r.annotations) args computed mid ∧
      Yields (Expression.writeAll schema nested r.filters) mid predicates args' ∧
      out = (p.selectSql schema r scope.joins computed predicates, r.fullScan) := by
  unfold Plan.writeSelect at h
  rcases hr : ExceptT.run (p.resolve schema paths asNested dedupe) {} with ⟨resolved, scope⟩
  rw [hr] at h
  simp only [Yields.bind_iff, Yields.pure_iff, Yields.mk_pure_iff] at h
  obtain ⟨r, _, ⟨rfl, rfl⟩, computed, mid, hc, predicates, _, hp, rfl, rfl⟩ := h
  exact ⟨r, scope, computed, mid, predicates, hr, hc, hp, rfl⟩

theorem Plan.writeSelect_of_parts {r : ResolvedSelect ι} {scope : Scope} {computed predicates : List Sql}
    {args mid args' : List Value} (hr : Yields (p.resolve schema paths asNested dedupe) {} r scope)
    (hc : Yields (writeAnnotations schema nested r.annotations) args computed mid)
    (hp : Yields (Expression.writeAll schema nested r.filters) mid predicates args') :
    Yields (p.writeSelect schema nested paths asNested dedupe) args
      (p.selectSql schema r scope.joins computed predicates, r.fullScan) args' := by
  have houtcome : outcome (p.resolve schema paths asNested dedupe) {} = (.ok r, scope) := hr
  rw [Plan.writeSelect_eq, houtcome]
  simp only [Yields.bind_iff, Yields.mk_pure_iff, Yields.pure_iff]
  exact ⟨r, args, ⟨rfl, rfl⟩, computed, mid, hc, predicates, args', hp, rfl, rfl⟩

theorem Binding.run_ok_iff {α : Type} {b : Binding α} {out : α × List Value} :
    Binding.run b = .ok out ↔ Yields b [] out.1 out.2 := by
  unfold Binding.run Yields outcome
  rcases ExceptT.run b [] with ⟨r, t⟩
  rcases out with ⟨a, args⟩
  cases r <;> simp

namespace Binding

variable {α β : Type}

/-- What is written after some values are bound, with all that are bound then. -/
def runFrom (args : List Value) (b : Binding α) : Result (α × List Value) :=
  match outcome b args with
  | (.ok a, args) => .ok (a, args)
  | (.error e, _) => .error e

theorem run_eq (b : Binding α) : run b = b.runFrom [] := rfl

theorem runFrom_result (r : Result α) (f : α → Binding β) (args : List Value) :
    runFrom args (ExceptT.mk (pure r) >>= f) = r >>= fun a => runFrom args (f a) := by
  cases r <;> rfl

theorem runFrom_map (x : Binding α) (g : α → β) (args : List Value) :
    runFrom args (x >>= fun a => pure (g a)) =
      runFrom args x >>= fun out => .ok (g out.1, out.2) := by
  unfold runFrom
  rw [outcome_bind]
  rcases outcome x args with ⟨r, t⟩
  cases r <;> rfl

theorem runFrom_bind {x : Binding α} {args args' : List Value} {a : α} (f : α → Binding β)
    (h : Yields x args a args') : runFrom args (x >>= f) = runFrom args' (f a) := by
  unfold runFrom
  rw [outcome_bind, h]

end Binding

theorem compileSelect_cases {c : Compiled ι} (h : compileSelect schema p = .ok c) :
    ∃ sql scan args,
      Yields (p.writeSelect schema (p.nestedIn schema) p.select false true) [] (sql, scan) args ∧
      c = { statement := ⟨sql, args⟩, scan } := by
  simp only [compileSelect, bind_eq_ok, Binding.run_ok_iff, pure_eq_ok] at h
  obtain ⟨⟨⟨sql, scan⟩, args⟩, hw, rfl⟩ := h
  exact ⟨sql, scan, args, hw, rfl⟩

theorem compileValues_cases {c : Compiled ι} (h : compileValues schema p paths = .ok c) :
    ∃ sql scan args,
      Yields (Plan.writeSelect schema (Plan.nestedIn schema { p with annotations := [] })
        { p with annotations := [] } paths false false) [] (sql, scan) args ∧
      c = { statement := ⟨sql, args⟩, scan } := by
  simp only [compileValues, bind_eq_ok, Binding.run_ok_iff, pure_eq_ok] at h
  obtain ⟨⟨⟨sql, scan⟩, args⟩, hw, rfl⟩ := h
  exact ⟨sql, scan, args, hw, rfl⟩

/-! ## COUNT -/

/-- What a count over a nested query counts. -/
def ScanPlan.countedSql (scan : ScanPlan ι) : Sql :=
  match scan.rootKey.bind fun i => scan.entries[i]? with
  | some e =>
    if scan.groupRows then [.text "COUNT(DISTINCT ", .ident [e.columnAlias], .text ")"]
    else .ofText "COUNT(*)"
  | none => .ofText "COUNT(*)"

/-- What a count over the joined tables counts. -/
def Model.countedSql (m : Model ι) (multiplied : Bool) : Sql :=
  match m.pk? with
  | some pk =>
    if multiplied then [.text "COUNT(DISTINCT ", .ident [m.table, pk.column], .text ")"]
    else .ofText "COUNT(*)"
  | none => .ofText "COUNT(*)"

/-- The query inside a count of distinct or of paged rows. -/
def Plan.unordered (p : Plan ι) : Plan ι := { p with orderBy := some [] }

theorem writeCountNested_eq (p : Plan ι) : writeCountNested schema p =
    (do
      let out ← p.unordered.writeSelect schema (p.unordered.nestedIn schema) p.select true true
      return .text "SELECT " :: out.2.countedSql ++ [.text " FROM ("] ++ out.1 ++
        [.text ") AS ", .ident ["djorm_count"]]) := rfl

theorem writeCountNested_cases {args args' : List Value} {sql : Sql}
    (h : Yields (writeCountNested schema p) args sql args') :
    ∃ sub scan,
      Yields (p.unordered.writeSelect schema (p.unordered.nestedIn schema) p.select true true) args
        (sub, scan) args' ∧
      sql = .text "SELECT " :: scan.countedSql ++ [.text " FROM ("] ++ sub ++
        [.text ") AS ", .ident ["djorm_count"]] := by
  simp only [writeCountNested, Yields.bind_iff, Yields.pure_iff] at h
  obtain ⟨⟨sub, scan⟩, _, hs, rfl, rfl⟩ := h
  exact ⟨sub, scan, hs, rfl⟩

/-- What resolving the predicates of a statement comes to, and the tables it brings into scope. -/
def Plan.conditions (schema : Schema ι) (p : Plan ι) : Result (List (Expression ι)) × Scope :=
  outcome (p.resolveConditions schema) {}

theorem writeCountPlain_eq (p : Plan ι) : writeCountPlain schema p =
    (do
      let filters ← ExceptT.mk (pure (p.conditions schema).1)
      let predicates ← Expression.writeAll schema (p.nestedIn schema) filters
      return .text "SELECT " :: (schema p.model).countedSql (p.conditions schema).2.toMany ++
        [.text " FROM ", .ident [(schema p.model).table]] ++ joinsSql (p.conditions schema).2.joins ++
        whereSql predicates) := rfl

theorem writeCountPlain_cases {args args' : List Value} {sql : Sql}
    (h : Yields (writeCountPlain schema p) args sql args') :
    ∃ filters scope predicates,
      Yields (p.resolveConditions schema) {} filters scope ∧
      Yields (Expression.writeAll schema (p.nestedIn schema) filters) args predicates args' ∧
      sql = .text "SELECT " :: (schema p.model).countedSql scope.toMany ++
        [.text " FROM ", .ident [(schema p.model).table]] ++ joinsSql scope.joins ++
        whereSql predicates := by
  unfold writeCountPlain at h
  rcases hr : ExceptT.run (p.resolveConditions schema) {} with ⟨resolved, scope⟩
  rw [hr] at h
  simp only [Yields.bind_iff, Yields.pure_iff, Yields.mk_pure_iff] at h
  obtain ⟨filters, _, ⟨rfl, rfl⟩, predicates, _, hp, rfl, rfl⟩ := h
  exact ⟨filters, scope, predicates, hr, hp, rfl⟩

theorem compileCount_cases {c : Compiled ι} (h : compileCount schema p = .ok c) :
    p.error = none ∧ ∃ sql args,
      Yields (if p.paged || p.distinct then writeCountNested schema p else writeCountPlain schema p)
        [] sql args ∧
      c = { statement := ⟨sql, args⟩ } := by
  simp only [compileCount, bind_eq_ok, Binding.run_ok_iff, pure_eq_ok] at h
  obtain ⟨_, hc, ⟨sql, args⟩, hw, rfl⟩ := h
  exact ⟨Plan.check_ok hc, sql, args, hw, rfl⟩

/-! ## Writes -/

/-- The predicate of a write whose predicates need joins. -/
def Model.memberSql (m : Model ι) (pk : FieldDef ι) (joins : List Join) (predicates : List Sql) :
    Sql :=
  [.text " WHERE ", .ident [m.table, pk.column], .text " IN (SELECT ",
      .ident ["djorm_sub", pk.column], .text " FROM (SELECT DISTINCT ",
      .ident [m.table, pk.column], .text " AS ", .ident [pk.column], .text " FROM ",
      .ident [m.table]] ++ joinsSql joins ++ whereSql predicates ++
    [.text ") AS ", .ident ["djorm_sub"], .text ")"]

theorem writeWhere_eq (p : Plan ι) : writeWhere schema p =
    if p.filters.isEmpty then pure none
    else do
      let filters ← ExceptT.mk (pure (p.conditions schema).1)
      if (p.conditions schema).2.joins.isEmpty then
        return some (whereSql (← Expression.writeAll schema (p.nestedIn schema) filters))
      let pk ← ExceptT.mk (pure (schema p.model).pk)
      let predicates ← Expression.writeAll schema (p.nestedIn schema) filters
      return some ((schema p.model).memberSql pk (p.conditions schema).2.joins predicates) := rfl

theorem writeWhere_cases {args args' : List Value} {sql : Sql}
    (h : Yields (writeWhere schema p) args (some sql) args') :
    ∃ filters scope predicates,
      Yields (p.resolveConditions schema) {} filters scope ∧
      Yields (Expression.writeAll schema (p.nestedIn schema) filters) args predicates args' ∧
      (scope.joins = [] ∧ sql = whereSql predicates ∨
        ∃ pk, (schema p.model).pk = .ok pk ∧
          sql = (schema p.model).memberSql pk scope.joins predicates) := by
  unfold writeWhere at h
  split at h
  · simp [Yields.pure_iff] at h
  · rcases hr : ExceptT.run (p.resolveConditions schema) {} with ⟨resolved, scope⟩
    rw [hr] at h
    simp only [Yields.bind_iff, Yields.mk_pure_iff] at h
    obtain ⟨filters, _, ⟨rfl, rfl⟩, h⟩ := h
    split at h
    · rename_i hj
      simp only [Yields.bind_iff, Yields.pure_iff, Option.some.injEq] at h
      obtain ⟨predicates, _, hp, rfl, rfl⟩ := h
      exact ⟨filters, scope, predicates, hr, hp, .inl ⟨List.isEmpty_iff.1 hj, rfl⟩⟩
    · simp only [Yields.bind_iff, Yields.pure_iff, Yields.mk_pure_iff, Option.some.injEq] at h
      obtain ⟨pk, _, ⟨hpk, rfl⟩, predicates, _, hp, rfl, rfl⟩ := h
      exact ⟨filters, scope, predicates, hr, hp, .inr ⟨pk, hpk, rfl⟩⟩

theorem compileDelete_cases {c : Compiled ι} (h : compileDelete schema p = .ok c) :
    ∃ predicate args, Yields (writeWhere schema p) [] (some predicate) args ∧
      c = { statement :=
        ⟨[.text "DELETE FROM ", .ident [(schema p.model).table]] ++ predicate, args⟩ } := by
  simp only [compileDelete, bind_eq_ok, Binding.run_ok_iff] at h
  obtain ⟨_, -, ⟨predicate, args⟩, hw, h⟩ := h
  cases predicate with
  | none => exact absurd h throw_ne_ok
  | some predicate => exact ⟨predicate, args, hw, (pure_eq_ok.1 h).symm⟩

theorem compileUpdate_cases {x : Instance ι} {c : Compiled ι}
    (h : compileUpdate schema p x = .ok c) :
    ∃ fields sets mid predicate args,
      updateFields schema p x = .ok fields ∧
      Yields (writeSets fields) [] sets mid ∧
      Yields (writeWhere schema p) mid (some predicate) args ∧
      c = { statement := ⟨[.text "UPDATE ", .ident [(schema p.model).table], .text " SET "] ++
        Sql.join ", " sets ++ predicate, args⟩ } := by
  simp only [compileUpdate, bind_eq_ok] at h
  obtain ⟨_, -, fields, hf, h⟩ := h
  split at h
  · obtain ⟨_, h, -⟩ := bind_eq_ok.1 h
    exact absurd h throw_ne_ok
  · simp only [bind_eq_ok, Binding.run_ok_iff, Yields.bind_iff, Yields.pure_iff] at h
    obtain ⟨⟨out, _⟩, ⟨sets, mid, hs, predicate, args, hw, rfl, rfl⟩, h⟩ := h
    cases predicate with
    | none => exact absurd h throw_ne_ok
    | some predicate => exact ⟨fields, sets, mid, predicate, args, hf, hs, hw, (pure_eq_ok.1 h).symm⟩

/-- The tail of an INSERT behind its table. -/
def insertBody (written : List (FieldDef ι × Value)) (returning : List (FieldDef ι)) : Sql :=
  (if written.isEmpty then [.text " ", .emptyInsert]
    else .text " (" :: Sql.join ", " (written.map fun e => .name e.1.column) ++
      [.text ") VALUES ("] ++
      Sql.join ", " ((List.range written.length).map fun i => [.param (i + 1)]) ++ [.text ")"]) ++
    if returning.isEmpty then [] else [.returning (returning.map (·.column))]

theorem compileInsert_cases {model : ι} {x : Instance ι} {c : Compiled ι}
    (h : compileInsert schema model x = .ok c) :
    ∃ fields, insertFields schema model x = .ok fields ∧
      let written := fields.filter fun (f, v) => !leftToDatabase f v
      let returning := (fields.filter fun (f, v) => leftToDatabase f v).map (·.1)
      c = { statement := ⟨[.text "INSERT INTO ", .ident [(schema model).table]] ++
        insertBody written returning, written.map (·.2)⟩, returning } := by
  simp only [compileInsert, bind_eq_ok] at h
  obtain ⟨fields, hf, h⟩ := h
  refine ⟨fields, hf, ?_⟩
  rw [← pure_eq_ok.1 h]
  simp only [insertBody, List.append_assoc]

/-! ## Written fields -/

theorem insertFields_mem {model : ι} {x : Instance ι} {out : List (FieldDef ι × Value)}
    (h : insertFields schema model x = .ok out) : ∀ e ∈ out, e.1 ∈ (schema model).fields := by
  intro e he
  obtain ⟨f, hf, he⟩ := mem_of_mapM_eq_ok h e he
  simp only [bind_eq_ok, pure_eq_ok] at he
  obtain ⟨v, -, rfl⟩ := he
  exact (List.mem_filter.1 hf).1

theorem selectedFields_mem {model : ι} {x : Instance ι} : ∀ {names : List String}
    {out : List (FieldDef ι × Value)}, selectedFields schema model x names = .ok out →
    ∀ e ∈ out, e.1 ∈ (schema model).fields
  | [], _, h, e, he => by
    cases h
    exact absurd he List.not_mem_nil
  | name :: rest, out, h, e, he => by
    unfold selectedFields at h
    split at h
    · exact absurd h throw_ne_ok
    · rename_i f hf
      simp only [bind_eq_ok, pure_eq_ok] at h
      obtain ⟨v, -, others, ho, rfl⟩ := h
      rcases List.mem_cons.1 he with rfl | he
      · exact List.mem_of_find?_eq_some (Option.filter_eq_some_iff.1 hf).1
      · exact selectedFields_mem ho e he

theorem updateFields_mem {x : Instance ι} {out : List (FieldDef ι × Value)}
    (h : updateFields schema p x = .ok out) : ∀ e ∈ out, e.1 ∈ (schema p.model).fields := by
  unfold updateFields at h
  split at h
  · exact selectedFields_mem h
  · simp only [bind_eq_ok, pure_eq_ok] at h
    obtain ⟨fields, hf, rfl⟩ := h
    intro e he
    obtain ⟨f, hmem, he⟩ := mem_of_mapM_eq_ok hf e (List.mem_filter.1 he).1
    simp only [bind_eq_ok, pure_eq_ok] at he
    obtain ⟨v, -, rfl⟩ := he
    exact (List.mem_filter.1 (List.mem_filter.1 hmem).1).1

end Orm
