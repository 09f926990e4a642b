import Orm.Proofs.Alike.Compile

/-
The statements of one query agree on the rows that it matches. `Plan.matched` is what decides them,
the tables joined, the predicates and their values: the SELECT of the keys, the COUNT, the UPDATE and
the DELETE are each put together from it, and there is none of them if there is no `Plan.matched`.
-/

namespace Orm

variable {ι : Type} {schema : Schema ι} {p : Plan ι} {pk : FieldDef ι}

/-- The joined tables, the predicates and the values that decide which rows a query matches. -/
structure Matched where
  scope : Scope
  predicates : List Sql
  args : List Value

def Plan.matched (schema : Schema ι) (p : Plan ι) : Result Matched := do
  p.check
  let filters ← (p.conditions schema).1
  let (predicates, args) ← Binding.run (Expression.writeAll schema (p.nestedIn schema) filters)
  return ⟨(p.conditions schema).2, predicates, args⟩

/-! ## The key -/

/-- A key with a column of its own that is found under its name. -/
structure Model.HasKey (m : Model ι) (pk : FieldDef ι) : Prop where
  first : m.pk? = some pk
  column : pk.hasColumn = true
  named : m.field? pk.name = some pk
  segment : Text.split '.' pk.name = [pk.name]
  ne_star : pk.name ≠ "*"

theorem Model.hasKey_iff {m : Model ι} : m.HasKey pk ↔ m.pk? = some pk ∧ pk.hasColumn = true ∧
    m.field? pk.name = some pk ∧ Text.split '.' pk.name = [pk.name] ∧ pk.name ≠ "*" :=
  ⟨fun h => ⟨h.first, h.column, h.named, h.segment, h.ne_star⟩,
    fun ⟨first, column, named, segment, ne_star⟩ => ⟨first, column, named, segment, ne_star⟩⟩

instance [DecidableEq ι] (m : Model ι) : Decidable (m.HasKey pk) :=
  decidable_of_iff _ Model.hasKey_iff.symm

theorem sample_hasKey (i : Sample) : ∀ pk ∈ (Sample.schema i).pk?, (Sample.schema i).HasKey pk := by
  cases i <;> decide +kernel

/-- The query of nothing but the keys, in no order. -/
def Plan.keys (pk : FieldDef ι) (p : Plan ι) : Plan ι :=
  { p with select := [pk.name], annotations := [], orderBy := some [] }

def keyScan (schema : Schema ι) (model : ι) (pk : FieldDef ι) : ScanPlan ι :=
  (ScanPlan.withRoot model (schema model).table).project 0 pk true

theorem Model.HasKey.walk {model : ι} (h : (schema model).HasKey pk) :
    walk schema model pk.name = .ok ⟨pk.name, model, [], model, some pk⟩ := by
  have hf : (schema model).field pk.name = .ok pk := by
    unfold Model.field
    rw [h.named]
  unfold Orm.walk
  rw [h.segment, walkSegments, if_neg h.ne_star, hf]
  rfl

/-- The key alone needs no tables but the root's. -/
theorem projection_key {model : ι} (h : (schema model).HasKey pk) :
    projection schema model true [pk.name] = pure (keyScan schema model pk) := by
  unfold projection
  rw [List.isEmpty_cons, if_neg Bool.false_ne_true, projectPaths, projectPath, h.walk]
  change ((if pk.hasColumn = true then pure (keyScan schema model pk) else _ :
    Resolving (ScanPlan ι)) >>= _) = _
  rw [if_pos h.column]
  rfl

theorem rootKey_keyScan {model : ι} (h : (schema model).HasKey pk) :
    (keyScan schema model pk).rootKey = some 0 := by
  have hpk : pk.primaryKey = true := Model.pk_primaryKey (Model.pk_eq_ok.2 h.first)
  change ((if pk.primaryKey = true then _ else _ : List (ScanNode ι)).head?).bind _ = _
  rw [if_pos hpk]
  rfl

theorem Plan.resolve_keys (h : (schema p.model).HasKey pk) :
    (p.keys pk).resolve schema [pk.name] false true =
      (do
        Resolving.ofResult p.check
        let filters ← p.resolveConditions schema
        let scope ← get
        return ⟨{ keyScan schema p.model pk with groupRows := scope.toMany }, [], filters, []⟩) := by
  unfold Plan.resolve Plan.resolveConditions
  refine bind_congr fun _ => ?_
  rw [bind_assoc]
  refine bind_congr fun _ => ?_
  change (projection schema p.model true [pk.name] >>= _) = _
  rw [projection_key h, pure_bind]
  change (resolveNamed schema p.model [] >>= _) = _
  rw [resolveNamed, pure_bind]
  refine bind_congr fun filters => ?_
  change (([] : List String).mapM _ >>= _) = _
  rw [List.mapM_nil, pure_bind]
  refine bind_congr fun scope => ?_
  change pure (ResolvedSelect.mk _ _ _ _) = _
  dsimp only
  have hm : (schema (p.keys pk).model).pk? = some pk := h.first
  rw [hm]
  dsimp only
  simp [rootKey_keyScan h]

/-! ## Statements -/

/-- The SELECT of the keys up to its joins. -/
def Model.keysSql (m : Model ι) (pk : FieldDef ι) : Sql :=
  [.text "SELECT ", .ident [m.table, pk.column], .text " AS ",
    .ident [Aliases.columnAlias m.table pk.column], .text " FROM ", .ident [m.table]]

/-- The SELECT of the keys of the rows that are matched. -/
def Matched.keys (schema : Schema ι) (model : ι) (pk : FieldDef ι) (m : Matched) : Compiled ι where
  statement := ⟨(schema model).keysSql pk ++ joinsSql m.scope.joins ++ whereSql m.predicates, m.args⟩
  scan := { keyScan schema model pk with groupRows := m.scope.toMany }

theorem keyScan_entries {model : ι} : (keyScan schema model pk).entries =
    [⟨Aliases.columnAlias (schema model).table pk.column, .field 0 pk⟩] := rfl

theorem keyScan_alias {model : ι} :
    ((keyScan schema model pk).nodes[0]?).map (·.tableAlias) = some (schema model).table := by
  change ((if pk.primaryKey = true then _ else _ : List (ScanNode ι))[0]?).map _ = _
  split <;> rfl

theorem Plan.selectSql_keys (hp : p.paged = false) (hd : p.distinct = false) (m : Matched)
    (filters : List (Expression ι)) :
    (p.keys pk).selectSql schema
        ⟨{ keyScan schema p.model pk with groupRows := m.scope.toMany }, [], filters, []⟩
        m.scope.joins [] m.predicates = (m.keys schema p.model pk).statement.sql := by
  have hlimit : p.limit = none := by
    unfold Plan.paged at hp
    cases hl : p.limit with
    | none => rfl
    | some l => simp [hl] at hp
  have hoffset : p.offset = none := by
    unfold Plan.paged at hp
    cases ho : p.offset with
    | none => rfl
    | some o => simp [ho] at hp
  unfold Plan.selectSql
  simp only [keyScan_entries, List.map_cons, List.map_nil, ScanPlan.fieldSql, keyScan_alias]
  simp only [Plan.keys, hlimit, hoffset, hd]
  simp [Matched.keys, Model.keysSql, orderingSql, pagingSql, Sql.join]

theorem compileSelect_keys (h : (schema p.model).HasKey pk) (hp : p.paged = false)
    (hd : p.distinct = false) : compileSelect schema (p.keys pk) =
      (do
        p.check
        let filters ← (p.conditions schema).1
        let out ← Binding.run (Expression.writeAll schema ((p.keys pk).nestedIn schema) filters)
        return Matched.keys schema p.model pk ⟨(p.conditions schema).2, out.1, out.2⟩) := by
  have hselect : (p.keys pk).select = [pk.name] := rfl
  have hof : outcome (Resolving.ofResult p.check) ({} : Scope) = (p.check, {}) := rfl
  unfold compileSelect Plan.conditions
  rw [Plan.writeSelect_eq, hselect, Plan.resolve_keys h, outcome_bind, hof]
  cases p.check with
  | error e => rfl
  | ok u =>
    dsimp only
    rw [outcome_bind]
    rcases outcome (p.resolveConditions schema) {} with ⟨r, scope⟩
    cases r with
    | error e => rfl
    | ok filters =>
      change (Binding.run (Expression.writeAll schema ((p.keys pk).nestedIn schema) filters >>= fun
          predicates => pure ((p.keys pk).selectSql schema
            ⟨{ keyScan schema p.model pk with groupRows := scope.toMany }, [], filters, []⟩
            scope.joins [] predicates, _)) >>= _) = _
      rw [Binding.run_eq, Binding.runFrom_map]
      change (Binding.run _ >>= _) >>= _ = Binding.run _ >>= _
      rw [bind_assoc]
      refine bind_congr fun out => ?_
      have hsql := @Plan.selectSql_keys _ schema _ pk hp hd ⟨scope, out.1, out.2⟩ filters
      dsimp only at hsql
      change Except.ok (Compiled.mk ⟨_, _⟩ _ _) = Except.ok _
      rw [hsql]
      rfl

theorem Plan.conditions_depth (p : Plan ι) (pk : FieldDef ι) :
    Tied (fun as bs => as = bs ∧ Expression.depthAll as ≤ Expression.planDepth (p.keys pk))
      (p.conditions schema).1 (p.conditions schema).1 := by
  have h := Plan.Like.refl Likeness.equal_reflexive (p.keys pk)
  have ht : Tied _ (p.conditions schema).1 (p.conditions schema).1 :=
    (Plan.resolveConditions_paired Likeness.equal_pins h {} {} rfl).1
  exact (Tied.diag ht).imp fun as bs hab => ⟨hab.1, hab.2.2⟩

/-- Computed columns that are dropped do not change how the predicates are written. -/
theorem Plan.nestedIn_keys (p : Plan ι) (pk : FieldDef ι) :
    Likeness.equal.Nests 0 (After []) (Expression.planDepth (p.keys pk)) (p.nestedIn schema)
      ((p.keys pk).nestedIn schema) := by
  have hle : Expression.planDepth (p.keys pk) ≤ Expression.planDepth p := by
    rw [Expression.planDepth_eq, Expression.planDepth_eq p]
    exact Nat.max_le.2 ⟨Nat.zero_le _, Nat.le_max_right _ _⟩
  have hn : Likeness.equal.Nests 0 (After [])
      (min (Expression.planDepth p) (Expression.planDepth (p.keys pk))) (p.nestedIn schema)
      ((p.keys pk).nestedIn schema) :=
    Plan.writeNested_paired Likeness.equal_pins (Likeness.equal_writes []) _ _
  rwa [Nat.min_eq_right hle] at hn

theorem matched_keys (h : (schema p.model).HasKey pk) (hp : p.paged = false)
    (hd : p.distinct = false) :
    Tied (fun m c => c = m.keys schema p.model pk) (p.matched schema)
      (compileSelect schema (p.keys pk)) := by
  rw [compileSelect_keys h hp hd]
  unfold Plan.matched
  refine (Tied.same _).bind fun _ _ _ => ?_
  refine (p.conditions_depth pk).bind fun filters filters' hf => ?_
  obtain ⟨rfl, hdepth⟩ := hf
  have hw : Paired (After []) (Expression.writeAll schema (p.nestedIn schema) filters)
      (Expression.writeAll schema ((p.keys pk).nestedIn schema) filters) (ShiftedAll 0) :=
    Expression.writeAll_paired (Likeness.equal_writes []) (Plan.nestedIn_keys p pk)
      (Expression.LikeAll.refl Likeness.equal_reflexive filters) hdepth
  refine (hw.runFrom rfl).bind fun out out' ho => ?_
  have hpredicates : out'.1 = out.1 := by
    have hid : Sql.shift 0 = id := funext Sql.shift_zero
    have := ho.1
    rwa [ShiftedAll, hid, List.map_id] at this
  have hargs : out'.2 = out.2 := ho.2
  rw [hpredicates, hargs]
  exact rfl

theorem compileCount_matched (hp : p.paged = false) (hd : p.distinct = false) :
    Tied (fun m c => c = { statement := ⟨.text "SELECT " ::
          (schema p.model).countedSql m.scope.toMany ++ [.text " FROM ", .ident [(schema p.model).table]]
          ++ joinsSql m.scope.joins ++ whereSql m.predicates, m.args⟩ })
      (p.matched schema) (compileCount schema p) := by
  unfold compileCount Plan.matched
  rw [hp, hd]
  refine (Tied.same _).bind fun _ _ _ => ?_
  change Tied _ _ (Binding.run (writeCountPlain schema p) >>= _)
  rw [writeCountPlain_eq, Binding.run_eq, Binding.runFrom_result, bind_assoc]
  refine (Tied.same _).bind fun filters filters' hf => ?_
  subst hf
  rw [Binding.run_eq, Binding.runFrom_map, bind_assoc]
  refine (Tied.same _).bind fun out out' ho => ?_
  subst ho
  exact rfl

/-- The rows of a statement that joins no tables. -/
def Matched.rowsSql (m : Matched) (model : Model ι) (pk : FieldDef ι) : Sql :=
  if m.scope.joins.isEmpty then whereSql m.predicates
  else model.memberSql pk m.scope.joins m.predicates

theorem writeWhere_matched (h : (schema p.model).HasKey pk) (hf : p.filters ≠ []) :
    Tied (fun m out => out = (some (m.rowsSql (schema p.model) pk), m.args)) (p.matched schema)
      (p.check >>= fun _ => Binding.run (writeWhere schema p)) := by
  have hempty : p.filters.isEmpty = false := by
    cases hfs : p.filters with
    | nil => exact absurd hfs hf
    | cons _ _ => rfl
  unfold Plan.matched
  refine (Tied.same _).bind fun _ _ _ => ?_
  rw [writeWhere_eq, hempty, if_neg Bool.false_ne_true, Binding.run_eq, Binding.runFrom_result]
  refine (Tied.same _).bind fun filters filters' hf => ?_
  subst hf
  have hrun : ∀ g : List Sql → Sql, (∀ predicates,
        g predicates = Matched.rowsSql ⟨(p.conditions schema).2, predicates, []⟩ (schema p.model) pk) →
      Tied (fun m out => out = (some (m.rowsSql (schema p.model) pk), m.args))
        (Binding.run (Expression.writeAll schema (p.nestedIn schema) filters) >>= fun out =>
          (.ok ⟨(p.conditions schema).2, out.1, out.2⟩ : Result Matched))
        (Binding.run (Expression.writeAll schema (p.nestedIn schema) filters >>= fun predicates =>
          pure (some (g predicates)))) := by
    intro g hg
    rw [Binding.run_eq, Binding.run_eq, Binding.runFrom_map]
    refine (Tied.same _).bind fun out out' ho => ?_
    subst ho
    exact congrArg (fun sql => (some sql, out.2)) (hg out.1)
  by_cases hj : (p.conditions schema).2.joins.isEmpty = true
  · rw [if_pos hj]
    refine hrun whereSql fun predicates => ?_
    rw [Matched.rowsSql, if_pos hj]
  · rw [if_neg hj, Model.pk_eq_ok.2 h.first]
    refine hrun ((schema p.model).memberSql pk (p.conditions schema).2.joins) fun predicates => ?_
    rw [Matched.rowsSql, if_neg hj]

theorem compileDelete_matched (h : (schema p.model).HasKey pk) (hf : p.filters ≠ []) :
    Tied (fun m c => c = { statement := ⟨[.text "DELETE FROM ", .ident [(schema p.model).table]] ++
        m.rowsSql (schema p.model) pk, m.args⟩ }) (p.matched schema) (compileDelete schema p) := by
  have hdelete : compileDelete schema p = (p.check >>= fun _ => Binding.run (writeWhere schema p)) >>=
      fun out => out.1.elim (.error (.unsafeDelete (schema p.model).table)) fun predicate =>
        .ok { statement :=
          ⟨[.text "DELETE FROM ", .ident [(schema p.model).table]] ++ predicate, out.2⟩ } := by
    rw [compileDelete, bind_assoc]
    refine bind_congr fun _ => bind_congr fun out => ?_
    rcases out with ⟨_ | predicate, args⟩ <;> rfl
  rw [hdelete, ← bind_pure (p.matched schema)]
  refine (writeWhere_matched h hf).bind fun m out ho => ?_
  subst ho
  exact rfl

/-! ## UPDATE -/

/-- The columns of a SET whose values are numbered from `n` on. -/
def setsFrom : Nat → List (FieldDef ι × Value) → List Sql
  | _, [] => []
  | n, (f, _) :: rest => [.ident [f.column], .text " = ", .param (n + 1)] :: setsFrom (n + 1) rest

theorem outcome_writeSets : ∀ (fields : List (FieldDef ι × Value)) (args : List Value),
    outcome (writeSets fields) args =
      (.ok (setsFrom args.length fields), args ++ fields.map (·.2))
  | [], args => by
    rw [List.map_nil, List.append_nil]
    rfl
  | (f, v) :: rest, args => by
    have ih := outcome_writeSets rest (args ++ [v])
    have hbind : outcome (bindValue v) args = (.ok (.param (args ++ [v]).length), args ++ [v]) := rfl
    rw [writeSets, outcome_bind, hbind]
    dsimp only
    rw [outcome_bind, ih]
    simp [setsFrom]

/-- The predicate of a write behind values that are bound already. -/
theorem run_writeWhere_after (fields : List (FieldDef ι × Value)) :
    Tied (fun out out' => out' =
        ((setsFrom 0 fields, out.1.map (Sql.shift fields.length)), fields.map (·.2) ++ out.2))
      (Binding.run (writeWhere schema p))
      (Binding.run do
        let sets ← writeSets fields
        return (sets, ← writeWhere schema p)) := by
  have hw : Paired _ (writeWhere schema p) (writeWhere schema p) _ :=
    writeWhere_paired Likeness.equal_pins (Likeness.equal_writes (fields.map (·.2)))
      (Plan.Like.refl Likeness.equal_reflexive p)
  rw [List.length_map] at hw
  have hsets : Yields (writeSets fields) [] (setsFrom 0 fields) (fields.map (·.2)) :=
    outcome_writeSets fields []
  rw [Binding.run_eq, Binding.run_eq, Binding.runFrom_bind _ hsets, Binding.runFrom_map,
    ← bind_pure (Binding.runFrom [] (writeWhere schema p))]
  refine (hw.runFrom (s := []) (List.append_nil _).symm).bind fun out out' ho => ?_
  obtain ⟨hsql, hargs⟩ := ho
  rw [hsql, hargs]
  exact rfl

theorem compileUpdate_eq {x : Instance ι} {fields : List (FieldDef ι × Value)}
    (hx : updateFields schema p x = .ok fields) (hne : fields ≠ []) :
    compileUpdate schema p x = p.check >>= fun _ =>
      (Binding.run do
        let sets ← writeSets fields
        return (sets, ← writeWhere schema p)) >>= fun out => match out.1.2 with
          | none => throw (.unsafeUpdate (schema p.model).table)
          | some predicate => return { statement :=
              ⟨[.text "UPDATE ", .ident [(schema p.model).table], .text " SET "] ++
                Sql.join ", " out.1.1 ++ predicate, out.2⟩ } := by
  have hempty : fields.isEmpty = false := by
    cases fields with
    | nil => exact absurd rfl hne
    | cons _ _ => rfl
  unfold compileUpdate
  rw [hx]
  refine bind_congr fun _ => ?_
  exact if_neg (ne_of_eq_of_ne hempty Bool.false_ne_true)

theorem compileUpdate_matched (h : (schema p.model).HasKey pk) (hf : p.filters ≠ [])
    {x : Instance ι} {fields : List (FieldDef ι × Value)}
    (hx : updateFields schema p x = .ok fields) (hne : fields ≠ []) :
    Tied (fun m c => c = { statement := ⟨[.text "UPDATE ", .ident [(schema p.model).table],
        .text " SET "] ++ Sql.join ", " (setsFrom 0 fields) ++
        Sql.shift fields.length (m.rowsSql (schema p.model) pk), fields.map (·.2) ++ m.args⟩ })
      (p.matched schema) (compileUpdate schema p x) := by
  have hsets := (Tied.same p.check).bind (f := fun _ => Binding.run (writeWhere schema p))
    fun _ _ _ => run_writeWhere_after fields
  rw [compileUpdate_eq hx hne, ← bind_assoc, ← bind_pure (p.matched schema)]
  refine ((writeWhere_matched h hf).trans hsets).bind fun m out ho => ?_
  obtain ⟨_, rfl, rfl⟩ := ho
  exact rfl

/-! ## Agreement -/

/--
What the other statements of a query have in common with the SELECT of its keys: the joins, the
predicates and the values that it is written with.
-/
structure Plan.Agree (schema : Schema ι) (p : Plan ι) (pk : FieldDef ι) (c : Compiled ι)
    (m : Matched) : Prop where
  select : c = m.keys schema p.model pk
  predicates : m.predicates.length = p.filters.length
  count : compileCount schema p = .ok { statement := ⟨.text "SELECT " ::
    (schema p.model).countedSql m.scope.toMany ++ [.text " FROM ", .ident [(schema p.model).table]] ++
    joinsSql m.scope.joins ++ whereSql m.predicates, m.args⟩ }
  delete : p.filters ≠ [] → compileDelete schema p = .ok { statement :=
    ⟨[.text "DELETE FROM ", .ident [(schema p.model).table]] ++ m.rowsSql (schema p.model) pk,
      m.args⟩ }
  update : p.filters ≠ [] → ∀ x fields, updateFields schema p x = .ok fields → fields ≠ [] →
    compileUpdate schema p x = .ok { statement := ⟨[.text "UPDATE ",
      .ident [(schema p.model).table], .text " SET "] ++ Sql.join ", " (setsFrom 0 fields) ++
      Sql.shift fields.length (m.rowsSql (schema p.model) pk), fields.map (·.2) ++ m.args⟩ }

theorem resolveFilters_length (root : ι) (es : List (Expression ι)) :
    Keeps (fun _ => True) (resolveFilters schema root es) fun es' => es'.length = es.length := by
  induction es with
  | nil => exact Keeps.of_pure rfl
  | cons e rest ih =>
    have any : Keeps (fun _ => True) (e.resolve schema root) fun _ => True :=
      fun _ _ => ⟨trivial, fun _ _ => trivial⟩
    rw [resolveFilters]
    refine any.bind fun e' _ => ?_
    refine ih.bind fun rest' hr => ?_
    exact Keeps.of_pure (by rw [List.length_cons, List.length_cons, hr])

theorem writeAll_length (nested : Plan ι → Binding Sql) (es : List (Expression ι)) :
    Keeps (fun _ => True) (Expression.writeAll schema nested es)
      fun parts => parts.length = es.length := by
  induction es with
  | nil => exact Keeps.of_pure rfl
  | cons e rest ih =>
    have any : Keeps (fun _ => True) (Expression.write schema nested e) fun _ => True :=
      fun _ _ => ⟨trivial, fun _ _ => trivial⟩
    rw [Expression.writeAll]
    refine any.bind fun first _ => ?_
    refine ih.bind fun parts hp => ?_
    exact Keeps.of_pure (by rw [List.length_cons, List.length_cons, hp])

theorem Plan.matched_predicates {m : Matched} (h : p.matched schema = .ok m) :
    m.predicates.length = p.filters.length := by
  simp only [Plan.matched, bind_eq_ok, Binding.run_ok_iff, pure_eq_ok] at h
  obtain ⟨_, -, filters, hf, ⟨predicates, args⟩, hw, rfl⟩ := h
  have hresolve : Yields (p.resolveConditions schema) {} filters (p.conditions schema).2 :=
    Prod.ext hf rfl
  unfold Plan.resolveConditions at hresolve
  obtain ⟨_, _, -, hresolve⟩ := Yields.bind_iff.1 hresolve
  have hfilters := ((resolveFilters_length p.model p.filters).of_yields trivial hresolve).2
  exact ((writeAll_length _ filters).of_yields trivial hw).2.trans hfilters

theorem not_compileDelete_of_filters (h : p.filters = []) (c : Compiled ι) :
    compileDelete schema p ≠ .ok c := by
  intro hc
  obtain ⟨predicate, args, hw, -⟩ := compileDelete_cases hc
  rw [writeWhere_eq, h] at hw
  cases (Yields.pure_iff.1 hw).1

theorem not_compileUpdate_of_filters (h : p.filters = []) (x : Instance ι) (c : Compiled ι) :
    compileUpdate schema p x ≠ .ok c := by
  intro hc
  obtain ⟨fields, sets, mid, predicate, args, -, -, hw, -⟩ := compileUpdate_cases hc
  rw [writeWhere_eq, h] at hw
  cases (Yields.pure_iff.1 hw).1

/-- An UPDATE writes something. -/
theorem compileUpdate_fields {x : Instance ι} {c : Compiled ι}
    (h : compileUpdate schema p x = .ok c) :
    ∃ fields, updateFields schema p x = .ok fields ∧ fields ≠ [] := by
  simp only [compileUpdate, bind_eq_ok] at h
  obtain ⟨_, -, fields, hf, h⟩ := h
  refine ⟨fields, hf, ?_⟩
  rintro rfl
  rw [List.isEmpty_nil, if_pos rfl] at h
  obtain ⟨_, h, -⟩ := bind_eq_ok.1 h
  exact throw_ne_ok h

/--
The statements of a query match the same rows. Where the SELECT of the keys can be written, the COUNT,
the DELETE and the UPDATE have its joins and its predicates with the same values; where it cannot, nor
can they. A write without predicates is never written.
-/
theorem statements_agree (hk : (schema p.model).HasKey pk) (hp : p.paged = false)
    (hd : p.distinct = false) :
    (∀ c, compileSelect schema (p.keys pk) = .ok c → ∃ m, p.Agree schema pk c m) ∧
    ((∀ c, compileSelect schema (p.keys pk) ≠ .ok c) → (∀ c, compileCount schema p ≠ .ok c) ∧
      (∀ c, compileDelete schema p ≠ .ok c) ∧ ∀ x c, compileUpdate schema p x ≠ .ok c) ∧
    (p.filters = [] → (∀ c, compileDelete schema p ≠ .ok c) ∧
      ∀ x c, compileUpdate schema p x ≠ .ok c) := by
  refine ⟨fun c hc => ?_, fun hnone => ?_, fun hf => ?_⟩
  · obtain ⟨m, hm, hselect⟩ := (matched_keys hk hp hd).symm.exists_ok hc
    refine ⟨m, hselect, Plan.matched_predicates hm, ?_, fun hf => ?_, fun hf x fields hx hne => ?_⟩
    · obtain ⟨_, hcount, rfl⟩ := (compileCount_matched hp hd).exists_ok hm
      exact hcount
    · obtain ⟨_, hdelete, rfl⟩ := (compileDelete_matched hk hf).exists_ok hm
      exact hdelete
    · obtain ⟨_, hupdate, rfl⟩ := (compileUpdate_matched hk hf hx hne).exists_ok hm
      exact hupdate
  · have hm : ∀ m, p.matched schema ≠ .ok m := (matched_keys hk hp hd).symm.ne_ok hnone
    refine ⟨(compileCount_matched hp hd).ne_ok hm, ?_, ?_⟩
    · by_cases hf : p.filters = []
      · exact not_compileDelete_of_filters hf
      · exact (compileDelete_matched hk hf).ne_ok hm
    · intro x
      by_cases hf : p.filters = []
      · exact not_compileUpdate_of_filters hf x
      · intro c hc
        obtain ⟨fields, hx, hne⟩ := compileUpdate_fields hc
        exact (compileUpdate_matched hk hf hx hne).ne_ok hm c hc
  · exact ⟨not_compileDelete_of_filters hf, not_compileUpdate_of_filters hf⟩

/-- What was done at home. -/
def doneAtHome : Plan Sample where
  model := .todo
  select := ["title"]
  annotations := [("size", .func { text := "LENGTH(%s)", fields := ["title"], params := [] })]
  filters := [.compare "tags.label" .exact [.string "home"], .compare "done" .exact [.bool true]]

def swept : Instance Sample :=
  (Instance.new Sample.schema .todo).withSlot "title" (.scalar (.string "Sweep"))

theorem doneAtHome_agree : ∃ c m,
    compileSelect Sample.schema (doneAtHome.keys Sample.key) = .ok c ∧
    doneAtHome.Agree Sample.schema Sample.key c m ∧
    (∃ d, compileDelete Sample.schema doneAtHome = .ok d) ∧
    ∃ u, compileUpdate Sample.schema doneAtHome swept = .ok u := by
  obtain ⟨c, hc⟩ : ∃ c, compileSelect Sample.schema (doneAtHome.keys Sample.key) = .ok c :=
    exists_eq_ok (by decide +kernel)
  obtain ⟨m, hm⟩ := (statements_agree (sample_hasKey .todo Sample.key rfl) rfl rfl).1 c hc
  have hfields : updateFields Sample.schema doneAtHome swept =
      .ok [(Sample.scalar "title" .text, .string "Sweep")] := rfl
  exact ⟨c, m, hc, hm, ⟨_, hm.delete nofun⟩, ⟨_, hm.update nofun swept _ hfields nofun⟩⟩

end Orm
