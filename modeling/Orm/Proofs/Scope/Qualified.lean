import Orm.Proofs.Demand
import Orm.Proofs.Placeholder.Writing
import Orm.Proofs.Scope.Declared

/-
Every column that a SELECT writes is one of a table in its `FROM` clause.

The columns of a query come from resolving it, so they are those of the root and of its joins; a
query nested in it is a SELECT of its own, whose columns are those of its own tables
(`Plan.Declares`). Texts of templates are taken as they are.
-/

namespace Orm

variable {ι : Type} {schema : Schema ι} {names : List String} {N : Sql → Prop}

/-! ## Texts -/

/-- A column with its table is written under one of these names. -/
def Piece.QualifiedBy (names : List String) : Piece → Prop
  | .ident (x :: _ :: _) => x ∈ names
  | _ => True

theorem Column.NamedIn.qualifiedBy {c : Column} (h : c.NamedIn names) :
    Piece.QualifiedBy names (.ident c) := by
  obtain ⟨x, name, rfl, hx⟩ := h
  exact hx

/-- All columns are written under these names, those within nested texts aside. -/
inductive Sql.Within (names : List String) (N : Sql → Prop) : Sql → Prop
  | nil : Within names N []
  | piece {q : Piece} {sql : Sql} : q.QualifiedBy names → Within names N sql →
    Within names N (q :: sql)
  | nested {sub sql : Sql} : N sub → Within names N sql → Within names N (sub ++ sql)

namespace Sql.Within

theorem text {s : String} {sql : Sql} (h : Within names N sql) : Within names N (.text s :: sql) :=
  .piece trivial h

theorem append {a b : Sql} (ha : Within names N a) (hb : Within names N b) :
    Within names N (a ++ b) := by
  induction ha with
  | nil => exact hb
  | piece hq _ ih => exact .piece hq ih
  | nested hn _ ih =>
    rw [List.append_assoc]
    exact .nested hn ih

theorem of_pieces {sql : Sql} (h : ∀ q ∈ sql, Piece.QualifiedBy names q) : Within names N sql := by
  induction sql with
  | nil => exact .nil
  | cons q sql ih =>
    rw [List.forall_mem_cons] at h
    exact .piece h.1 (ih h.2)

theorem join {s : String} : ∀ {parts : List Sql}, (∀ p ∈ parts, Within names N p) →
    Within names N (Sql.join s parts)
  | [], _ => .nil
  | [p], h => h p List.mem_cons_self
  | p :: q :: rest, h => by
    rw [List.forall_mem_cons] at h
    have hrest : Within names N (Sql.join s (q :: rest)) := join h.2
    change Within names N (p ++ Sql.ofText s ++ Sql.join s (q :: rest))
    rw [List.append_assoc]
    exact h.1.append hrest.text

theorem enclose {negated : Bool} {inner : Sql} (h : Within names N inner) :
    Within names N (Expression.enclose negated inner) :=
  (h.append (text .nil)).text

end Sql.Within

/-! ## Expressions -/

theorem Template.fill_within (t : Template) : ∀ (tokens : List TemplateToken)
    (columns : List Column) (params : List Value), (∀ c ∈ columns, c.NamedIn names) →
    (t.fill tokens columns params).Gives (Sql.Within names N) := by
  intro tokens columns params
  fun_induction t.fill tokens columns params with
  | case1 => exact fun _ => Keeps.of_pure .nil
  | case2 => exact fun _ => Keeps.of_throw
  | case3 => exact fun _ => Keeps.of_throw
  | case4 rest c cs ps ih =>
    intro hc
    rw [List.forall_mem_cons] at hc
    exact (ih hc.2).bind fun sql hsql => Keeps.of_pure (.piece hc.1.qualifiedBy hsql)
  | case5 => exact fun _ => Keeps.of_throw
  | case6 rest cs p ps ih =>
    intro hc
    refine (bindValue_gives p).bind ?_
    rintro _ ⟨n, rfl⟩
    exact (ih hc).bind fun sql hsql => Keeps.of_pure (.piece trivial hsql)
  | case7 c rest cs ps ih =>
    intro hc
    exact (ih hc).bind fun sql hsql => Keeps.of_pure hsql.text

theorem Template.write_within {t : Template} (hc : ∀ c ∈ t.columns.getD [], c.NamedIn names) :
    t.write.Gives (Sql.Within names N) := by
  unfold Template.write
  split
  · exact Keeps.of_throw
  · rename_i columns hcols
    rw [hcols] at hc
    exact t.fill_within _ columns t.params hc

theorem Lookup.write_within (l : Lookup) {c : Column} (hc : c.NamedIn names) (values : List Value) :
    (l.write [.ident c] values).Gives (Sql.Within names N) := by
  refine Keeps.of_forall fun args sql args' hy => ?_
  have name : Sql.Within names N [.ident c] := .piece hc.qualifiedBy .nil
  have slot : ∀ {v a q a'}, Yields (bindValue v) a q a' → Sql.Within names N [q] := by
    intro v a q a' h
    obtain ⟨-, n, rfl⟩ := (bindValue_gives v).of_yields trivial h
    exact .piece trivial .nil
  cases Lookup.written_of_yields hy with
  | never => exact .text .nil
  | @member _ _ ps h =>
    have hps := ((Keeps.mapM fun v _ => bindValue_gives v).of_yields trivial h).2
    have items : Sql.Within names N (Sql.join ", " (ps.map ([·]))) := by
      refine Sql.Within.join fun p hp => ?_
      obtain ⟨q, hq, rfl⟩ := List.mem_map.1 hp
      obtain ⟨n, rfl⟩ := hps q hq
      exact .piece trivial .nil
    exact ((name.append (.text .nil)).append items).append (.text .nil)
  | pattern p h =>
    unfold Lookup.Pattern.write
    split
    · exact .text (name.append (.text ((slot h).append (.text .nil))))
    · exact name.append (.text ((slot h).append (.text .nil)))
  | null wanted => exact name.append (.text .nil)
  | compared l h => exact name.append (.text (slot h))

namespace Expression

theorem useSql_within {use : SubqueryUse} {column : Option Column} {inner sql : Sql}
    (hc : ∀ c ∈ column.toList, c.NamedIn names) (hi : N inner)
    (h : useSql use column inner = .ok sql) : sql.Within names N := by
  have closed : Sql.Within names N (inner ++ [.text ")"]) := .nested hi (.text .nil)
  unfold useSql at h
  split at h
  · split at h
    · cases h
    · rename_i c
      cases h
      exact .piece (hc c (by simp)).qualifiedBy (.text closed)
  · cases h
    exact .text closed
  · cases h
    have name : Sql.Within names N [.ident ["djorm_count"], .text ")"] :=
      .piece trivial (.text .nil)
    exact .text (.nested hi (.text name))
  · cases h
    exact .text closed

variable {nested : Plan ι → Binding Sql}

/-- The queries are nested as texts that have `N`, once it is said what they select. -/
def Nests (schema : Schema ι) (nested : Plan ι → Binding Sql) (N : Sql → Prop)
    (queries : List (Plan ι)) : Prop :=
  ∀ q ∈ queries, ∀ q', projected schema q = .ok q' → (nested q').Gives N

mutual
theorem write_within : ∀ e : Expression ι, Nests schema nested N e.queries →
    (∀ c ∈ e.columns, c.NamedIn names) → (e.write schema nested).Gives (Sql.Within names N)
  | .leaf l, _, hc => by
    unfold write
    split
    · exact Keeps.of_throw
    · rename_i c hcol
      exact l.lookup.write_within (hc c (by simp [columns, hcol])) l.values
  | .raw t, _, hc => by
    unfold write
    exact Template.write_within hc
  | .func t, _, hc => by
    unfold write
    exact Template.write_within hc
  | .group connector negated [], _, _ => by
    unfold write
    exact Keeps.of_pure (.enclose (.text .nil))
  | .group connector negated (e :: rest), hn, hc => by
    rw [Nests, queries, queriesAll, List.forall_mem_append] at hn
    rw [columns, columnsAll, List.forall_mem_append] at hc
    unfold write
    refine (write_within e hn.1 hc.1).bind fun first hf => ?_
    refine (writeAll_within rest hn.2 hc.2).bind fun parts hp => Keeps.of_pure ?_
    exact .enclose (.join (List.forall_mem_cons.2 ⟨hf, hp⟩))
  | .subquery use lhs column plan, hn, hc => by
    unfold write
    refine (Keeps.of_result fun q hq => hq).bind fun q hq => ?_
    refine (hn plan (by simp [queries]) q hq).bind fun inner hi => ?_
    exact Keeps.of_result fun sql hsql => useSql_within hc hi hsql

theorem writeAll_within : ∀ es : List (Expression ι), Nests schema nested N (queriesAll es) →
    (∀ c ∈ columnsAll es, c.NamedIn names) →
    (writeAll schema nested es).Gives fun parts => ∀ p ∈ parts, Sql.Within names N p
  | [], _, _ => by
    unfold writeAll
    exact Keeps.of_pure (by simp)
  | e :: rest, hn, hc => by
    rw [Nests, queriesAll, List.forall_mem_append] at hn
    rw [columnsAll, List.forall_mem_append] at hc
    unfold writeAll
    refine (write_within e hn.1 hc.1).bind fun first hf => ?_
    refine (writeAll_within rest hn.2 hc.2).bind fun parts hp => Keeps.of_pure ?_
    exact List.forall_mem_cons.2 ⟨hf, hp⟩
end

end Expression

open Expression (Nests queriesAll columnsAll)

variable {nested : Plan ι → Binding Sql}

theorem writeAnnotations_within : ∀ es : List (String × Expression ι),
    Nests schema nested N (queriesAll (es.map (·.2))) →
    (∀ c ∈ columnsAll (es.map (·.2)), c.NamedIn names) →
    (writeAnnotations schema nested es).Gives fun parts => ∀ p ∈ parts, Sql.Within names N p
  | [], _, _ => by
    unfold writeAnnotations
    exact Keeps.of_pure (by simp)
  | (name, e) :: rest, hn, hc => by
    rw [List.map_cons, Nests, queriesAll, List.forall_mem_append] at hn
    rw [List.map_cons, columnsAll, List.forall_mem_append] at hc
    unfold writeAnnotations
    refine (e.write_within hn.1 hc.1).bind fun value hv => ?_
    refine (writeAnnotations_within rest hn.2 hc.2).bind fun parts hp => Keeps.of_pure ?_
    exact List.forall_mem_cons.2 ⟨hv.append (.text (.piece trivial .nil)), hp⟩

/-! ## Resolved queries -/

theorem ScanPlan.NamedIn.keyed {s : ScanPlan ι} (h : s.NamedIn names) (root : ι)
    (dedupe multiplied : Bool) : (s.keyed schema root dedupe multiplied).NamedIn names := by
  have grouped : ∀ s' : ScanPlan ι, s'.NamedIn names → ∀ b,
      NamedIn names { s' with groupRows := b } := fun s' h' _ => ⟨h'.nodes, h'.entries⟩
  unfold ScanPlan.keyed
  refine grouped _ ?_ _
  split
  · split
    · exact h.project 0 _ dedupe
    · exact h
  · exact h

theorem ScanPlan.NamedIn.fieldSql {s : ScanPlan ι} (h : s.NamedIn names) {e : ScanEntry ι}
    (he : e ∈ s.entries) : (s.fieldSql e).Within names N := by
  unfold ScanPlan.fieldSql
  split
  · rename_i node f hf
    have hlt : node < s.nodes.length := h.entries e he node f hf
    have hx : (s.nodes[node]?.map (·.tableAlias)).getD "" ∈ names := by
      rw [List.getElem?_eq_getElem hlt]
      exact h.nodes _ (List.getElem_mem hlt)
    exact .piece hx (.text (.piece trivial .nil))
  · exact .piece trivial .nil

/-- What a query resolves to has been found in tables of these names. -/
structure ResolvedSelect.NamedIn (p : Plan ι) (names : List String) (r : ResolvedSelect ι) :
    Prop where
  scan : r.scan.NamedIn names
  annotations : Expression.FoundAll (·.NamedIn names) (p.annotations.map (·.2))
    (r.annotations.map (·.2))
  filters : Expression.FoundAll (·.NamedIn names) p.filters r.filters
  ordering : ∀ item ∈ r.ordering, ∀ q ∈ item, Piece.QualifiedBy names q

variable {p : Plan ι} {paths : List String} {asNested dedupe : Bool}

theorem Plan.resolve_declared {r : ResolvedSelect ι} {scope : Scope}
    (h : Yields (p.resolve schema paths asNested dedupe) {} r scope) :
    ((∀ j ∈ p.joins, j.condition = none) → JoinsDeclared (schema p.model).table scope.joins) ∧
      r.NamedIn p ((schema p.model).table :: scope.names) := by
  obtain ⟨-, ⟨st⟩⟩ := Plan.stages h
  have found : ∀ path inner, Advances (Scope.Widens (schema p.model).table)
      (resolvePath schema p.model path inner)
      fun u c => c.NamedIn ((schema p.model).table :: u.names) := resolvePath_widens
  obtain ⟨w₁, scan⟩ := projection_widens st.projection
  obtain ⟨w₂, annotations⟩ := resolveNamed_advances (fun path => found path false) p.annotations
    (fun l _ _ => found l.path true) _ _ _ st.annotations
  obtain ⟨w₃, filters⟩ := resolveFilters_advances (fun path => found path false) p.filters
    (fun l _ _ => found l.path true) _ _ _ st.filters
  obtain ⟨w₄, ordering⟩ := Advances.mapM
    (fun item _ => resolveOrderingItem_advances (fun path => found path false)
      (p.annotations.map (·.1)) item) _ _ _ st.ordering
  have w₂₄ := trans_of _ (trans_of _ w₂ w₃) w₄
  refine ⟨fun hj => ?_, ?_, annotations _ (trans_of _ w₃ w₄), filters _ w₄, fun item hi => ?_⟩
  -- explicit joins find nothing in scope, so only their conditions could name a table too early
  · have w₀ := ((addExplicits_widens hj) _ _ _ st.joins).1
    exact (trans_of _ w₀ (trans_of _ w₁ w₂₄)).declared (JoinsDeclared.nil _)
  · exact st.scan_eq ▸ (scan.mono w₂₄.tables).keyed _ _ _
  · obtain ⟨c, direction, rfl, hc⟩ := ordering scope (refl_of _ scope) item hi
    refine List.forall_mem_cons.2 ⟨?_, by simp [Piece.QualifiedBy]⟩
    rcases hc with ⟨name, rfl⟩ | hc
    · trivial
    · exact hc.qualifiedBy

/-! ## Parts of queries -/

/-- The queries nested in a query, those nested in them aside. -/
def Plan.queries (p : Plan ι) : List (Plan ι) :=
  queriesAll (p.annotations.map (·.2)) ++ queriesAll p.filters

namespace Demand

variable {D : Demand ι}

mutual
theorem OnExpression.parts : ∀ {e : Expression ι}, D.OnExpression e →
    (∀ c ∈ e.columns, D.column c) ∧ ∀ q ∈ e.queries, D.OnPlan q
  | .leaf l, h => by
    rw [OnExpression] at h
    exact ⟨fun c hc => h c (Option.mem_toList.1 hc), by simp [Expression.queries]⟩
  | .raw t, h | .func t, h => by
    rw [OnExpression] at h
    refine ⟨fun c hc => ?_, by simp [Expression.queries]⟩
    rw [Expression.columns] at hc
    rcases hcs : t.columns with _ | cs
    · simp [hcs] at hc
    · exact h.2 cs hcs c (by simpa [hcs] using hc)
  | .group _ _ children, h => by
    rw [OnExpression] at h
    exact OnAll.parts h
  | .subquery _ _ column plan, h => by
    rw [OnExpression] at h
    refine ⟨fun c hc => h.1 c (Option.mem_toList.1 hc), fun q hq => ?_⟩
    obtain rfl := List.mem_singleton.1 hq
    exact h.2

theorem OnAll.parts : ∀ {es : List (Expression ι)}, D.OnAll es →
    (∀ c ∈ columnsAll es, D.column c) ∧ ∀ q ∈ queriesAll es, D.OnPlan q
  | [], _ => ⟨fun _ hc => absurd hc List.not_mem_nil, fun _ hq => absurd hq List.not_mem_nil⟩
  | e :: rest, h => by
    rw [OnAll] at h
    obtain ⟨hc, hq⟩ := OnExpression.parts h.1
    obtain ⟨hcs, hqs⟩ := OnAll.parts h.2
    rw [columnsAll, queriesAll, List.forall_mem_append, List.forall_mem_append]
    exact ⟨⟨hc, hcs⟩, hq, hqs⟩
end

theorem OnNamed.parts : ∀ {es : List (String × Expression ι)}, D.OnNamed es →
    (∀ c ∈ columnsAll (es.map (·.2)), D.column c) ∧ ∀ q ∈ queriesAll (es.map (·.2)), D.OnPlan q
  | [], _ => ⟨fun _ hc => absurd hc List.not_mem_nil, fun _ hq => absurd hq List.not_mem_nil⟩
  | (_, e) :: rest, h => by
    rw [OnNamed] at h
    obtain ⟨hc, hq⟩ := h.1.parts
    obtain ⟨hcs, hqs⟩ := OnNamed.parts h.2
    rw [List.map_cons, columnsAll, queriesAll, List.forall_mem_append, List.forall_mem_append]
    exact ⟨⟨hc, hcs⟩, hq, hqs⟩

/-- Nothing has been given a column yet, in nested queries either. -/
def fresh : Demand ι where
  column _ := False
  template _ := True
  plan _ := True

theorem fresh_projected {q q' : Plan ι} (hq : fresh.OnPlan q)
    (h : Expression.projected schema q = .ok q') : fresh.OnPlan q' := by
  obtain ⟨select, rfl⟩ := Expression.projected_eq_ok h
  rw [onPlan_iff] at hq ⊢
  exact ⟨trivial, hq.2⟩

end Demand

/-- A query that is built and not resolved has only the columns that resolving finds. -/
theorem ResolvedSelect.NamedIn.columns {r : ResolvedSelect ι} (h : r.NamedIn p names)
    (hp : Demand.fresh.OnPlan p) :
    (∀ c ∈ columnsAll (r.annotations.map (·.2)), c.NamedIn names) ∧
      ∀ c ∈ columnsAll r.filters, c.NamedIn names := by
  obtain ⟨-, annotations, filters⟩ := (Demand.onPlan_iff p).1 hp
  exact ⟨fun c hc => (h.annotations.columns c hc).resolve_left (annotations.parts.1 c),
    fun c hc => (h.filters.columns c hc).resolve_left (filters.parts.1 c)⟩

/-! ## SELECT -/

/-- A SELECT put together from what the query resolves to and what its computed columns and its
predicates are written as. -/
structure Plan.SelectParts (schema : Schema ι) (nested : Plan ι → Binding Sql) (asNested : Bool)
    (p : Plan ι) (r : ResolvedSelect ι) (scope : Scope) (computed predicates : List Sql)
    (sql : Sql) : Prop where
  resolved : Yields (p.resolve schema p.select asNested true) {} r scope
  written : ∃ args mid args',
    Yields (writeAnnotations schema nested r.annotations) args computed mid ∧
    Yields (Expression.writeAll schema nested r.filters) mid predicates args'
  text : sql = p.selectSql schema r scope.joins computed predicates

/-- A SELECT whose columns are those of the root and of tables that it joins, while queries nested
in it, at most so deep, have columns of their own tables. Unless the query states conditions of
joins itself, each join compares columns of the root, of joins before it and of its own table. -/
def Plan.Declares (schema : Schema ι) : Nat → Bool → Plan ι → Sql → Prop
  | 0, _, _, _ => False
  | depth + 1, asNested, p, sql => ∃ r scope computed predicates,
    p.SelectParts schema (Plan.writeNested schema depth) asNested r scope computed predicates sql ∧
    ((∀ j ∈ p.joins, j.condition = none) → JoinsDeclared (schema p.model).table scope.joins) ∧
    ∀ part ∈ r.scan.entries.map r.scan.fieldSql ++ computed ++ predicates ++ r.ordering,
      part.Within ((schema p.model).table :: scope.names) fun sub =>
        ∃ q ∈ p.queries, ∃ q', Expression.projected schema q = .ok q' ∧
          Plan.Declares schema depth true q' sub

theorem Plan.writeSelect_declares {depth : Nat} (hp : Demand.fresh.OnPlan p)
    (hn : ∀ q : Plan ι, Demand.fresh.OnPlan q →
      (Plan.writeNested schema depth q).Gives (q.Declares schema depth true)) :
    (p.writeSelect schema (Plan.writeNested schema depth) p.select asNested true).Gives fun out =>
      p.Declares schema (depth + 1) asNested out.1 := by
  refine Keeps.of_forall fun args out args' hy => ?_
  obtain ⟨r, scope, computed, mid, predicates, hr, hc, hpr, rfl⟩ := Plan.writeSelect_cases hy
  obtain ⟨hj, hnamed⟩ := Plan.resolve_declared hr
  obtain ⟨hann, hfil⟩ := hnamed.columns hp
  obtain ⟨-, annotations, filters⟩ := (Demand.onPlan_iff p).1 hp
  refine ⟨r, scope, computed, predicates, ⟨hr, ⟨args, mid, args', hc, hpr⟩, rfl⟩, hj, ?_⟩
  -- resolving leaves nested queries as they are, so they are those of the plan and still unresolved
  have nests : ∀ queries ⊆ p.queries, (∀ q ∈ queries, Demand.fresh.OnPlan q) →
      Nests schema (Plan.writeNested schema depth) (fun sub => ∃ q ∈ p.queries, ∃ q',
        Expression.projected schema q = .ok q' ∧ q'.Declares schema depth true sub) queries :=
    fun queries hsub hfresh q hq q' hq' => (hn q' (Demand.fresh_projected (hfresh q hq) hq')).imp
      fun sub hsub' => ⟨q, hsub hq, q', hq', hsub'⟩
  have hcomputed := ((writeAnnotations_within r.annotations (hnamed.annotations.queries ▸
    nests _ (List.subset_append_left _ _) annotations.parts.2) hann).of_yields trivial hc).2
  have hpredicates := ((Expression.writeAll_within r.filters (hnamed.filters.queries ▸
    nests _ (List.subset_append_right _ _) filters.parts.2) hfil).of_yields trivial hpr).2
  simp only [List.forall_mem_append, List.forall_mem_map]
  refine ⟨⟨⟨fun e he => hnamed.scan.fieldSql he, hcomputed⟩, hpredicates⟩, fun item hi => ?_⟩
  exact .of_pieces (hnamed.ordering item hi)

theorem Plan.writeNested_declares : ∀ (depth : Nat) (p : Plan ι), Demand.fresh.OnPlan p →
    (Plan.writeNested schema depth p).Gives (p.Declares schema depth true)
  | 0, _, _ => Keeps.of_throw
  | depth + 1, p, hp => by
    unfold Plan.writeNested
    exact (Plan.writeSelect_declares hp (Plan.writeNested_declares depth)).bind
      fun out ho => Keeps.of_pure ho

/-- In the SELECT of a query as it is built, and in every query nested in it, all columns are those
of the root and of tables that are joined, and a join compares columns of tables before it. -/
theorem compileSelect_declares {c : Compiled ι} (hp : Demand.fresh.OnPlan p)
    (h : compileSelect schema p = .ok c) :
    p.Declares schema (Expression.planDepth p + 1) false c.statement.sql := by
  obtain ⟨sql, scan, args, hw, rfl⟩ := compileSelect_cases h
  exact ((Plan.writeSelect_declares hp (Plan.writeNested_declares _)).of_yields trivial hw).2

/-- What people with a profile of one name have to do at home, beside every category. -/
def todosOfNamesakes : Plan Sample where
  model := .todo
  select := ["title", "user.name"]
  annotations := [("owner", .func { text := "LOWER(%s)", fields := ["user.name"], params := [] })]
  filters := [
    .memberOf "user"
      { model := .user, filters := [.compare "profile.name" .exact [.string "Ann"]] },
    .compare "tags.label" .exact [.string "home"]]
  orderBy := some ["-user.profile.name"]
  joins := [⟨.inner, "user", none⟩, ⟨.cross, "categories", none⟩]

theorem todosOfNamesakes_declares : ∃ c,
    compileSelect Sample.schema todosOfNamesakes = .ok c ∧
    (todosOfNamesakes.scope Sample.schema).names = ["user_id_users_1", "categories",
      "tags_todos_tags_1", "tags_id_tags_1", "profile_id_profiles_1"] ∧
    (∀ j ∈ todosOfNamesakes.joins, j.condition = none) ∧
    todosOfNamesakes.Declares Sample.schema 2 false c.statement.sql := by
  obtain ⟨c, hc⟩ : ∃ c, compileSelect Sample.schema todosOfNamesakes = .ok c :=
    exists_eq_ok (by decide +kernel)
  have hfresh : Demand.fresh.OnPlan todosOfNamesakes := by
    simp [todosOfNamesakes, Demand.OnPlan, Demand.OnNamed, Demand.OnAll, Demand.OnExpression,
      Demand.fresh, Expression.memberOf, Expression.compare]
  exact ⟨c, hc, by decide +kernel, by simp [todosOfNamesakes], compileSelect_declares hfresh hc⟩

end Orm
