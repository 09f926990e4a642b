import Orm.Proofs.Place.Query
import Orm.Proofs.Scope.Advance

/-
Which relations are joined by inner joins.

An inner join drops the rows of the root that have nothing behind the relation, so it is right only
where these rows are dropped anyway. Apart from explicit joins, the one reason for it is a
comparison that holds wherever the query's expression holds and that pins the primary key behind
forward relations to a value (`Leaf.Pins`): the joins of its path are inner ones where nothing
before it has joined them. Comparisons in computed columns are resolved like those in predicates,
although a computed column should drop no row: what is said of joins is said of both.
-/

namespace Orm

open Expression (conjoinedAll)

variable {ι : Type} {schema : Schema ι} {root : ι}

/-! ## Joins and what they are due to -/

/-- A comparison of one value that is not NULL with the primary key behind forward relations. -/
structure Leaf.Pins (schema : Schema ι) (root : ι) (l : Leaf) (w : Walk ι) : Prop where
  walk : walk schema root l.path = .ok w
  exact : l.lookup = .exact
  value : ∃ v, l.values = [v] ∧ v.isNull = false
  key : ∃ f, w.field = some f ∧ f.primaryKey = true
  forward : ∀ h ∈ w.chain, h.relation.ownsColumn = true

theorem Expression.Leaf.pinned_iff {l : Leaf} : Leaf.pinned l = true ↔
    l.lookup = .exact ∧ ∃ v, l.values = [v] ∧ v.isNull = false := by
  unfold Leaf.pinned
  rw [Bool.and_eq_true, beq_iff_eq]
  refine and_congr_right fun _ => ?_
  split
  · rename_i v hv
    simp [hv]
  · rename_i hne
    simp only [Bool.false_eq_true, false_iff, not_exists, not_and]
    exact fun v hv => absurd hv (hne v)

/-- An inner join on the chain of one of the comparisons, which pins its path. -/
def Join.DueTo (schema : Schema ι) (root : ι) (a : Aliases) (leaves : List Leaf) (j : Join) :
    Prop :=
  ∃ l ∈ leaves, ∃ w, l.Pins schema root w ∧ ∃ c, c <+: w.chain ∧ Placed schema root a c ∧
    j ∈ (a.placeSteps schema root c).map (JoinStep.join .inner)

theorem Join.DueTo.extend {a b : Aliases} {leaves : List Leaf} {j : Join}
    (h : j.DueTo schema root a leaves) (he : Aliases.Extends a b) :
    j.DueTo schema root b leaves := by
  obtain ⟨l, hl, w, hw, c, hc, hp, hj⟩ := h
  exact ⟨l, hl, w, hw, c, hc, hp.extend he, (hp.placeSteps_eq he).symm ▸ hj⟩

/-- Left joins came into scope, and inner ones that are due to the comparisons. -/
structure Scope.JoinsFor (schema : Schema ι) (root : ι) (leaves : List Leaf) (s t : Scope) :
    Prop where
  grown : s.aliases.Sound → Grown s.aliases t.aliases
  joins : s.aliases.Sound → ∃ added, t.joins = s.joins ++ added ∧
    ∀ j ∈ added, j.kind = .left ∨ j.DueTo schema root t.aliases leaves

instance (leaves : List Leaf) : Std.Refl (Scope.JoinsFor schema root leaves) where
  refl s := ⟨fun hs => ⟨hs, .refl _⟩, fun _ => ⟨[], by simp, by simp⟩⟩

instance (leaves : List Leaf) : IsTrans Scope (Scope.JoinsFor schema root leaves) where
  trans s t u hst htu := by
    refine ⟨fun hs => ?_, fun hs => ?_⟩
    · have ht := hst.grown hs
      have hu := htu.grown ht.1
      exact ⟨hu.1, ht.2.trans hu.2⟩
    · have ht := hst.grown hs
      obtain ⟨xs, hxs, hx⟩ := hst.joins hs
      obtain ⟨ys, hys, hy⟩ := htu.joins ht.1
      refine ⟨xs ++ ys, by rw [hys, hxs, List.append_assoc], fun j hj => ?_⟩
      rcases List.mem_append.1 hj with hj | hj
      · exact (hx j hj).imp_right fun h => h.extend (htu.grown ht.1).2
      · exact hy j hj

/-! ## Joining -/

section

variable {s t : Scope} {kind : JoinKind}

theorem Scope.foldl_addStep_joins (kind : JoinKind) (s : Scope) (steps : List JoinStep) :
    ∃ added, (steps.foldl (Scope.addStep kind) s).joins = s.joins ++ added ∧
      ∀ j ∈ added, j ∈ steps.map (JoinStep.join kind) := by
  induction steps generalizing s with
  | nil => exact ⟨[], by simp, by simp⟩
  | cons st steps ih =>
    obtain ⟨added, hj, hadded⟩ := ih (s.addStep kind st)
    rw [List.foldl_cons, hj]
    by_cases h : st.tableAlias ∈ s.names
    · rw [Scope.addStep_of_mem h]
      exact ⟨added, rfl, fun j hj => List.mem_cons_of_mem _ (hadded j hj)⟩
    · rw [Scope.addStep_of_not_mem h]
      refine ⟨st.join kind :: added, by simp, List.forall_mem_cons.2 ⟨List.mem_cons_self, ?_⟩⟩
      exact fun j hj => List.mem_cons_of_mem _ (hadded j hj)

theorem addSteps_kind {u : PUnit} {steps : List JoinStep}
    (hy : Yields (addSteps kind steps) s u t) :
    ∃ added, t.joins = s.joins ++ added ∧ ∀ j ∈ added, j.kind = kind := by
  obtain rfl := Yields.modify_iff.1 hy
  obtain ⟨added, hj, hadded⟩ := Scope.foldl_addStep_joins kind s steps
  refine ⟨added, hj, fun j hj => ?_⟩
  obtain ⟨st, -, rfl⟩ := List.mem_map.1 (hadded j hj)
  rfl

/-- The joins that a chain brings are of one kind. -/
theorem joinChain_kind {x : String} {chain : List (Hop ι)} {hops : List String}
    (hy : Yields (joinChain schema x chain kind) s hops t) :
    ∃ added, t.joins = s.joins ++ added ∧ ∀ j ∈ added, j.kind = kind := by
  simp only [joinChain, Yields.bind_iff, Yields.pure_iff] at hy
  obtain ⟨_, u, hn, _, _, hadd, -, rfl⟩ := hy
  rw [← (naming_yields hn).1]
  exact addSteps_kind hadd

theorem joinRelation_kind {x y : String} {m : ι} {f : FieldDef ι}
    (hy : Yields (joinRelation schema x m f kind) s y t) :
    ∃ added, t.joins = s.joins ++ added ∧ ∀ j ∈ added, j.kind = kind := by
  simp only [joinRelation, Yields.bind_iff, Yields.pure_iff] at hy
  obtain ⟨_, u, hn, _, _, hadd, -, rfl⟩ := hy
  rw [← (naming_yields hn).1]
  exact addSteps_kind hadd

/-- The joins that a chain brings from the root are those of its places. -/
theorem joinRoot_places {chain : List (Hop ι)} {hops : List String} (hs : s.aliases.Sound)
    (hl : ∃ m, Leads schema root chain m)
    (hy : Yields (joinChain schema (schema root).table chain kind) s hops t) :
    ∃ added, t.joins = s.joins ++ added ∧ ∀ j ∈ added, ∃ c, c <+: chain ∧
      Placed schema root t.aliases c ∧
      j ∈ (t.aliases.placeSteps schema root c).map (JoinStep.join kind) := by
  simp only [joinChain, addSteps, Yields.bind_iff, Yields.pure_iff, Yields.modify_iff] at hy
  obtain ⟨out, _, hn, _, _, rfl, -, rfl⟩ := hy
  unfold Yields at hn
  rw [outcome_naming] at hn
  rcases ho : outcome (Naming.chain schema (schema root).table chain) s.aliases with ⟨r, b⟩
  rw [ho] at hn
  cases hn
  obtain ⟨hplaced, rfl⟩ := (chain_named hs (.nil s.aliases) hl ho).ok out rfl
  obtain ⟨added, hj, hadded⟩ := Scope.foldl_addStep_joins kind { s with aliases := b }
    (((placesFrom [] chain).map fun c =>
      (b.placeSteps schema root c, b.placeAlias schema root c)).flatMap (·.1))
  refine ⟨added, hj, fun j hj => ?_⟩
  rw [Scope.foldl_addStep_aliases]
  obtain ⟨st, hst, rfl⟩ := List.mem_map.1 (hadded j hj)
  simp only [List.flatMap_map, List.mem_flatMap] at hst
  obtain ⟨c, hc, hst⟩ := hst
  have hprefix : c <+: chain := (mem_placesFrom.1 hc).2.2
  exact ⟨c, hprefix, hplaced.of_prefix hprefix, List.mem_map_of_mem hst⟩

end

/-! ## Stages -/

/-- The run brings only left joins, and inner ones that are due to the comparisons. -/
abbrev Resolving.JoinsFor {α : Type} (schema : Schema ι) (root : ι) (leaves : List Leaf)
    (x : Resolving α) : Prop :=
  Advances (Scope.JoinsFor schema root leaves) x fun _ _ => True

namespace Resolving.JoinsFor

variable {α : Type} {leaves : List Leaf}

theorem of_pure {a : α} : JoinsFor schema root leaves (pure a) :=
  Advances.of_pure fun _ => trivial

/-- A run that brings only left joins. -/
theorem of_left {x : Resolving α} (hg : Grows x)
    (h : ∀ s a t, Yields x s a t →
      ∃ added, t.joins = s.joins ++ added ∧ ∀ j ∈ added, j.kind = .left) :
    JoinsFor schema root leaves x := by
  refine fun s a t hy => ⟨⟨fun hs => hg.grown hs hy, fun _ => ?_⟩, fun _ _ => trivial⟩
  obtain ⟨added, hj, hleft⟩ := h s a t hy
  exact ⟨added, hj, fun j hj => .inl (hleft j hj)⟩

theorem joinChain (x : String) (chain : List (Hop ι)) :
    JoinsFor schema root leaves (joinChain schema x chain .left) :=
  of_left (joinChain_grows x chain .left) fun _ _ _ => joinChain_kind

theorem joinRelation (x : String) (m : ι) (f : FieldDef ι) :
    JoinsFor schema root leaves (joinRelation schema x m f .left) :=
  of_left (joinRelation_grows x m f .left) fun _ _ _ => joinRelation_kind

/-- A chain from the root is joined by inner joins only for a comparison that pins it. -/
theorem joinRoot {chain : List (Hop ι)} {kind : JoinKind} (hl : ∃ m, Leads schema root chain m)
    (hk : kind = .left ∨
      kind = .inner ∧ ∃ l ∈ leaves, ∃ w, l.Pins schema root w ∧ w.chain = chain) :
    JoinsFor schema root leaves (Orm.joinChain schema (schema root).table chain kind) := by
  refine fun s hops t hy => ⟨⟨fun hs => ?_, fun hs => ?_⟩, fun _ _ => trivial⟩
  · exact (joinChain_grows _ _ _).grown hs hy
  · obtain ⟨added, hj, hadded⟩ := joinRoot_places hs hl hy
    refine ⟨added, hj, fun j hj => ?_⟩
    obtain ⟨c, hc, hp, hmem⟩ := hadded j hj
    rcases hk with rfl | ⟨rfl, l, hmem', w, hw, rfl⟩
    · obtain ⟨st, -, rfl⟩ := List.mem_map.1 hmem
      exact .inl rfl
    · exact .inr ⟨l, hmem', w, hw, c, hc, hp, hmem⟩

/-- The key of a relation without a column is joined from the left. -/
theorem joinKey (x : String) (m : ι) (f : FieldDef ι) {g : String → FieldDef ι → ι → α} :
    JoinsFor schema root leaves (do
      let y ← Orm.joinRelation schema x m f .left
      let target ← ofResult (targetOf schema m f)
      let pk ← ofResult (schema target).pk
      return g y pk target) :=
  (joinRelation x m f).bind_true fun _ => .after_result fun _ _ => .after_result fun _ _ => of_pure

theorem pathEnd (w : Walk ι) (f : FieldDef ι) (x : String) :
    JoinsFor schema root leaves (pathEnd schema w f x) := by
  unfold Orm.pathEnd
  split
  · exact of_pure
  · exact joinKey x w.model f

/-- A path is joined from the left, unless it is that of a comparison that pins it. -/
theorem resolvePath {path : String} {inner : Bool}
    (h : inner = true → ∃ l ∈ leaves, l.path = path ∧ Expression.Leaf.pinned l = true) :
    JoinsFor schema root leaves (resolvePath schema root path inner) := by
  unfold Orm.resolvePath
  refine .after_result fun w hw => ?_
  obtain ⟨-, -, hl, -⟩ := walk_ok hw
  split
  · exact .of_throw
  · rename_i f hf
    refine (joinRoot ⟨_, hl⟩ ?_).bind_true fun hops => pathEnd w f _
    cases hi : inner && w.keepsMatched f with
    | false => exact .inl rfl
    | true =>
      simp only [Bool.and_eq_true, Walk.keepsMatched, List.all_eq_true] at hi
      obtain ⟨hinner, ⟨-, hkey⟩, hforward⟩ := hi
      obtain ⟨l, hmem, rfl, hp⟩ := h hinner
      obtain ⟨hexact, hvalue⟩ := Expression.Leaf.pinned_iff.1 hp
      exact .inr ⟨rfl, l, hmem, w, ⟨hw, hexact, hvalue, ⟨f, hf, hkey⟩, hforward⟩, rfl⟩

theorem projectEnd (dedupe : Bool) (w : Walk ι) (scan : ScanPlan ι) (node : Nat) :
    JoinsFor schema root leaves (projectEnd schema dedupe w scan node) := by
  unfold Orm.projectEnd
  split
  · exact of_pure
  split
  · exact of_pure
  split
  · exact of_pure
  · exact joinKey _ _ _

theorem projectPath (dedupe : Bool) (scan : ScanPlan ι) (path : String) :
    JoinsFor schema root leaves (projectPath schema root dedupe scan path) := by
  rw [projectPath_eq]
  exact .after_result fun w _ => (joinChain _ _).bind_true fun hops => projectEnd dedupe w _ _

theorem projectPaths (dedupe : Bool) : ∀ (scan : ScanPlan ι) (paths : List String),
    JoinsFor schema root leaves (projectPaths schema root dedupe scan paths)
  | _, [] => of_pure
  | scan, path :: rest => (projectPath dedupe scan path).bind_true fun scan' =>
      projectPaths dedupe scan' rest

theorem projection (dedupe : Bool) (paths : List String) :
    JoinsFor schema root leaves (projection schema root dedupe paths) := by
  unfold Orm.projection
  dsimp only
  split
  · exact of_pure
  · exact projectPaths dedupe _ paths

theorem ordering (computed items : List String) :
    JoinsFor schema root leaves (items.mapM (resolveOrderingItem schema root computed)) :=
  fun s a t hy => ⟨((Advances.mapM fun item _ =>
    resolveOrderingItem_advances (C := fun _ _ => True) (fun _ => resolvePath nofun) computed
      item) s a t hy).1, fun _ _ => trivial⟩

end Resolving.JoinsFor

/-! ## Explicit joins -/

theorem conditionSide_grows (side : String) : Grows (conditionSide schema root side) :=
  fun before => (resolvePath_grows side false before).orElse trivial

theorem addExplicit_grows (j : ExplicitJoin) : Grows (addExplicit schema root j) := by
  rw [addExplicit_eq]
  refine Grows.bind ?_ fun condition => ?_
  · unfold explicitCondition
    split
    · rw [map_eq_pure_bind]
      refine Grows.bind ?_ fun _ => .of_pure
      unfold resolveCondition
      split
      · exact .of_throw
      · exact (conditionSide_grows _).bind fun _ => (conditionSide_grows _).bind fun _ => .of_pure
    · exact .of_pure
  · unfold joinTarget
    split
    · refine Grows.bind ((joinChain_grows _ _ _).bind fun _ => joinRelation_grows _ _ _ _)
        fun y before => Keeps.of_modify (fun s hs => ?_) trivial
      cases condition <;> exact hs
    · split
      · exact .of_throw
      · exact fun before => Keeps.of_modify (fun s hs => hs) trivial

theorem addExplicits_grows : ∀ joins : List ExplicitJoin, Grows (addExplicits schema root joins)
  | [] => .of_pure
  | j :: rest => (addExplicit_grows j).bind fun _ => addExplicits_grows rest

/-! ## Queries -/

variable {p : Plan ι}

/-- The joins of a query in the order of the stages that brought them. -/
structure Plan.JoinsByStage (schema : Schema ι) (p : Plan ι)
    (explicit projected computed filtered ordered : List Join) : Prop where
  joins : (p.scope schema).joins = explicit ++ projected ++ computed ++ filtered ++ ordered
  explicit : ∃ s, Yields (addExplicits schema p.model p.joins) {} ⟨⟩ s ∧ s.joins = explicit
  projected : ∀ j ∈ projected, j.kind = .left
  computed : ∀ j ∈ computed, j.kind = .left ∨
    j.DueTo schema p.model (p.scope schema).aliases (conjoinedAll (p.annotations.map (·.2)))
  filtered : ∀ j ∈ filtered, j.kind = .left ∨
    j.DueTo schema p.model (p.scope schema).aliases (conjoinedAll p.filters)
  ordered : ∀ j ∈ ordered, j.kind = .left

theorem Join.dueTo_nil {a : Aliases} {j : Join} : ¬ j.DueTo schema root a [] :=
  fun ⟨_, hl, _⟩ => absurd hl List.not_mem_nil

/-- A SELECT joins by inner joins only what an explicit join asks for, and what lies on the path of
a comparison that pins a key, in a predicate or in a computed column, and holds wherever that
does. -/
theorem compileSelect_innerJoins {c : Compiled ι} (h : compileSelect schema p = .ok c) :
    ∃ r explicit projected computed filtered ordered,
      p.Writes schema r (p.scope schema).joins c ∧
      p.JoinsByStage schema explicit projected computed filtered ordered := by
  obtain ⟨sql, scan, args, hw, rfl⟩ := compileSelect_cases h
  obtain ⟨r, scope, texts, mid, predicates, hres, hcomp, hpred, hout⟩ := Plan.writeSelect_cases hw
  obtain ⟨rfl, rfl⟩ := Prod.mk.inj hout
  have hscope : p.scope schema = scope := congrArg Prod.snd hres
  obtain ⟨-, ⟨st⟩⟩ := Plan.stages hres
  have hp : Scope.JoinsFor schema p.model [] st.explicit st.projected :=
    (Resolving.JoinsFor.projection _ _ _ _ _ st.projection).1
  have ha := (resolveNamed_advances (C := fun _ _ => True)
    (fun _ => Resolving.JoinsFor.resolvePath nofun) p.annotations
    (fun l hl hp => Resolving.JoinsFor.resolvePath fun _ => ⟨l, hl, rfl, hp⟩) _ _ _
    st.annotations).1
  have hf := (resolveFilters_advances (C := fun _ _ => True)
    (fun _ => Resolving.JoinsFor.resolvePath nofun) p.filters
    (fun l hl hp => Resolving.JoinsFor.resolvePath fun _ => ⟨l, hl, rfl, hp⟩) _ _ _ st.filters).1
  have ho : Scope.JoinsFor schema p.model [] st.filtered scope :=
    (Resolving.JoinsFor.ordering _ _ _ _ _ st.ordering).1
  have sound₀ := (addExplicits_grows _).sound Aliases.sound_empty st.joins
  have grown₁ := hp.grown sound₀
  have grown₂ := ha.grown grown₁.1
  have grown₃ := hf.grown grown₂.1
  have grown₄ := ho.grown grown₃.1
  obtain ⟨projected, hj₁, hprojected⟩ := hp.joins sound₀
  obtain ⟨computed, hj₂, hcomputed⟩ := ha.joins grown₁.1
  obtain ⟨filtered, hj₃, hfiltered⟩ := hf.joins grown₂.1
  obtain ⟨ordered, hj₄, hordered⟩ := ho.joins grown₃.1
  refine ⟨r, st.explicit.joins, projected, computed, filtered, ordered, ?_, ?_⟩
  · exact ⟨texts, mid, predicates, hcomp, hpred, by rw [hscope], rfl⟩
  · refine ⟨by rw [hscope, hj₄, hj₃, hj₂, hj₁], ⟨st.explicit, st.joins, rfl⟩, ?_, ?_, ?_, ?_⟩
    · exact fun j hj => (hprojected j hj).resolve_right Join.dueTo_nil
    · rw [hscope]
      exact fun j hj => (hcomputed j hj).imp_right (·.extend (grown₃.2.trans grown₄.2))
    · rw [hscope]
      exact fun j hj => (hfiltered j hj).imp_right (·.extend grown₄.2)
    · exact fun j hj => (hordered j hj).resolve_right Join.dueTo_nil

/-- What one person has to do, with the labels in order. -/
def todosOfThird : Plan Sample where
  model := .todo
  select := ["title"]
  filters := [.all [.compare "user.id" .exact [.int 3], .compare "done" .exact [.bool false]]]
  orderBy := some ["tags.label"]

theorem todosOfThird_innerJoins : ∃ c, compileSelect Sample.schema todosOfThird = .ok c ∧
    (todosOfThird.scope Sample.schema).joins.map (·.kind) = [.inner, .left, .left] ∧
    ∃ r explicit projected computed filtered ordered,
      todosOfThird.Writes Sample.schema r (todosOfThird.scope Sample.schema).joins c ∧
      todosOfThird.JoinsByStage Sample.schema explicit projected computed filtered ordered := by
  obtain ⟨c, hc⟩ : ∃ c, compileSelect Sample.schema todosOfThird = .ok c :=
    exists_eq_ok (by decide +kernel)
  exact ⟨c, hc, by decide +kernel, compileSelect_innerJoins hc⟩

/-- All todos, each with a column that says whether it is one person's. -/
def markedTodos : Plan Sample where
  model := .todo
  select := ["id"]
  annotations := [("mine", .compare "user.id" .exact [.int 3])]

/-- The computed column drops the todos of nobody, although the query has no predicate. -/
theorem markedTodos_drops : markedTodos.filters = [] ∧ markedTodos.joins = [] ∧
    (markedTodos.scope Sample.schema).joins = [⟨.inner, "users", "user_id_users_1",
      [⟨["todos", "user_id"], "=", ["user_id_users_1", "id"]⟩]⟩] ∧
    ∃ c, compileSelect Sample.schema markedTodos = .ok c ∧
      c.statement.sql = [.text "SELECT ", .ident ["todos", "id"], .text " AS ", .ident ["todos_id"],
          .text ", ", .ident ["user_id_users_1", "id"], .text " = ", .param 1, .text " AS ",
          .ident ["mine"], .text " FROM ", .ident ["todos"]] ++
        joinsSql (markedTodos.scope Sample.schema).joins :=
  ⟨rfl, rfl, by decide +kernel, _, rfl, rfl⟩

end Orm
