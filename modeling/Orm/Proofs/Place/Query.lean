import Orm.Proofs.Place.Explicit
import Orm.Proofs.Place.Projection
import Orm.Sample

/-
The places of a query: which relations it crosses, and the one join or two by which each is reached.

The rows of a SELECT are grouped if and only if a relation that the query crosses leads to many
(`compileSelect_groupRows`).
-/

namespace Orm

section

variable {ι : Type} {schema : Schema ι} {p : Plan ι}

/-! ## Resolving a query -/

/-- The places that a query visits after its explicit joins. -/
def Plan.visits (schema : Schema ι) (p : Plan ι) (paths : List String) (asNested : Bool) :
    List (Visit ι) :=
  paths.flatMap (pathVisits schema p.model false) ++
    (p.annotations.flatMap (fun e => e.2.visits schema p.model true) ++
      (p.filters.flatMap (Expression.visits schema p.model true) ++
        (p.ordering schema asNested).flatMap
          (orderingVisits schema p.model (p.annotations.map (·.1)))))

/-- The nodes of a projection stand at the root and at the places that its paths cross. -/
def ScanPlan.StandsAt (schema : Schema ι) (root : ι) (a : Aliases) (paths : List String)
    (s : ScanPlan ι) : Prop :=
  ∃ places, ScanAt schema root a s places ∧
    ∀ c, c ∈ places ↔ c = [] ∨ ∃ path ∈ paths, Crosses schema root path c

/-- A resolved query has the columns of its paths, under the aliases of their places. -/
structure ResolvedSelect.NamedBy (schema : Schema ι) (p : Plan ι) (paths : List String)
    (asNested : Bool) (a : Aliases) (r : ResolvedSelect ι) : Prop where
  scan : r.scan.StandsAt schema p.model a paths
  annotations : r.annotations =
    p.annotations.map fun e => (e.1, e.2.withColumns (columnAt schema p.model a))
  filters : r.filters = p.filters.map (Expression.withColumns (columnAt schema p.model a))
  ordering : r.ordering = (p.ordering schema asNested).map
    (orderingItemSql (columnAt schema p.model a) (p.annotations.map (·.1)))

section

variable [DecidableEq ι] {others : List String} {paths : List String} {asNested dedupe : Bool}

/-- Resolving visits the places of the query, one stage after the other. -/
theorem Plan.Stages.visited {s t : Scope} {r : ResolvedSelect ι} {joined : List (List (Hop ι))}
    (hk : JoinKeysDistinct schema) (st : p.Stages schema paths asNested dedupe s r t)
    (hm : Mapped schema p.model others st.explicit joined)
    (hc : Clean schema p.model others t.aliases) :
    Visited schema p.model others st.explicit joined (p.visits schema paths asNested) t ∧
      st.scan.StandsAt schema p.model t.aliases paths ∧
      r.NamedBy schema p paths asNested t.aliases := by
  have hann : Visits schema p.model others _ _ _ := resolveNamed_visits hk p.annotations
  have hfil : Visits schema p.model others _ _ _ := resolveFilters_visits hk p.filters
  have hord : Visits schema p.model others _ _ _ :=
    Visits.mapM fun item (_ : item ∈ p.ordering schema asNested) =>
      resolveOrderingItem_visits hk (p.annotations.map (·.1)) item
  have h₁ := (projection_grows _ _).sound hm.sound st.projection
  have h₂ := hann.grows.sound h₁ st.annotations
  have h₃ := hfil.grows.sound h₂ st.filters
  have c₃ := hc.of_extends (hord.grows.extends h₃ st.ordering)
  have c₂ := c₃.of_extends (hfil.grows.extends h₂ st.filters)
  have c₁ := c₂.of_extends (hann.grows.extends h₁ st.annotations)
  obtain ⟨v₁, places, hplaces, hscan⟩ := projection_visited hk hm st.projection c₁
  obtain ⟨v₂, ha⟩ := hann.visited _ _ _ _ v₁.mapped st.annotations c₂
  obtain ⟨v₃, hf⟩ := hfil.visited _ _ _ _ v₂.mapped st.filters c₃
  obtain ⟨v₄, ho⟩ := hord.visited _ _ _ _ v₃.mapped st.ordering hc
  have hrest := v₂.trans (v₃.trans v₄)
  have hfinal := hscan.extend hrest.extend
  refine ⟨v₁.trans hrest, ⟨places, hfinal, hplaces⟩, ⟨places, ?_, hplaces⟩,
    ha _ (v₃.trans v₄).extend, hf _ v₄.extend, ho _ (.refl _)⟩
  rw [st.scan_eq]
  exact hfinal.withKey dedupe t.toMany

end

/-! ## The joins of a place -/

/-- Each join starts where the one before it ends. -/
def Linked : String → List JoinStep → String → Prop
  | x, [], y => x = y
  | x, st :: rest, y => st.parentAlias = x ∧ Linked st.tableAlias rest y

theorem Aliases.linked_stepsAt {a : Aliases} {x y : String} {es : List Edge}
    (hf : a.follow x (es.map (·.key)) = some y) : Linked x (a.stepsAt x es) y := by
  induction es generalizing x with
  | nil => exact Option.some.inj hf
  | cons e es ih =>
    rw [List.map_cons, Aliases.follow, Option.bind_eq_some_iff] at hf
    obtain ⟨z, hz, hf⟩ := hf
    rw [Aliases.stepsAt_cons hz]
    exact ⟨rfl, ih hf⟩

theorem Aliases.map_table_stepsAt (a : Aliases) (x : String) (es : List Edge) :
    (a.stepsAt x es).map (·.table) = es.map (·.table) := by
  induction es generalizing x with
  | nil => rfl
  | cons e es ih => rw [Aliases.stepsAt, List.map_cons, List.map_cons, ih, Edge.step]

/-- The joins from a place to the target of one of its relations: the target's, and the junction's
before it if there is one. -/
structure ReachedByJoins (schema : Schema ι) (root : ι) (a : Aliases) (c : List (Hop ι))
    (h : Hop ι) : Prop where
  linked : Linked (a.placeAlias schema root c) (a.placeSteps schema root (c ++ [h]))
    (a.placeAlias schema root (c ++ [h]))
  length : (a.placeSteps schema root (c ++ [h])).length =
    if h.relation.kind = .manyToMany then 2 else 1
  target : ((a.placeSteps schema root (c ++ [h])).map (·.table)).getLast? =
    some (schema h.relation.target).table

theorem Placed.reachedByJoins {root : ι} {a : Aliases} {c : List (Hop ι)} {h : Hop ι}
    (hc : Placed schema root a (c ++ [h])) : ReachedByJoins schema root a c h := by
  obtain ⟨es, hes, -, hf, hst⟩ := hc.placeSteps_snoc
  have htables := a.map_table_stepsAt (a.placeAlias schema root c) es
  refine ⟨hst ▸ Aliases.linked_stepsAt hf, ?_, ?_⟩
  · rw [hst, ← relationEdges_length hes]
    simpa using congrArg List.length htables
  · rw [hst, htables]
    obtain ⟨_, -, ⟨-, rfl⟩ | ⟨-, _, -, ⟨-, _, -, rfl⟩ | ⟨-, _, _, -, -, rfl⟩⟩⟩ :=
      relationEdges_cases hes
    all_goals rfl

/-- Different places have joins of different names. -/
theorem joinsOf_names_nodup (hk : JoinKeysDistinct schema) {root : ι} {a : Aliases} (hs : a.Sound)
    (hr : (schema root).table ∉ a.used) {visits : List (Visit ι)}
    (hp : ∀ v ∈ visits, Placed schema root a v.place) (hn : (visits.map (·.place)).Nodup) :
    ((joinsOf schema root a visits).map (·.tableAlias)).Nodup := by
  have hnames : (joinsOf schema root a visits).map (·.tableAlias) =
      (visits.map (·.place)).flatMap fun c => (a.placeSteps schema root c).map (·.tableAlias) := by
    simp only [joinsOf, List.map_flatMap, List.flatMap_map, List.map_map]
    rfl
  rw [hnames, List.nodup_flatMap]
  have hplaced : ∀ c ∈ visits.map (·.place), Placed schema root a c := by
    intro c hc
    obtain ⟨v, hv, rfl⟩ := List.mem_map.1 hc
    exact hp v hv
  have hprefix : ∀ {c d : List (Hop ι)} {y : String}, Placed schema root a c →
      Placed schema root a d → y ∈ (a.placeSteps schema root c).map (·.tableAlias) →
      y ∈ (a.placeSteps schema root d).map (·.tableAlias) → c <+: d := by
    intro c d y hc hd hyc hyd
    obtain ⟨st, hst, rfl⟩ := List.mem_map.1 hyc
    obtain ⟨st', hst', he⟩ := List.mem_map.1 hyd
    obtain rfl | ⟨c, h, rfl⟩ := List.eq_nil_or_concat c
    · exact List.nil_prefix
    · rw [List.concat_eq_append] at hc hst ⊢
      exact hc.prefix_of_alias_eq hk hs hr hd hst hst' he.symm
  refine ⟨fun c hc => (hplaced c hc).steps_nodup hs hr, ?_⟩
  refine hn.imp_of_mem fun {c d} hc hd hne => ?_
  intro y hyc hyd
  have hcd := hprefix (hplaced c hc) (hplaced d hd) hyc hyd
  have hdc := hprefix (hplaced d hd) (hplaced c hc) hyd hyc
  exact hne (hcd.eq_of_length (Nat.le_antisymm hcd.length_le hdc.length_le))

/-! ## The joins of a query -/

/-- The relations of a place are crossed somewhere in a query. -/
def Plan.Mentions (schema : Schema ι) (p : Plan ι) (c : List (Hop ι)) : Prop :=
  (∃ path ∈ p.select, Crosses schema p.model path c) ∨
    (∃ e ∈ p.annotations, ∃ path ∈ e.2.paths, Crosses schema p.model path c) ∨
    (∃ e ∈ p.filters, ∃ path ∈ e.paths, Crosses schema p.model path c) ∨
    ∃ item ∈ p.ordering schema false, ordersComputed (p.annotations.map (·.1)) item = false ∧
      Crosses schema p.model (orderingPath item).1 c

/-- No expression of a query has columns yet. -/
structure Plan.Fresh (p : Plan ι) : Prop where
  annotations : ∀ e ∈ p.annotations, e.2.Fresh
  filters : ∀ e ∈ p.filters, e.Fresh

theorem Plan.mem_visits (hf : p.Fresh) {c : List (Hop ι)} :
    (∃ v ∈ p.visits schema p.select false, v.place = c) ↔ p.Mentions schema c := by
  rw [Plan.visits, exists_visit_append, exists_visit_append, exists_visit_append,
    exists_visit_flatMap, exists_visit_flatMap, exists_visit_flatMap, exists_visit_flatMap,
    Plan.Mentions]
  refine or_congr ?_ (or_congr ?_ (or_congr ?_ ?_))
  · simp only [mem_pathVisits]
  · exact exists_congr fun e => and_congr_right fun he =>
      Expression.mem_visits true (hf.annotations e he)
  · exact exists_congr fun e => and_congr_right fun he =>
      Expression.mem_visits true (hf.filters e he)
  · refine exists_congr fun item => and_congr_right fun _ => ?_
    unfold orderingVisits
    split
    · rename_i hc
      simp [hc]
    · rename_i hc
      rw [mem_pathVisits]
      simp [hc]

/-- The tables that a SELECT has in scope. -/
def Plan.scope (schema : Schema ι) (p : Plan ι) : Scope :=
  (outcome (p.resolve schema p.select false true) {}).2

/-- The text of a compiled SELECT, from what its parts resolve to. -/
def Plan.Writes (schema : Schema ι) (p : Plan ι) (r : ResolvedSelect ι) (joins : List Join)
    (c : Compiled ι) : Prop :=
  ∃ computed mid predicates,
    Yields (writeAnnotations schema (p.nestedIn schema) r.annotations) [] computed mid ∧
    Yields (Expression.writeAll schema (p.nestedIn schema) r.filters) mid predicates
      c.statement.args ∧
    c.statement.sql = p.selectSql schema r joins computed predicates ∧ c.scan = r.fullScan

/-- The joins of a query are those by which its places are reached, and the names of places and of
joins tell them apart. -/
structure Plan.JoinsPlaces (schema : Schema ι) (p : Plan ι) (a : Aliases)
    (visits : List (Visit ι)) : Prop where
  nodup : (visits.map (·.place)).Nodup
  mentioned : ∀ c, c ∈ visits.map (·.place) ↔ p.Mentions schema c
  reached : ∀ c h, p.Mentions schema (c ++ [h]) → ReachedByJoins schema p.model a c h
  places : ∀ c d, p.Mentions schema c → p.Mentions schema d →
    (a.placeAlias schema p.model c = a.placeAlias schema p.model d ↔ c = d)
  names : ((joinsOf schema p.model a visits).map (·.tableAlias)).Nodup

/-- A SELECT names each place that it mentions by an alias of its own, and joins each once. -/
theorem compileSelect_joinsPlaces [DecidableEq ι] {c : Compiled ι} (hk : JoinKeysDistinct schema)
    (hr : (schema p.model).table ∉ (p.scope schema).aliases.used) (hf : p.Fresh)
    (hj : p.joins = []) (h : compileSelect schema p = .ok c) :
    ∃ r visits, p.Writes schema r (joinsOf schema p.model (p.scope schema).aliases visits) c ∧
      r.NamedBy schema p p.select false (p.scope schema).aliases ∧
      p.JoinsPlaces schema (p.scope schema).aliases visits := by
  obtain ⟨sql, scan, args, hw, rfl⟩ := compileSelect_cases h
  obtain ⟨r, scope, computed, mid, predicates, hres, hcomp, hpred, hout⟩ := Plan.writeSelect_cases hw
  obtain ⟨rfl, rfl⟩ := Prod.mk.inj hout
  have hscope : p.scope schema = scope := congrArg Prod.snd hres
  rw [hscope] at hr ⊢
  obtain ⟨-, ⟨st⟩⟩ := Plan.stages hres
  have hexplicit := st.joins
  rw [hj] at hexplicit
  obtain ⟨-, hempty⟩ := Yields.pure_iff.1 hexplicit
  have hm : Mapped schema p.model [] st.explicit [] := hempty ▸ Mapped.empty schema p.model []
  obtain ⟨hv, -, hnamed⟩ := st.visited hk hm ⟨hr, by simp⟩
  have hplaces : ∀ d, d ∈ (arrivals [] (p.visits schema p.select false)).map (·.place) ↔
      p.Mentions schema d := by
    intro d
    have hmem : d ∈ joinedAfter [] (p.visits schema p.select false) ↔ _ := mem_joinedAfter
    rw [← Plan.mem_visits hf]
    simpa [joinedAfter] using hmem
  have hplaced : ∀ d, p.Mentions schema d → Placed schema p.model scope.aliases d :=
    fun d hd => hv.mapped.placed d (List.mem_append_right _ ((hplaces d).2 hd))
  have hnodup : ((arrivals [] (p.visits schema p.select false)).map (·.place)).Nodup := by
    have hjoined : (joinedAfter [] (p.visits schema p.select false)).Nodup :=
      joinedAfter_nodup List.nodup_nil
    simpa [joinedAfter] using hjoined
  refine ⟨r, arrivals [] (p.visits schema p.select false), ?_, hnamed, hnodup, hplaces, ?_, ?_, ?_⟩
  · refine ⟨computed, mid, predicates, hcomp, hpred, ?_, rfl⟩
    rw [hv.joins, ← hempty]
    rfl
  · exact fun d h hd => (hplaced _ hd).reachedByJoins
  · refine fun d e hd he => ⟨fun halias => ?_, fun heq => heq ▸ rfl⟩
    exact (hplaced d hd).placeAlias_injective hk hv.mapped.sound hr (hplaced e he) halias
  · exact joinsOf_names_nodup hk hv.mapped.sound hr
      (fun v hv => hplaced _ ((hplaces _).1 (List.mem_map_of_mem hv))) hnodup

theorem sample_joinKeysDistinct : JoinKeysDistinct Sample.schema := by
  intro i
  cases i <;> decide +kernel

/-- Reminders with the two people that they lead to, and what one of those has to do. -/
def remindersOfTwo : Plan Sample where
  model := .reminder
  select := ["title", "user.name", "note.user.name"]
  filters := [.compare "note.user.todos.tags.label" .exact [.string "home"]]
  orderBy := some ["-user.name"]

theorem remindersOfTwo_joinsPlaces : ∃ c, compileSelect Sample.schema remindersOfTwo = .ok c ∧
    (remindersOfTwo.scope Sample.schema).names =
      ["user_id_users_1", "note_id_notes_1", "user_id_users_2", "todos_todos_1",
        "tags_todos_tags_1", "tags_id_tags_1"] ∧
    ∃ r visits, remindersOfTwo.Writes Sample.schema r
        (joinsOf Sample.schema .reminder (remindersOfTwo.scope Sample.schema).aliases visits) c ∧
      r.NamedBy Sample.schema remindersOfTwo remindersOfTwo.select false
        (remindersOfTwo.scope Sample.schema).aliases ∧
      remindersOfTwo.JoinsPlaces Sample.schema (remindersOfTwo.scope Sample.schema).aliases
        visits := by
  obtain ⟨c, hc⟩ : ∃ c, compileSelect Sample.schema remindersOfTwo = .ok c :=
    exists_eq_ok (by decide +kernel)
  refine ⟨c, hc, by decide +kernel, ?_⟩
  refine compileSelect_joinsPlaces sample_joinKeysDistinct (by decide +kernel) ?_ rfl hc
  refine ⟨fun e he => absurd he List.not_mem_nil, fun e he => ?_⟩
  obtain rfl := List.mem_singleton.1 he
  rfl

end

section

variable {ι : Type} {schema : Schema ι} {root : ι} {p : Plan ι}

/-! ## Columns and their names -/

/-- The model that a place leads to. -/
def modelAt (root : ι) (c : List (Hop ι)) : ι := (c.getLast?.map (·.relation.target)).getD root

/--
The tables at the given places, and their columns, have names that tell them apart. A relation without a
column goes by its name.
-/
structure DistinctColumns (schema : Schema ι) (root : ι) (a : Aliases)
    (places : List (List (Hop ι))) : Prop where
  tables : (schema root).table ∉ a.used
  fields : ∀ i, ∀ f ∈ (schema i).fields, ∀ g ∈ (schema i).fields, f.key = g.key → f = g
  columns : ∀ c ∈ places, ∀ d ∈ places, ∀ f ∈ (schema (modelAt root c)).fields,
    ∀ g ∈ (schema (modelAt root d)).fields, (f.hasColumn || f.primaryKey) = true →
    (g.hasColumn || g.primaryKey) = true →
    Aliases.columnAlias (a.placeAlias schema root c) f.column =
      Aliases.columnAlias (a.placeAlias schema root d) g.column → c = d ∧ f = g

theorem DistinctColumns.joinKeysDistinct {a : Aliases} {places : List (List (Hop ι))}
    (h : DistinctColumns schema root a places) : JoinKeysDistinct schema :=
  fun i f hf g hg _ _ hk => h.fields i f hf g hg hk

theorem NodeAt.modelAt {a : Aliases} {places : List (List (Hop ι))} {i : Nat} {n : ScanNode ι}
    {c : List (Hop ι)} (h : NodeAt schema root a places i n c) : n.model = modelAt root c := by
  cases h with
  | root _ _ hm _ => exact hm
  | below _ _ _ _ hm _ => simpa [Orm.modelAt] using hm

/-- The key of the root can always be projected: no other column has its name. -/
theorem ScanAt.project_rootKey {a : Aliases} {s : ScanPlan ι} {places all : List (List (Hop ι))}
    (h : ScanAt schema root a s places) (hd : DistinctColumns schema root a all)
    (hall : ∀ c ∈ places, c ∈ all) {pk : FieldDef ι} (hpk : (schema root).pk? = some pk) :
    (s.project 0 pk true).rootKey.isSome = true := by
  have hmem := Model.pk_mem (Model.pk_eq_ok.2 hpk)
  have hkey := Model.pk_primaryKey (Model.pk_eq_ok.2 hpk)
  obtain ⟨n, hn, hat⟩ := h.node_of_place h.head
  have hroot : (s.project 0 pk true).nodes[0]?.bind (·.pkEntry) = (s.project 0 pk true).rootKey := by
    rw [ScanPlan.rootKey, List.head?_eq_getElem?]
  rw [← hroot, ScanPlan.project, hn]
  dsimp only
  split
  · rename_i hany
    rw [Bool.true_and, List.any_eq_true] at hany
    obtain ⟨e, he, halias⟩ := hany
    obtain ⟨i, f, m, hm, hf, hcol, rfl⟩ := h.entry e he
    obtain ⟨c, hc, hat'⟩ := h.place_of_node hm
    have hfields : f ∈ (schema (Orm.modelAt root c)).fields := by
      rw [← hat'.modelAt]
      exact hf
    have hlabel : (f.hasColumn || f.primaryKey) = true := by
      rcases hcol with hcol | hcol <;> simp [hcol]
    rw [hat.tableAlias, hat'.tableAlias, beq_iff_eq] at halias
    obtain ⟨rfl, rfl⟩ := hd.columns c (hall c (List.mem_of_getElem? hc)) []
      (hall [] (List.mem_of_getElem? h.head)) f hfields pk hmem hlabel (by simp [hkey]) halias
    obtain ⟨hi, -⟩ := List.getElem?_eq_some_iff.1 hc
    obtain rfl : i = 0 := (List.getElem?_inj hi h.nodup).1 (hc.trans h.head.symm)
    obtain ⟨n', hn', hsome⟩ := h.keyed _ he 0 f rfl hkey
    obtain rfl := Option.some.inj (hn.symm.trans hn')
    rw [hn]
    exact hsome
  · dsimp only
    rw [getElem?_setPkEntry, if_pos rfl, hn]
    rfl

/-! ## Grouping -/

/-- The places that a query visits: those of its explicit joins, then those of its own paths. -/
def Plan.allVisits (schema : Schema ι) (p : Plan ι) : List (Visit ι) :=
  p.joins.flatMap (ExplicitJoin.visits schema p.model) ++ p.visits schema p.select false

def Plan.places (schema : Schema ι) (p : Plan ι) : List (List (Hop ι)) :=
  [] :: (p.allVisits schema).map (·.place)

section

variable [DecidableEq ι] {others paths : List String} {asNested dedupe : Bool} {s t : Scope}
  {r : ResolvedSelect ι}

/-- After its projection a query only adds names. -/
theorem Plan.Stages.grown (hk : JoinKeysDistinct schema)
    (st : p.Stages schema paths asNested dedupe s r t) (hs : st.projected.aliases.Sound) :
    Grown st.projected.aliases t.aliases := by
  have hann : Visits schema p.model [] _ _ _ := resolveNamed_visits hk p.annotations
  have hfil : Visits schema p.model [] _ _ _ := resolveFilters_visits hk p.filters
  have hord : Visits schema p.model [] _ _ _ :=
    Visits.mapM fun item (_ : item ∈ p.ordering schema asNested) =>
      resolveOrderingItem_visits hk (p.annotations.map (·.1)) item
  have h₂ := hann.grows.sound hs st.annotations
  have h₃ := hfil.grows.sound h₂ st.filters
  exact ⟨hord.grows.sound h₃ st.ordering, (hann.grows.extends hs st.annotations).trans
    ((hfil.grows.extends h₂ st.filters).trans (hord.grows.extends h₃ st.ordering))⟩

theorem Plan.Stages.extends (hk : JoinKeysDistinct schema)
    (st : p.Stages schema paths asNested dedupe s r t) (hs : st.explicit.aliases.Sound) :
    Aliases.Extends st.explicit.aliases t.aliases :=
  ((projection_grows _ _).extends hs st.projection).trans
    (st.grown hk ((projection_grows _ _).sound hs st.projection)).2

/-- Resolving a query from nothing: its explicit joins, then its own paths. -/
theorem Plan.Stages.mapped (hk : JoinKeysDistinct schema)
    (ho : ∀ j ∈ p.joins, joinedRelation? schema p.model j.target = none → j.target ∈ others)
    (st : p.Stages schema paths asNested dedupe {} r t)
    (hc : Clean schema p.model others t.aliases) :
    Mapped schema p.model others st.explicit
        (joinedAfter [] (p.joins.flatMap (ExplicitJoin.visits schema p.model))) ∧
      Visited schema p.model others st.explicit
        (joinedAfter [] (p.joins.flatMap (ExplicitJoin.visits schema p.model)))
        (p.visits schema paths asNested) t ∧
      st.scan.StandsAt schema p.model t.aliases paths ∧
      r.NamedBy schema p paths asNested t.aliases := by
  have hcovers : Covers schema p.model others _ _ := addExplicits_covers hk ho
  have hsound := hcovers.grows.sound Aliases.sound_empty st.joins
  have hm := hcovers.mapped {} [] ⟨⟩ st.explicit (Mapped.empty schema p.model others) st.joins
    (hc.of_extends (st.extends hk hsound))
  exact ⟨hm, st.visited hk hm hc⟩

/-- A row of the root may stand in several rows if and only if a relation to many is crossed. -/
theorem Plan.Stages.toMany (hk : JoinKeysDistinct schema)
    (ho : ∀ j ∈ p.joins, joinedRelation? schema p.model j.target = none → j.target ∈ others)
    (st : p.Stages schema paths asNested dedupe {} r t)
    (hc : Clean schema p.model others t.aliases) :
    t.toMany = (p.joins.flatMap (ExplicitJoin.visits schema p.model) ++
      p.visits schema paths asNested).any fun v => arrivesAtMany v.place := by
  obtain ⟨-, hv, -, -⟩ := st.mapped hk ho hc
  rw [hv.mapped.toMany, ← joinedAfter_append, Bool.eq_iff_iff, List.any_eq_true, List.any_eq_true]
  simp only [mem_joinedAfter, List.not_mem_nil, false_or]
  constructor
  · rintro ⟨d, ⟨v, hv, rfl⟩, hd⟩
    exact ⟨v, hv, hd⟩
  · rintro ⟨v, hv, hd⟩
    exact ⟨v.place, ⟨v, hv, rfl⟩, hd⟩

end

end

end Orm
