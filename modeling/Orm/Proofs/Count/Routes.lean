import Orm.Proofs.Count.Keys

/-
The routes of a SELECT and of its count.

Both start with the explicit joins of the query. From there a SELECT goes to the places of its projection, its
computed columns, its predicates and its ordering, a plain count only to those of its predicates, and a
nested one to all but those of the ordering (`Plan.Stages.reached`, `Plan.conditions_reached`).
-/

namespace Orm

section

variable {ι : Type} [DecidableEq ι] {schema : Schema ι} {root : ι} {p : Plan ι}

theorem mem_of_mem_arrivals {joined : List (List (Hop ι))} {visits : List (Visit ι)} {v : Visit ι}
    (h : v ∈ arrivals joined visits) : v ∈ visits := by
  induction visits generalizing joined with
  | nil => exact h
  | cons w visits ih =>
    rw [arrivals] at h
    split at h
    · exact List.mem_cons_of_mem w (ih h)
    · rcases List.mem_cons.1 h with rfl | h
      · exact List.mem_cons_self
      · exact List.mem_cons_of_mem w (ih h)

/-! ## From explicit joins -/

/-- The tables in scope once the explicit joins are. -/
def Plan.explicitScope (schema : Schema ι) (p : Plan ι) : Scope :=
  (outcome (addExplicits schema p.model p.joins) {}).2

/-- The places that they have joined. -/
def Plan.explicitPlaces (schema : Schema ι) (p : Plan ι) : List (List (Hop ι)) :=
  joinedAfter [] (p.joins.flatMap (ExplicitJoin.visits schema p.model))

omit [DecidableEq ι] in
theorem Plan.explicitScope_eq {u : Unit} {s : Scope}
    (h : Yields (addExplicits schema p.model p.joins) {} u s) : p.explicitScope schema = s :=
  congrArg Prod.snd h

theorem Plan.explicit_mapped (hk : JoinKeysDistinct schema) {u : Unit} {s : Scope}
    (h : Yields (addExplicits schema p.model p.joins) {} u s)
    (hc : Clean schema p.model (p.joins.map (·.target)) s.aliases) :
    Mapped schema p.model (p.joins.map (·.target)) s (p.explicitPlaces schema) :=
  (addExplicits_covers hk fun _ hj _ => List.mem_map_of_mem hj).mapped {} [] u s
    (Mapped.empty schema p.model _) h hc

/-- The tables in scope once places are visited after the explicit joins. -/
structure Plan.Reached (schema : Schema ι) (p : Plan ι) (visits : List (Visit ι)) (t : Scope) :
    Prop where
  reaches : (p.explicitScope schema).Reaches schema p.model (p.explicitPlaces schema)
    (arrivals (p.explicitPlaces schema) visits) t
  toMany : t.toMany = (joinedAfter (p.explicitPlaces schema) visits).any arrivesAtMany

theorem Plan.reached_of_visited (hk : JoinKeysDistinct schema) {u : Unit} {s t : Scope}
    {visits : List (Visit ι)} (h : Yields (addExplicits schema p.model p.joins) {} u s)
    (hm : Mapped schema p.model (p.joins.map (·.target)) s (p.explicitPlaces schema))
    (hv : Visited schema p.model (p.joins.map (·.target)) s (p.explicitPlaces schema) visits t)
    (hc : Clean schema p.model (p.joins.map (·.target)) t.aliases) (ha : Arrives visits) :
    p.Reached schema visits t where
  reaches := Plan.explicitScope_eq h ▸ hv.reaches hk hm hc ha
  toMany := hv.mapped.toMany

theorem Plan.visits_arrives (p : Plan ι) (paths : List String) (asNested : Bool) :
    Arrives (p.visits schema paths asNested) :=
  (Arrives.flatMap fun path _ => pathVisits_arrives false path).append
    ((Arrives.flatMap fun e _ => Expression.visits_arrives true e.2).append
      ((Arrives.flatMap fun e _ => Expression.visits_arrives true e).append
        (.flatMap fun item _ => orderingVisits_arrives _ item)))

theorem Plan.Stages.reached {asNested dedupe : Bool} {r : ResolvedSelect ι} {t : Scope}
    (st : p.Stages schema p.select asNested dedupe {} r t) (hk : JoinKeysDistinct schema)
    (hc : Clean schema p.model (p.joins.map (·.target)) t.aliases) :
    p.Reached schema (p.visits schema p.select asNested) t := by
  obtain ⟨hm, hv, -, -⟩ := st.mapped hk (fun _ hj _ => List.mem_map_of_mem hj) hc
  exact Plan.reached_of_visited hk st.joins hm hv hc (p.visits_arrives p.select asNested)

theorem Plan.conditions_reached {filters : List (Expression ι)} {t : Scope}
    (h : Yields (p.resolveConditions schema) {} filters t) (hk : JoinKeysDistinct schema)
    (hc : Clean schema p.model (p.joins.map (·.target)) t.aliases) :
    p.Reached schema (p.filters.flatMap (Expression.visits schema p.model true)) t ∧
      filters = p.filters.map (Expression.withColumns (columnAt schema p.model t.aliases)) := by
  obtain ⟨u, s, hj, hf⟩ := Yields.bind_iff.1 h
  have hvisits : Visits schema p.model (p.joins.map (·.target)) _ _ _ :=
    resolveFilters_visits hk p.filters
  have hcovers : Covers schema p.model (p.joins.map (·.target)) _ _ :=
    addExplicits_covers hk fun _ hj _ => List.mem_map_of_mem hj
  have hsound := hcovers.grows.sound Aliases.sound_empty hj
  have hm := Plan.explicit_mapped hk hj (hc.of_extends (hvisits.grows.extends hsound hf))
  obtain ⟨hv, hfilters⟩ := hvisits.visited _ _ _ _ hm hf hc
  exact ⟨Plan.reached_of_visited hk hj hm hv hc
    (.flatMap fun e _ => Expression.visits_arrives true e), hfilters _ (.refl _)⟩

omit [DecidableEq ι] in
/-- The query without its ordering resolves to the same parts, in the scope before the ordering. -/
theorem Plan.Stages.unordered {r r' : ResolvedSelect ι} {t t' : Scope}
    (st : p.Stages schema p.select false true {} r t)
    (st' : p.unordered.Stages schema p.select true true {} r' t') :
    t' = st.filtered ∧ st'.scan = st.scan := by
  have hsame : ∀ {α : Type} {x : Resolving α} {s u u' : Scope} {a b : α}, Yields x s a u →
      Yields x s b u' → b = a ∧ u' = u := by
    intro α x s u u' a b h h'
    obtain ⟨ha, hu⟩ := Prod.mk.inj (h.symm.trans h')
    exact ⟨(Except.ok.inj ha).symm, hu.symm⟩
  obtain ⟨-, hexplicit⟩ := hsame st.joins st'.joins
  have hprojection := st'.projection
  rw [hexplicit] at hprojection
  obtain ⟨hscan, hprojected⟩ := hsame st.projection hprojection
  have hannotated := st'.annotations
  rw [hprojected] at hannotated
  obtain ⟨-, hcomputed⟩ := hsame st.annotations hannotated
  have hfilter := st'.filters
  rw [hcomputed] at hfilter
  obtain ⟨-, hfiltered⟩ := hsame st.filters hfilter
  obtain ⟨-, ht⟩ := Yields.pure_iff.1 st'.ordering
  exact ⟨ht.symm.trans hfiltered, hscan⟩

/-- The names of an ordering come last. -/
theorem Plan.Stages.filtered_extends {paths : List String} {asNested dedupe : Bool}
    {r : ResolvedSelect ι} {t : Scope} (st : p.Stages schema paths asNested dedupe {} r t)
    (hk : JoinKeysDistinct schema) : Aliases.Extends st.filtered.aliases t.aliases := by
  have hann : Visits schema p.model [] _ _ _ := resolveNamed_visits hk p.annotations
  have hfil : Visits schema p.model [] _ _ _ := resolveFilters_visits hk p.filters
  have hord : Visits schema p.model [] _ _ _ :=
    Visits.mapM fun item (_ : item ∈ p.ordering schema asNested) =>
      resolveOrderingItem_visits hk (p.annotations.map (·.1)) item
  have hcovers : Covers schema p.model (p.joins.map (·.target)) _ _ :=
    addExplicits_covers hk fun _ hj _ => List.mem_map_of_mem hj
  have hexplicit := hcovers.grows.sound Aliases.sound_empty st.joins
  have hprojected := (projection_grows _ _).sound hexplicit st.projection
  have hcomputed := hann.grows.sound hprojected st.annotations
  exact hord.grows.extends (hfil.grows.sound hcomputed st.filters) st.ordering

/-- The places that an ordering visits. -/
def Plan.sortVisits (schema : Schema ι) (p : Plan ι) : List (Visit ι) :=
  (p.ordering schema false).flatMap (orderingVisits schema p.model (p.annotations.map (·.1)))

theorem Plan.sortVisits_route (joined : List (List (Hop ι))) :
    Route ([] :: joined) (arrivals joined (p.sortVisits schema)) :=
  (Arrives.flatMap fun item _ => orderingVisits_arrives _ item) joined

theorem Plan.sortVisits_left {joined : List (List (Hop ι))} :
    ∀ w ∈ arrivals joined (p.sortVisits schema), w.kind = .left := by
  intro w hw
  obtain ⟨item, -, hw⟩ := List.mem_flatMap.1 (mem_of_mem_arrivals hw)
  exact orderingVisits_kind hw

omit [DecidableEq ι] in
/-- A SELECT goes on from its unordered form to the places of the ordering. -/
theorem Plan.visits_unordered (paths : List String) : p.visits schema paths false =
    p.unordered.visits schema paths true ++ p.sortVisits schema := by
  simp only [Plan.visits, List.append_assoc]
  rfl

/-! ## Resolved queries -/

variable {r : ResolvedSelect ι} {t : Scope} {asNested : Bool}

/-- What resolving a query comes to. -/
structure Plan.Resolved (schema : Schema ι) (p : Plan ι) (asNested : Bool) (r : ResolvedSelect ι)
    (t : Scope) : Prop where
  reached : p.Reached schema (p.visits schema p.select asNested) t
  named : r.NamedBy schema p p.select asNested t.aliases
  once : r.scan.Once

theorem Plan.resolved (h : Yields (p.resolve schema p.select asNested true) {} r t)
    (hk : JoinKeysDistinct schema)
    (hc : Clean schema p.model (p.joins.map (·.target)) t.aliases) : p.Resolved schema asNested r t := by
  obtain ⟨-, ⟨st⟩⟩ := Plan.stages h
  obtain ⟨-, -, -, hnamed⟩ := st.mapped hk (fun _ hj _ => List.mem_map_of_mem hj) hc
  obtain ⟨hs, hpos⟩ :=
    ((projection_kept ScanPlan.once_kept p.select).of_yields trivial st.projection).2
  have honce : ScanPlan.Grounded ScanPlan.Once (st.scan.keyed schema p.model true t.toMany) :=
    ScanPlan.once_kept.grounded.keyed ⟨hs, hpos⟩ t.toMany
  exact ⟨st.reached hk hc, hnamed, st.scan_eq ▸ honce.1⟩

/-- A SELECT and the one that is nested in its count have the same parts, but for the ordering. -/
structure Plan.Unordered (schema : Schema ι) (p : Plan ι) (r r' : ResolvedSelect ι) (t t' : Scope) :
    Prop where
  select : p.Resolved schema false r t
  nested : p.unordered.Resolved schema true r' t'
  extend : Aliases.Extends t'.aliases t.aliases
  scan : t'.toMany = t.toMany → r'.scan = r.scan

theorem Plan.unordered_resolved {r' : ResolvedSelect ι} {t' : Scope}
    (h : Yields (p.resolve schema p.select false true) {} r t)
    (h' : Yields (p.unordered.resolve schema p.select true true) {} r' t')
    (hk : JoinKeysDistinct schema)
    (hc : Clean schema p.model (p.joins.map (·.target)) t.aliases) : p.Unordered schema r r' t t' := by
  obtain ⟨-, ⟨st⟩⟩ := Plan.stages h
  obtain ⟨-, ⟨st'⟩⟩ := Plan.stages h'
  obtain ⟨ht, hscan⟩ := st.unordered st'
  have hext : Aliases.Extends t'.aliases t.aliases := ht ▸ st.filtered_extends hk
  refine ⟨Plan.resolved h hk hc, Plan.resolved h' hk (hc.of_extends hext), hext, fun hmany => ?_⟩
  rw [st'.scan_eq, st.scan_eq, hscan, hmany]
  rfl

/-- A relation to many is crossed somewhere in a query. -/
def Plan.Multiplies (schema : Schema ι) (p : Plan ι) : Prop :=
  ∃ c ∈ p.places schema, arrivesAtMany c = true

theorem Plan.Reached.toMany_iff {visits : List (Visit ι)} (h : p.Reached schema visits t) :
    t.toMany = true ↔ ∃ v ∈ p.joins.flatMap (ExplicitJoin.visits schema p.model) ++ visits,
      arrivesAtMany v.place = true := by
  rw [h.toMany, Plan.explicitPlaces, ← joinedAfter_append, List.any_eq_true]
  simp only [mem_joinedAfter, List.not_mem_nil, false_or]
  constructor
  · rintro ⟨_, ⟨v, hv, rfl⟩, hmany⟩
    exact ⟨v, hv, hmany⟩
  · rintro ⟨v, hv, hmany⟩
    exact ⟨_, ⟨v, hv, rfl⟩, hmany⟩

theorem Plan.Reached.multiplies_iff (h : p.Reached schema (p.visits schema p.select false) t) :
    t.toMany = true ↔ p.Multiplies schema := by
  rw [h.toMany_iff]
  constructor
  · rintro ⟨v, hv, hmany⟩
    exact ⟨v.place, List.mem_cons_of_mem _ (List.mem_map_of_mem hv), hmany⟩
  · rintro ⟨c, hc, hmany⟩
    rcases List.mem_cons.1 hc with rfl | hc
    · cases hmany
    · obtain ⟨v, hv, rfl⟩ := List.mem_map.1 hc
      exact ⟨v, hv, hmany⟩

/-- Fewer visits do not lead to more. -/
theorem Plan.Reached.toMany_mono {visits more : List (Visit ι)} {t' : Scope}
    (h : p.Reached schema visits t) (h' : p.Reached schema more t') (hsub : visits ⊆ more)
    (hone : t'.toMany = false) : t.toMany = false := by
  rw [Bool.eq_false_iff, Ne, h.toMany_iff]
  rintro ⟨v, hv, hmany⟩
  have hmany' : t'.toMany = true := by
    refine h'.toMany_iff.2 ⟨v, ?_, hmany⟩
    rw [List.mem_append] at hv ⊢
    exact hv.imp_right (@hsub v)
  rw [hone] at hmany'
  exact Bool.false_ne_true hmany'

omit [DecidableEq ι] in
theorem Plan.visit_iff {paths : List String} {v : Visit ι} : v ∈ p.visits schema paths asNested ↔
    (∃ path ∈ paths, v ∈ pathVisits schema p.model false path) ∨
      (∃ e ∈ p.annotations, v ∈ e.2.visits schema p.model true) ∨
      (∃ f ∈ p.filters, v ∈ f.visits schema p.model true) ∨
      ∃ item ∈ p.ordering schema asNested,
        v ∈ orderingVisits schema p.model (p.annotations.map (·.1)) item := by
  simp only [Plan.visits, List.mem_append, List.mem_flatMap]

/-- Rows of a SELECT are grouped, by a key that is there, wherever joins multiply those of the root. -/
theorem Plan.resolve_groupRows {pk : FieldDef ι}
    (h : Yields (p.resolve schema p.select false true) {} r t)
    (hd : DistinctColumns schema p.model t.aliases (p.places schema))
    (hc : Clean schema p.model (p.joins.map (·.target)) t.aliases)
    (hpk : (schema p.model).pk? = some pk) :
    r.scan.groupRows = t.toMany ∧ (t.toMany = true → r.scan.rootKey.isSome = true) := by
  obtain ⟨-, ⟨st⟩⟩ := Plan.stages h
  obtain ⟨-, -, ⟨ps, hscan, hps⟩, -⟩ :=
    st.mapped hd.joinKeysDistinct (fun _ hj _ => List.mem_map_of_mem hj) hc
  have hplaces : ∀ c ∈ ps, c ∈ p.places schema := by
    intro c hc
    rcases (hps c).1 hc with rfl | ⟨path, hpath, hcross⟩
    · exact List.mem_cons_self
    · obtain ⟨v, hv, rfl⟩ := (mem_pathVisits false).2 hcross
      exact List.mem_cons_of_mem _ (List.mem_map_of_mem
        (List.mem_append_right _ (Plan.visit_iff.2 (.inl ⟨path, hpath, hv⟩))))
  rw [st.scan_eq]
  have hgroup := hscan.keyed_groupRows hd hplaces hpk t.toMany
  exact ⟨hgroup, fun hmany => (Bool.and_eq_true_iff.1 (hgroup.trans hmany)).2⟩

end

/-! ## The places of predicates -/

namespace Engine

variable {ι : Type} [DecidableEq ι] {schema : Schema ι} {root : ι} {E : Engine ι} {db : Contents}
  {joined : List (List (Hop ι))} {V W visits : List (Visit ι)} {filters : List (Expression ι)}
  {σ τ : Placing ι} {a : Aliases} {xs : List JoinedRow}

theorem covers_arrivals (hf : ∀ f ∈ filters, f.Fresh)
    (hsub : ∀ f ∈ filters, ∀ v ∈ f.visits schema root true, v ∈ visits) :
    Covers schema root filters ([] :: joined ++ (arrivals joined visits).map (·.place)) := by
  intro f hmem path hpath c hcross
  obtain ⟨v, hv, rfl⟩ := (Expression.mem_visits true (hf f hmem)).2 ⟨path, hpath, hcross⟩
  exact List.mem_cons_of_mem _ (mem_joinedAfter.2 (.inr ⟨v, hsub f hmem v hv, rfl⟩))

omit [DecidableEq ι] in
/-- A join that does not lead to many leads to one row at most. -/
theorem Fits.unrepeated (h : E.Fits db schema) {c : List (Hop ι)} (hc : Placed schema root a c)
    (hone : arrivesAtMany c = false) :
    ∀ e ∈ placeEdges schema c, E.Unrepeated (db e.table) e.column := by
  obtain rfl | ⟨c, g, rfl⟩ := List.eq_nil_or_concat c
  · exact fun e he => absurd he List.not_mem_nil
  rw [List.concat_eq_append] at hc hone ⊢
  obtain ⟨es, hes, -, -, -⟩ := hc.placeSteps_snoc
  obtain ⟨m, hl⟩ := hc.joinable.leads
  obtain ⟨i, -, -, hfield, hrelation, -⟩ := hl.of_append
  have hmany : g.relation.toMany = false := by
    simpa [arrivesAtMany] using hone
  have hkey : ∀ {i : ι} {pk : FieldDef ι}, (schema i).pk = .ok pk →
      E.Unrepeated (db (schema i).table) pk.column := fun hpk =>
    h.key _ _ (Model.pk_mem hpk) (Model.pk_primaryKey hpk)
  rw [placeEdges_snoc hes]
  obtain ⟨targetPk, ht, ⟨-, rfl⟩ | ⟨how, -, -, ⟨hk, -⟩ | ⟨hk, related, k, hr, hk', rfl⟩⟩⟩ :=
    relationEdges_cases hes
  · exact List.forall_mem_singleton.2 (hkey ht)
  · simp [Relation.toMany, hk] at hmany
  · have hone : g.relation.kind = .oneToOne := by
      cases hkind : g.relation.kind <;> simp_all [Relation.toMany, Relation.ownsColumn]
    exact List.forall_mem_singleton.2
      (h.backward _ _ hfield _ hrelation hone related k hr hk')

/-! ## The rows of the root -/

section

variable {base t t' : Scope}

/-- The rows that a statement keeps are those found on its route. -/
theorem matched_agrees (h : base.Reaches schema root joined V t) (hf : ∀ f ∈ filters, f.Fresh)
    (hcover : Covers schema root filters ([] :: joined ++ V.map (·.place))) :
    List.Forall₂ (fun x σ => Placing.Agrees schema root t.aliases
        ([] :: joined ++ V.map (·.place)) x σ)
      (E.matched db (schema root).table t.joins
        (filters.map (Expression.withColumns (columnAt schema root t.aliases))))
      (E.found db schema root filters V base.aliases (E.source db (schema root).table base.joins)) :=
  found_agrees h hf hcover _

theorem map_matched (h : base.Reaches schema root joined V t) (hf : ∀ f ∈ filters, f.Fresh)
    (hcover : Covers schema root filters ([] :: joined ++ V.map (·.place))) :
    (E.matched db (schema root).table t.joins (filters.map
        (Expression.withColumns (columnAt schema root t.aliases)))).map (· (schema root).table) =
      (E.found db schema root filters V base.aliases (E.source db (schema root).table base.joins)).map
        (· []) :=
  map_eq_of_forall₂ (matched_agrees h hf hcover) fun _ _ hx => hx [] List.mem_cons_self

/-- Two statements that keep the same rows of the root. -/
theorem root_iff (h : base.Reaches schema root joined V t) (h' : base.Reaches schema root joined W t')
    (hf : ∀ f ∈ filters, f.Fresh)
    (hcover : Covers schema root filters ([] :: joined ++ V.map (·.place)))
    (hcover' : Covers schema root filters ([] :: joined ++ W.map (·.place)))
    (hsame : SameKept E db schema root filters V W) (u : TableRow) :
    E.Root db (schema root).table t.joins (filters.map
        (Expression.withColumns (columnAt schema root t.aliases))) u ↔
      E.Root db (schema root).table t'.joins (filters.map
        (Expression.withColumns (columnAt schema root t'.aliases))) u := by
  rw [Root, Root, ← List.mem_map, ← List.mem_map, map_matched h hf hcover, map_matched h' hf hcover',
    mem_found_root h.route, mem_found_root h'.route]
  exact exists_congr fun x => and_congr_right fun _ => and_congr_right fun _ => not_congr (hsame _)

/-- Where a longer route leads from each row to one row, both show the same. -/
theorem map_shows_append {r r' : ResolvedSelect ι} {annotations : List (String × Expression ι)}
    {nodes : List (List (Hop ι))} (h : base.Reaches schema root joined (V ++ W) t)
    (h' : base.Reaches schema root joined V t') (hW : Route ([] :: joined ++ V.map (·.place)) W)
    (hleft : ∀ w ∈ W, w.kind = .left)
    (hone : ∀ w ∈ W, ∀ e ∈ placeEdges schema w.place, E.Unrepeated (db e.table) e.column)
    (hf : ∀ f ∈ filters, f.Fresh) (ha : ∀ e ∈ annotations, e.2.Fresh)
    (hcover : Covers schema root filters ([] :: joined ++ V.map (·.place)))
    (hcomputed : Covers schema root (annotations.map (·.2)) ([] :: joined ++ V.map (·.place)))
    (hs : ScanAt schema root t.aliases r.scan nodes) (hs' : ScanAt schema root t'.aliases r'.scan nodes)
    (hscan : r'.scan = r.scan) (hnodes : ∀ c ∈ nodes, c ∈ [] :: joined ++ V.map (·.place))
    (hr : r.annotations =
      annotations.map fun e => (e.1, e.2.withColumns (columnAt schema root t.aliases)))
    (hr' : r'.annotations =
      annotations.map fun e => (e.1, e.2.withColumns (columnAt schema root t'.aliases))) :
    (E.matched db (schema root).table t.joins
        (filters.map (Expression.withColumns (columnAt schema root t.aliases)))).map
      (E.shows (schema root).table r) =
    (E.matched db (schema root).table t'.joins
        (filters.map (Expression.withColumns (columnAt schema root t'.aliases)))).map
      (E.shows (schema root).table r') := by
  have hroot : [] ∈ [] :: joined ++ V.map (·.place) := List.mem_cons_self
  have hlonger : Covers schema root filters ([] :: joined ++ (V ++ W).map (·.place)) := by
    intro f hmem path hpath c hcross
    rw [List.map_append, ← List.append_assoc]
    exact List.mem_append_left _ (hcover f hmem path hpath c hcross)
  have hagrees : List.Forall₂ (fun x τ => Placing.Agrees schema root t.aliases
        ([] :: joined ++ V.map (·.place)) x τ)
      (E.matched db (schema root).table t.joins
        (filters.map (Expression.withColumns (columnAt schema root t.aliases)))) _ :=
    forall₂_trans (matched_agrees h hf hlonger) (found_append hf hW hleft hone hcover)
      fun x _ σ _ τ hx hστ c hc => by
        rw [← hστ c hc]
        refine hx c ?_
        rw [List.map_append, ← List.append_assoc]
        exact List.mem_append_left _ hc
  have hagrees' : List.Forall₂ _ (E.matched db (schema root).table t'.joins _) _ :=
    matched_agrees h' hf hcover
  have hshown := map_eq_of_forall₂ hagrees fun x τ hx =>
    shows_eq (E := E) hs hr ha hx hroot hnodes hcomputed
  have hshown' := map_eq_of_forall₂ hagrees' fun x τ hx =>
    shows_eq (E := E) hs' hr' ha hx hroot hnodes hcomputed
  rw [hscan] at hshown'
  exact hshown.trans hshown'.symm

end

end Engine

section

variable {ι : Type} [DecidableEq ι] {schema : Schema ι} {p : Plan ι} {t : Scope}

/-- Where joins multiply no row of the root, each leads to one row at most. -/
theorem Plan.Reached.unrepeated {visits : List (Visit ι)} {E : Engine ι} {db : Contents}
    (h : p.Reached schema visits t) (hone : t.toMany = false) (hfits : E.Fits db schema) :
    ∀ v ∈ arrivals (p.explicitPlaces schema) visits, ∀ e ∈ placeEdges schema v.place,
      E.Unrepeated (db e.table) e.column := by
  intro v hv
  refine hfits.unrepeated (h.reaches.arrived v hv) ?_
  rw [h.toMany, List.any_eq_false] at hone
  exact Bool.eq_false_iff.2 (hone _ (mem_arrivals hv))

end

end Orm
