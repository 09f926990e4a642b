import Orm.Proofs.Count.Routes

/-
A count is the number of the instances of its query (`count_of_all`).

Where joins multiply no row of the root, both statements find as many rows. Where they do, both tell the rows
of the root apart by its key. What a query has to be for that is named (`Plan.Countable`): its two statements
may otherwise group different rows, or cut different ones off.
-/

namespace Orm

variable {ι : Type} {schema : Schema ι} {p : Plan ι}

/-! ## Queries that are counted as they are read -/

/--
A query of which a count and a SELECT find the same rows of the root: aliases do not stand for several
tables or columns, a window does not cut off rows of one instance, it is not only by an ordering that DISTINCT
tells rows of one instance apart, and where a count leaves out computed columns, these do not leave out rows.
-/
structure Plan.Countable [DecidableEq ι] (schema : Schema ι) (p : Plan ι) : Prop where
  fresh : p.Fresh
  columns : DistinctColumns schema p.model (p.scope schema).aliases (p.places schema)
  tables : Clean schema p.model (p.joins.map (·.target)) (p.scope schema).aliases
  conditions : Clean schema p.model (p.joins.map (·.target)) (p.conditions schema).2.aliases
  paged : p.paged = true → ¬ p.Multiplies schema
  distinct : p.distinct = true → p.Multiplies schema → p.unordered.Multiplies schema
  inner : p.paged = false → p.distinct = false →
    ∀ v ∈ arrivals (p.explicitPlaces schema) (p.visits schema p.select false), v.kind = .inner →
      ∃ f ∈ p.filters, ∃ w ∈ f.visits schema p.model true, w.kind = .inner ∧ w.place = v.place

namespace Engine

/--
The explicit joins of a query leave the rows of its root as the table has them: none of them is only NULL,
their keys tell them apart, and where a plain count does not ask for distinct keys, each is there once.
-/
structure Rooted (E : Engine ι) (db : Contents) (schema : Schema ι) (p : Plan ι) : Prop where
  told : KeysTold db schema p.model
  rows : ∀ x ∈ E.source db (schema p.model).table (p.explicitScope schema).joins,
    x (schema p.model).table ∈ db (schema p.model).table
  once : p.paged = false → p.distinct = false → (p.conditions schema).2.toMany = false →
    ((E.source db (schema p.model).table (p.explicitScope schema).joins).map
      (· (schema p.model).table)).Nodup

/-- Without explicit joins the rows of the root are those of its table. -/
theorem KeysTold.rooted {E : Engine ι} {db : Contents} {pk : FieldDef ι}
    (hpk : (schema p.model).pk? = some pk) (h : KeysTold db schema p.model) (hj : p.joins = []) :
    E.Rooted db schema p := by
  have hnone : (p.explicitScope schema).joins = [] := by
    rw [Plan.explicitScope, hj]
    rfl
  have hroots : (E.source db (schema p.model).table (p.explicitScope schema).joins).map
      (· (schema p.model).table) = db (schema p.model).table := by
    rw [hnone, source, joined, List.foldl_nil, List.map_map]
    refine (List.map_congr_left (g := id) fun r _ => ?_).trans (List.map_id _)
    simp
  refine ⟨h, fun x hx => hroots ▸ List.mem_map_of_mem hx, fun _ _ _ => hroots ▸ ?_⟩
  have hnodup := h.nodup pk (Model.pk_mem (Model.pk_eq_ok.2 hpk))
    (Model.pk_primaryKey (Model.pk_eq_ok.2 hpk))
  exact hnodup.of_map

end Engine

/-! ## Counts -/

section

variable [DecidableEq ι] {r : ResolvedSelect ι} {t : Scope} {asNested : Bool}

theorem Plan.visits_cover (schema : Schema ι) (asNested : Bool) (hf : p.Fresh) :
    Engine.Covers schema p.model p.filters ([] :: p.explicitPlaces schema ++
      (arrivals (p.explicitPlaces schema) (p.visits schema p.select asNested)).map (·.place)) :=
  Engine.covers_arrivals hf.filters fun f hf _ hv => Plan.visit_iff.2 (.inr (.inr (.inl ⟨f, hf, hv⟩)))

theorem Plan.annotations_cover (schema : Schema ι) (asNested : Bool) (hf : p.Fresh) :
    Engine.Covers schema p.model (p.annotations.map (·.2)) ([] :: p.explicitPlaces schema ++
      (arrivals (p.explicitPlaces schema) (p.visits schema p.select asNested)).map (·.place)) := by
  refine Engine.covers_arrivals (fun e he => ?_) fun e he v hv => ?_ <;>
    obtain ⟨a, ha, rfl⟩ := List.mem_map.1 he
  · exact hf.annotations a ha
  · exact Plan.visit_iff.2 (.inr (.inl ⟨a, ha, hv⟩))

/-- The places of a projection are joined. -/
theorem Plan.selected_mem {c : List (Hop ι)}
    (h : c = [] ∨ ∃ path ∈ p.select, Crosses schema p.model path c) :
    c ∈ [] :: p.explicitPlaces schema ++
      (arrivals (p.explicitPlaces schema) (p.visits schema p.select asNested)).map (·.place) := by
  obtain rfl | ⟨path, hpath, hcross⟩ := h
  · exact List.mem_cons_self
  · obtain ⟨v, hv, rfl⟩ := (mem_pathVisits false).2 hcross
    have hvisit : v ∈ p.visits schema p.select asNested := Plan.visit_iff.2 (.inl ⟨path, hpath, hv⟩)
    exact List.mem_cons_of_mem _ (mem_joinedAfter.2 (.inr ⟨v, hvisit, rfl⟩))

/-- The rows of the root that a SELECT finds are those that the explicit joins leave. -/
theorem Plan.Resolved.root_mem (h : p.Resolved schema asNested r t) (hf : p.Fresh) {E : Engine ι}
    {db : Contents} (hr : E.Rooted db schema p) (u : TableRow)
    (hu : E.Root db (schema p.model).table t.joins r.filters u) : u ∈ db (schema p.model).table := by
  rw [h.named.filters, Engine.Root, ← List.mem_map,
    Engine.map_matched h.reached.reaches hf.filters (Plan.visits_cover schema _ hf),
    Engine.mem_found_root h.reached.reaches.route] at hu
  obtain ⟨x, hx, rfl, -⟩ := hu
  exact hr.rows x hx

/-- The joins that a plain count makes. -/
abbrev Plan.filterVisits (schema : Schema ι) (p : Plan ι) : List (Visit ι) :=
  p.filters.flatMap (Expression.visits schema p.model true)

theorem Plan.filterVisits_cover (schema : Schema ι) (hf : p.Fresh) :
    Engine.Covers schema p.model p.filters ([] :: p.explicitPlaces schema ++
      (arrivals (p.explicitPlaces schema) (p.filterVisits schema)).map (·.place)) :=
  Engine.covers_arrivals hf.filters fun f hf _ hv => List.mem_flatMap.2 ⟨f, hf, hv⟩

omit [DecidableEq ι] in
theorem Plan.filterVisits_subset : p.filterVisits schema ⊆ p.visits schema p.select asNested :=
  fun v hv => by
    obtain ⟨f, hf, hv⟩ := List.mem_flatMap.1 hv
    exact Plan.visit_iff.2 (.inr (.inr (.inl ⟨f, hf, hv⟩)))

variable {E : Engine ι} {db : Contents} {rows : List (List Value)} {n : Nat} {calledOff : CalledOff}
  {out : List (Instance ι)} {pk : FieldDef ι} {t' : Scope}

/-- A SELECT and a plain count find the same rows of the root. -/
theorem Plan.Countable.sameKept (hp : p.Countable schema) (hpaged : p.paged = false)
    (hdistinct : p.distinct = false) (h : p.Reached schema (p.visits schema p.select false) t)
    (h' : p.Reached schema (p.filterVisits schema) t') :
    Engine.SameKept E db schema p.model p.filters
      (arrivals (p.explicitPlaces schema) (p.visits schema p.select false))
      (arrivals (p.explicitPlaces schema) (p.filterVisits schema)) := by
  have hcover := Plan.visits_cover schema false hp.fresh
  have hcover' := Plan.filterVisits_cover schema hp.fresh
  refine fun σ => ⟨?_, ?_⟩
  · exact Engine.kept_eq_nil_of hp.fresh.filters h'.reaches.route h.reaches.route h'.reaches.closed
      hcover' hcover (hp.inner hpaged hdistinct)
  · -- An inner join of the count is asked for by the predicate that it is made for.
    refine Engine.kept_eq_nil_of hp.fresh.filters h.reaches.route h'.reaches.route h'.reaches.closed
      hcover hcover' fun w hw hk => ?_
    obtain ⟨f, hf, hw⟩ := List.mem_flatMap.1 (mem_of_mem_arrivals hw)
    exact ⟨f, hf, w, hw, hk, rfl⟩

/-- A plain count of a query whose joins multiply no row of the root. -/
theorem count_plain_once {filters : List (Expression ι)} (hpk : (schema p.model).pk? = some pk)
    (hp : p.Countable schema) (hpaged : p.paged = false) (hdistinct : p.distinct = false)
    (h : p.Resolved schema false r t) (hgroup : r.fullScan.groupRows = false)
    (hmany : t.toMany = false) (h' : p.Reached schema (p.filterVisits schema) t')
    (hfilters : filters = p.filters.map (Expression.withColumns (columnAt schema p.model t'.aliases)))
    (hfits : E.Fits db schema) (hrows : E.Answers db schema p r t.joins rows)
    (hn : E.Counts db schema p (.plain filters t') n)
    (hout : materialize schema r.fullScan rows calledOff = .ok out) : out.length = n := by
  have hmany' := h'.toMany_mono h.reached Plan.filterVisits_subset hmany
  simp only [Engine.Counts, hpk, hmany', if_neg Bool.false_ne_true] at hn
  have hcover := Plan.visits_cover schema false hp.fresh
  have hcover' := Plan.filterVisits_cover schema hp.fresh
  rw [hn, materialize_length hgroup hout, hrows.length_plain hpaged hdistinct, h.named.filters, hfilters]
  refine (Engine.matched_agrees h.reached.reaches hp.fresh.filters hcover).length_eq.trans ?_
  refine Eq.trans ?_ (Engine.matched_agrees h'.reaches hp.fresh.filters hcover').length_eq.symm
  exact Engine.length_found (hp.sameKept hpaged hdistinct h.reached h')
    (h.reached.unrepeated hmany hfits) (h'.unrepeated hmany' hfits) _ _

/-- A plain count of a query whose joins may multiply rows of the root. -/
theorem count_plain_grouped {filters : List (Expression ι)} (hpk : (schema p.model).pk? = some pk)
    (hp : p.Countable schema) (hpaged : p.paged = false) (hdistinct : p.distinct = false)
    (h : p.Resolved schema false r t) (hgroup : r.scan.groupRows = true)
    (hkey : r.scan.rootKey.isSome = true) (h' : p.Reached schema (p.filterVisits schema) t')
    (hscope : (p.conditions schema).2 = t')
    (hfilters : filters = p.filters.map (Expression.withColumns (columnAt schema p.model t'.aliases)))
    (hfits : E.Fits db schema) (hr : E.Rooted db schema p)
    (hrows : E.Answers db schema p r t.joins rows) (hn : E.Counts db schema p (.plain filters t') n)
    (hout : materialize schema r.fullScan rows calledOff = .ok out) : out.length = n := by
  have hroots := h.root_mem hp.fresh hr
  obtain ⟨nodes, hscan, -⟩ := h.named.scan
  obtain ⟨Q, keys, hlength, hkeys⟩ := hrows.instances hroots hfits hpaged hscan hkey hgroup hr.told hout
  have hsame : E.Root db (schema p.model).table t.joins r.filters =
      E.Root db (schema p.model).table t'.joins filters := by
    rw [h.named.filters, hfilters]
    exact funext fun u => propext (Engine.root_iff h.reached.reaches h'.reaches hp.fresh.filters
      (Plan.visits_cover schema false hp.fresh) (Plan.filterVisits_cover schema hp.fresh)
      (hp.sameKept hpaged hdistinct h.reached h') u)
  rw [hsame] at hkeys hroots
  rw [hlength]
  simp only [Engine.Counts, hpk] at hn
  cases hmany : t'.toMany with
  | true =>
    rw [hmany, if_pos rfl] at hn
    obtain ⟨Q', keys', rfl, hkeys'⟩ := hn.onePerRow hpk hfits hroots
    exact hkeys.length_eq hkeys'
  | false =>
    rw [hmany, if_neg Bool.false_ne_true] at hn
    rw [hn]
    refine hkeys.length_eq (Engine.matched_onePerRow ?_)
    rw [hfilters, Engine.map_matched h'.reaches hp.fresh.filters
      (Plan.filterVisits_cover schema hp.fresh)]
    exact (hr.once hpaged hdistinct (hscope ▸ hmany)).sublist
      (Engine.found_root_sublist h'.reaches.route (h'.unrepeated hmany hfits))

/-- A plain count. -/
theorem count_plain {filters : List (Expression ι)} (hpk : (schema p.model).pk? = some pk)
    (hp : p.Countable schema) (hres : Yields (p.resolve schema p.select false true) {} r t)
    (hpaged : p.paged = false) (hdistinct : p.distinct = false)
    (hcond : Yields (p.resolveConditions schema) {} filters t') (hfits : E.Fits db schema)
    (hrooted : p.Multiplies schema → E.Rooted db schema p)
    (hrows : E.Answers db schema p r t.joins rows) (hn : E.Counts db schema p (.plain filters t') n)
    (hout : materialize schema r.fullScan rows calledOff = .ok out) : out.length = n := by
  have hscope : p.scope schema = t := congrArg Prod.snd hres
  have hscope' : (p.conditions schema).2 = t' := congrArg Prod.snd hcond
  have hd := hp.columns
  have hc := hp.tables
  have hc' := hp.conditions
  rw [hscope] at hd hc
  rw [hscope'] at hc'
  have h := Plan.resolved hres hd.joinKeysDistinct hc
  obtain ⟨h', hfilters⟩ := Plan.conditions_reached hcond hd.joinKeysDistinct hc'
  obtain ⟨hgroup, hkey⟩ := Plan.resolve_groupRows hres hd hc hpk
  cases hmany : t.toMany with
  | false =>
    exact count_plain_once hpk hp hpaged hdistinct h (hgroup.trans hmany) hmany h' hfilters hfits
      hrows hn hout
  | true =>
    exact count_plain_grouped hpk hp hpaged hdistinct h (hgroup.trans hmany) (hkey hmany) h' hscope'
      hfilters hfits (hrooted (h.reached.multiplies_iff.1 hmany)) hrows hn hout

end

section

variable [DecidableEq ι] {r r' : ResolvedSelect ι} {t t' : Scope} {E : Engine ι} {db : Contents}
  {rows rows' : List (List Value)} {n : Nat} {calledOff : CalledOff} {out : List (Instance ι)}
  {pk : FieldDef ι}

namespace Plan.Unordered

theorem reached (h : p.Unordered schema r r' t t') :
    p.Reached schema (p.unordered.visits schema p.select true) t' :=
  ⟨h.nested.reached.reaches, h.nested.reached.toMany⟩

/-- An ordering changes no row of the root. -/
theorem root_eq (h : p.Unordered schema r r' t t') (hf : p.Fresh) :
    E.Root db (schema p.model).table t.joins r.filters =
      E.Root db (schema p.model).table t'.joins r'.filters := by
  have hcover' : Engine.Covers schema p.model p.filters ([] :: p.explicitPlaces schema ++ _) :=
    Plan.visits_cover (p := p.unordered) schema true ⟨hf.annotations, hf.filters⟩
  have hsame : Engine.SameKept E db schema p.model p.filters
      (arrivals (p.explicitPlaces schema) (p.visits schema p.select false))
      (arrivals (p.explicitPlaces schema) (p.unordered.visits schema p.select true)) := by
    rw [Plan.visits_unordered, arrivals_append]
    exact Engine.sameKept_append hf.filters (Plan.sortVisits_route _) Plan.sortVisits_left hcover'
  rw [h.select.named.filters, h.nested.named.filters]
  exact funext fun u => propext (Engine.root_iff h.select.reached.reaches h.reached.reaches
    hf.filters (Plan.visits_cover schema _ hf) hcover' hsame u)

/-- Where no row of the root is multiplied, an ordering changes no row of a SELECT. -/
theorem length_eq (h : p.Unordered schema r r' t t') (hf : p.Fresh) (hone : t.toMany = false)
    (hone' : t'.toMany = false) (hfits : E.Fits db schema) (hrows : E.Answers db schema p r t.joins rows)
    (hrows' : E.Answers db schema p.unordered r' t'.joins rows') : rows.length = rows'.length := by
  obtain ⟨nodes, hscan', hnodes⟩ := h.nested.named.scan
  have hs : r'.scan = r.scan := h.scan (hone'.trans hone.symm)
  have hscan : ScanAt schema p.model t.aliases r.scan nodes := hs ▸ hscan'.extend h.extend
  have hcover : Engine.Covers schema p.model p.filters ([] :: p.explicitPlaces schema ++ _) :=
    Plan.visits_cover (p := p.unordered) schema true ⟨hf.annotations, hf.filters⟩
  have hcomputed : Engine.Covers schema p.model (p.annotations.map (·.2))
      ([] :: p.explicitPlaces schema ++ _) :=
    Plan.annotations_cover (p := p.unordered) schema true ⟨hf.annotations, hf.filters⟩
  have hone := h.select.reached.unrepeated hone hfits
  have hreached := h.select.reached.reaches
  rw [Plan.visits_unordered, arrivals_append] at hone hreached
  refine hrows.length_eq hrows' rfl rfl rfl ?_
  rw [h.select.named.filters, h.nested.named.filters]
  exact Engine.map_shows_append hreached h.reached.reaches (Plan.sortVisits_route _)
    Plan.sortVisits_left (fun w hw => hone w (List.mem_append_right _ hw)) hf.filters hf.annotations
    hcover hcomputed hscan hscan' hs
    (fun c hc => Plan.selected_mem (p := p.unordered) ((hnodes c).1 hc))
    h.select.named.annotations h.nested.named.annotations

end Plan.Unordered

/-- A count of the rows of a SELECT whose joins multiply no row of the root. -/
theorem count_nested_once (hp : p.Countable schema) (h : p.Unordered schema r r' t t')
    (hgroup : r.fullScan.groupRows = false) (hmany : t.toMany = false) (hfits : E.Fits db schema)
    (hrows : E.Answers db schema p r t.joins rows) (hn : E.Counts db schema p (.nested r' t') n)
    (hout : materialize schema r.fullScan rows calledOff = .ok out) : out.length = n := by
  have hsub : p.unordered.visits schema p.select true ⊆ p.visits schema p.select false := by
    rw [Plan.visits_unordered]
    exact List.subset_append_left _ _
  have hmany' := h.reached.toMany_mono h.select.reached hsub hmany
  have hgroup' : r'.fullScan.groupRows = false :=
    (congrArg ScanPlan.groupRows (h.scan (hmany'.trans hmany.symm))).trans hgroup
  obtain ⟨rows', hrows', hn⟩ := hn
  have hcount : n = rows'.length := by
    rw [hgroup'] at hn
    split at hn <;> exact hn
  rw [hcount, materialize_length hgroup hout]
  exact h.length_eq hp.fresh hmany hmany' hfits hrows hrows'

/-- A count of the distinct keys of a SELECT. -/
theorem count_nested_grouped (hp : p.Countable schema) (hpaged : p.paged = false)
    (h : p.Unordered schema r r' t t') (hgroup : r.scan.groupRows = true)
    (hkey : r.scan.rootKey.isSome = true) (hscan : r'.scan = r.scan) (hfits : E.Fits db schema)
    (hr : E.Rooted db schema p) (hrows : E.Answers db schema p r t.joins rows)
    (hn : E.Counts db schema p (.nested r' t') n)
    (hout : materialize schema r.fullScan rows calledOff = .ok out) : out.length = n := by
  have hroots := h.select.root_mem hp.fresh hr
  obtain ⟨nodes, hs, -⟩ := h.select.named.scan
  obtain ⟨Q, keys, hlength, hkeys⟩ := hrows.instances hroots hfits hpaged hs hkey hgroup hr.told hout
  obtain ⟨k, e, f, hk⟩ := hs.keyedBy hkey
  rw [← hscan] at hk
  have hgroup' : r'.fullScan.groupRows = true := (congrArg ScanPlan.groupRows hscan).trans hgroup
  obtain ⟨rows', hrows', hn⟩ := hn
  rw [hk.full.rootKey, Option.bind_some, hk.full.entry] at hn
  dsimp only at hn
  rw [if_pos hgroup'] at hn
  rw [h.root_eq hp.fresh] at hroots hkeys
  obtain ⟨Q', keys', rfl, hkeys'⟩ := hrows'.counted hroots hfits hpaged hk h.nested.once hn
  rw [hlength]
  exact hkeys.length_eq hkeys'

/-- A count of the rows of a SELECT. -/
theorem count_nested (hpk : (schema p.model).pk? = some pk) (hp : p.Countable schema)
    (hres : Yields (p.resolve schema p.select false true) {} r t)
    (hwindow : (p.paged || p.distinct) = true)
    (hres' : Yields (p.unordered.resolve schema p.select true true) {} r' t')
    (hfits : E.Fits db schema) (hrooted : p.Multiplies schema → E.Rooted db schema p)
    (hrows : E.Answers db schema p r t.joins rows) (hn : E.Counts db schema p (.nested r' t') n)
    (hout : materialize schema r.fullScan rows calledOff = .ok out) : out.length = n := by
  have hscope : p.scope schema = t := congrArg Prod.snd hres
  have hd := hp.columns
  have hc := hp.tables
  rw [hscope] at hd hc
  have h := Plan.unordered_resolved hres hres' hd.joinKeysDistinct hc
  obtain ⟨hgroup, hkey⟩ := Plan.resolve_groupRows hres hd hc hpk
  cases hmany : t.toMany with
  | false => exact count_nested_once hp h (hgroup.trans hmany) hmany hfits hrows hn hout
  | true =>
    have hmult := h.select.reached.multiplies_iff.1 hmany
    have hpaged : p.paged = false := Bool.eq_false_iff.2 fun hpaged => hp.paged hpaged hmult
    have hdistinct : p.distinct = true := by simpa [hpaged] using hwindow
    have hmany' : t'.toMany = true :=
      (Plan.Reached.multiplies_iff (p := p.unordered) h.nested.reached).2 (hp.distinct hdistinct hmult)
    exact count_nested_grouped hp hpaged h (hgroup.trans hmany) (hkey hmany)
      (h.scan (hmany'.trans hmany.symm)) hfits (hrooted hmult) hrows hn hout

/--
A count is the number of the instances of its query, whatever the database has: if its primary keys are
there and do not repeat, if one-to-one relations are so backwards, and if, where a relation to many is
crossed, explicit joins leave the rows of the root as they are.
-/
theorem count_of_all {c k : Compiled ι} (hpk : (schema p.model).pk? = some pk)
    (hp : p.Countable schema) (hc : compileSelect schema p = .ok c) (hk : compileCount schema p = .ok k) :
    ∃ r t q, p.Selects schema r t c ∧ p.CountsBy schema k q ∧
      ∀ (E : Engine ι) (db : Contents) (rows : List (List Value)) (n : Nat) (calledOff : CalledOff)
        (out : List (Instance ι)), E.Fits db schema → (p.Multiplies schema → E.Rooted db schema p) →
        E.Answers db schema p r t.joins rows → E.Counts db schema p q n →
        materialize schema c.scan rows calledOff = .ok out → out.length = n := by
  obtain ⟨r, t, hs⟩ := compileSelect_selects hc
  obtain ⟨q, hq⟩ := compileCount_counts hk
  refine ⟨r, t, q, hs, hq, fun E db rows n calledOff out hfits hrooted hrows hn hout => ?_⟩
  obtain ⟨computed, mid, predicates, -, -, -, hscan⟩ := hs.writes
  rw [hscan] at hout
  cases q with
  | plain filters t' =>
    obtain ⟨hpaged, hdistinct, hcond, -⟩ := hq
    exact count_plain hpk hp hs.resolves hpaged hdistinct hcond hfits hrooted hrows hn hout
  | nested r' t' =>
    obtain ⟨hwindow, hres', -⟩ := hq
    exact count_nested hpk hp hs.resolves hwindow hres' hfits hrooted hrows hn hout

end

/-! ## Counted todos -/

namespace Engine

/-- Values are equal if their texts are; only those predicates may hold that compare a single value. -/
def ofTexts (ι : Type) : Engine ι where
  alike v w := v.isNull = w.isNull ∧ v.groupKey = w.groupKey
  equivalence := ⟨fun _ => ⟨rfl, rfl⟩, fun h => ⟨h.1.symm, h.2.symm⟩,
    fun h h' => ⟨h.1.trans h'.1, h.2.trans h'.2⟩⟩
  compares op v w :=
    if v.isNull || w.isNull || op != "=" then .unknown
    else if v.groupKey = w.groupKey then .yes else .no
  equal_iff v w := by
    have hnull (u : Value) : u.isNull = true ↔ u = .null := by cases u <;> simp [Value.isNull]
    cases hv : v.isNull <;> cases hw : w.isNull <;> simp [← hnull, hv, hw]
  elsewhere _ _ := .null
  judges
    | .leaf l, _, [v] =>
      match l.lookup, l.values with
      | .exact, [w] => if v.isNull then .unknown else if v.groupKey = w.groupKey then .yes else .no
      | _, _ => .unknown
    | _, _, _ => .unknown
  judges_null l r _ := by
    dsimp only
    split <;> simp [Value.isNull]
  computes _ _ _ := .null

instance (ι : Type) : DecidableRel (ofTexts ι).alike := fun _ _ => inferInstanceAs (Decidable (_ ∧ _))

instance {ι : Type} (E : Engine ι) (rows : List TableRow) (column : String) :
    Decidable (E.Unrepeated rows column) :=
  inferInstanceAs (Decidable (List.Pairwise _ _))

/-- A database fits if its keys do and nothing is one to one backwards in it. -/
theorem fits_of_keys {E : Engine ι} {db : Contents}
    (hkeys : ∀ i, ∀ f ∈ (schema i).fields, f.primaryKey = true →
      (∀ r ∈ db (schema i).table, (r f.column).isNull = false) ∧
        E.Unrepeated (db (schema i).table) f.column)
    (hone : ∀ i, ∀ f ∈ (schema i).fields, ∀ r ∈ f.relation, r.kind = .oneToOne →
      r.relatedField.isSome = true → db (schema r.target).table = []) : E.Fits db schema where
  present i f hf hkey r hr hnull := by
    have hsome := (hkeys i f hf hkey).1 r hr
    rw [hnull] at hsome
    cases hsome
  key i f hf hkey := (hkeys i f hf hkey).2
  backward i f hf r hr hkind name g hname _ := by
    rw [hone i f hf r hr hkind (by rw [hname]; rfl)]
    exact List.Pairwise.nil

end Engine

/-- A row that has NULL in all other columns. -/
def rowOf (cells : List (String × Value)) : TableRow := fun column => (cells.lookup column).getD .null

/-- The todos of Ann and the labels of their tags. -/
def todosOfAnn : Plan Sample where
  model := .todo
  select := ["title", "tags.label"]
  filters := [.compare "user.name" .exact [.string "Ann"]]

/-- Ann has two todos, one of them with two tags, and Bob has one. -/
def todosOfTwo : Contents
  | "users" => [rowOf [("id", .int 1), ("name", .string "Ann")],
      rowOf [("id", .int 2), ("name", .string "Bob")]]
  | "todos" => [rowOf [("id", .int 1), ("title", .string "wash"), ("user_id", .int 1)],
      rowOf [("id", .int 2), ("title", .string "wash"), ("user_id", .int 2)],
      rowOf [("id", .int 3), ("title", .string "cook"), ("user_id", .int 1)]]
  | "tags" => [rowOf [("id", .int 1), ("label", .string "home")],
      rowOf [("id", .int 2), ("label", .string "work")]]
  | "todos_tags" => [rowOf [("todos_id", .int 1), ("tags_id", .int 1)],
      rowOf [("todos_id", .int 1), ("tags_id", .int 2)]]
  | _ => []

/-- The three rows of Ann's two todos are two instances, and so they are counted. -/
theorem todosOfAnn_counted : ∃ c k r t q out,
    compileSelect Sample.schema todosOfAnn = .ok c ∧ compileCount Sample.schema todosOfAnn = .ok k ∧
    todosOfAnn.Selects Sample.schema r t c ∧ todosOfAnn.CountsBy Sample.schema k q ∧
    let rows := (Engine.ofTexts Sample).answer todosOfTwo Sample.schema todosOfAnn r t.joins
    materialize Sample.schema c.scan rows (fun _ => false) = .ok out ∧ out.length = 2 ∧
      out.length = (Engine.ofTexts Sample).count todosOfTwo Sample.schema todosOfAnn q := by
  obtain ⟨c, hc⟩ : ∃ c, compileSelect Sample.schema todosOfAnn = .ok c :=
    exists_eq_ok (by decide +kernel)
  obtain ⟨k, hk⟩ : ∃ k, compileCount Sample.schema todosOfAnn = .ok k :=
    exists_eq_ok (by decide +kernel)
  have hcountable : todosOfAnn.Countable Sample.schema := by
    refine ⟨⟨nofun, fun e he => ?_⟩, ⟨by decide +kernel, fun i => ?_, by decide +kernel⟩,
      ⟨by decide +kernel, nofun⟩, ⟨by decide +kernel, nofun⟩, nofun, nofun, fun _ _ => ?_⟩
    · obtain rfl := List.mem_singleton.1 he
      rfl
    · cases i <;> decide +kernel
    · decide +kernel
  obtain ⟨r, t, q, hs, hq, hcount⟩ := count_of_all rfl hcountable hc hk
  have hfits : (Engine.ofTexts Sample).Fits todosOfTwo Sample.schema := by
    refine Engine.fits_of_keys (fun i => ?_) fun i => ?_ <;> cases i <;> decide +kernel
  have htold : Engine.KeysTold todosOfTwo Sample.schema todosOfAnn.model := by
    have hkey : ∀ f ∈ (Sample.schema .todo).fields, f.primaryKey = true →
        f.column = "id" ∧ f.type = .bigAuto := by
      decide +kernel
    refine hfits.keysTold (fun f hf hpk => ?_) (by decide +kernel)
    obtain ⟨hcolumn, htype⟩ := hkey f hf hpk
    have hread : ∀ n : Int64, FieldType.bigAuto.normalize (.int n) = .ok (.int n) := fun _ => rfl
    rw [hcolumn, htype]
    exact List.forall_mem_cons.2 ⟨hread 1, List.forall_mem_cons.2 ⟨hread 2,
      List.forall_mem_singleton.2 (hread 3)⟩⟩
  have htally : (Engine.ofTexts Sample).tally todosOfTwo Sample.schema todosOfAnn = some (2, 2) := by
    decide +kernel
  obtain ⟨out, hm, hlength, -⟩ := Engine.tally_eq _ _ hs hq htally
  have heq := hcount _ _ _ _ _ out hfits (fun _ => htold.rooted rfl rfl)
    (Engine.answers_answer _ _ _ _ _) (Engine.counts_count _ _ _ q) hm
  exact ⟨c, k, r, t, q, out, hc, hk, hs, hq, hm, hlength, heq⟩

/-- The titles of todos, without repetition, in the order of their tags. -/
def titlesByTags : Plan Sample where
  model := .todo
  select := ["title"]
  orderBy := some ["tags.label"]
  distinct := true

/-- Two todos of one title, without tags. -/
def todosOfOneTitle : Contents
  | "todos" => [rowOf [("id", .int 1), ("title", .string "a")],
      rowOf [("id", .int 2), ("title", .string "a")]]
  | _ => []

/-- Only the SELECT joins the tags, and tells apart by their keys todos that the count takes for one. -/
theorem titlesByTags_miscounted : ∃ c k r t q rows n out, titlesByTags.error = none ∧
    compileSelect Sample.schema titlesByTags = .ok c ∧ compileCount Sample.schema titlesByTags = .ok k ∧
    titlesByTags.Selects Sample.schema r t c ∧ titlesByTags.CountsBy Sample.schema k q ∧
    (Engine.ofTexts Sample).Fits todosOfOneTitle Sample.schema ∧
    (Engine.ofTexts Sample).Answers todosOfOneTitle Sample.schema titlesByTags r t.joins rows ∧
    (Engine.ofTexts Sample).Counts todosOfOneTitle Sample.schema titlesByTags q n ∧
    materialize Sample.schema c.scan rows (fun _ => false) = .ok out ∧ out.length = 2 ∧ n = 1 := by
  obtain ⟨c, hc⟩ : ∃ c, compileSelect Sample.schema titlesByTags = .ok c :=
    exists_eq_ok (by decide +kernel)
  obtain ⟨k, hk⟩ : ∃ k, compileCount Sample.schema titlesByTags = .ok k :=
    exists_eq_ok (by decide +kernel)
  obtain ⟨r, t, hs⟩ := compileSelect_selects hc
  obtain ⟨q, hq⟩ := compileCount_counts hk
  have hfits : (Engine.ofTexts Sample).Fits todosOfOneTitle Sample.schema := by
    refine Engine.fits_of_keys (fun i => ?_) fun i => ?_ <;> cases i <;> decide +kernel
  have htally : (Engine.ofTexts Sample).tally todosOfOneTitle Sample.schema titlesByTags =
      some (2, 1) := by
    decide +kernel
  obtain ⟨out, hm, hlength, hn⟩ := Engine.tally_eq _ _ hs hq htally
  exact ⟨c, k, r, t, q, _, _, out, rfl, hc, hk, hs, hq, hfits, Engine.answers_answer _ _ _ _ _,
    Engine.counts_count _ _ _ q, hm, hlength, hn⟩

/-- A computed column that joins inner leaves out todos of nobody, which are counted. -/
example : (Engine.ofTexts Sample).tally todosOfOneTitle Sample.schema
    { model := .todo, annotations := [("first", .compare "user.id" .exact [.int 1])] } =
      some (0, 2) := by
  decide +kernel

end Orm
