import Orm.Proofs.Place.Query
import Orm.Proofs.Tree.Attach

/-
Grouped rows: `materialize` gives one instance for each root key, and below it, in every collection, one
for each key among the rows that share the keys above (`materialize_represents`).

For the rows of a SELECT that says when they are grouped, and what instances they give.
-/

namespace Orm

section

variable {ι : Type} {schema : Schema ι} {scan : ScanPlan ι}

/-- Among the nodes below one node, each relation leads to one. -/
def ScanPlan.SiblingsDistinct (scan : ScanPlan ι) : Prop :=
  ∀ i j p f g, scan.parentAt i = some p → scan.parentAt j = some p →
    scan.relationAt i = some f → scan.relationAt j = some g → f.name = g.name → i = j

/--
An instance stands for the trees that the rows sharing its key, and the keys above it, have at its node.
Its own values are those of the first of them. Behind each relation with trees below stands one instance
for each group of them, and every collection without is empty.
-/
inductive Represents (schema : Schema ι) (scan : ScanPlan ι) : List (Tree ι) → Instance ι → Prop
  | intro {t : Tree ι} {rest : List (Tree ι)} {x : Instance ι} (behind : Nat → List (Instance ι)) :
      x.model = t.root.model →
      x.annotations = t.root.annotations →
      (∀ name, Tree.Unnamed scan name ((t :: rest).flatMap Tree.children) →
        x.slot? name = t.root.slot? name) →
      (∀ name rs, t.root.slot? name = some (.many rs) → rs = []) →
      (∀ j, Tree.childrenAt (t :: rest) j ≠ [] → ∃ f, scan.relationAt j = some f ∧
        x.behind schema f.name (scan.collects j) = .ok (behind j)) →
      (∀ j, List.Forall₂ (Represents schema scan) (Tree.groupsAt scan (t :: rest) j) (behind j)) →
      Represents schema scan (t :: rest) x

/-- Two pairings, one after the other. -/
theorem forall₂_trans {α β γ : Type} {R : α → β → Prop} {S : β → γ → Prop} {T : α → γ → Prop}
    {as : List α} {bs : List β} {cs : List γ} (hr : List.Forall₂ R as bs)
    (hs : List.Forall₂ S bs cs)
    (ht : ∀ a ∈ as, ∀ b ∈ bs, ∀ c, R a b → S b c → T a c) : List.Forall₂ T as cs := by
  induction hr generalizing cs with
  | nil =>
    cases hs
    exact .nil
  | @cons a b as bs hab _ ih =>
    cases hs with
    | cons hbc hs =>
      refine .cons (ht a List.mem_cons_self b List.mem_cons_self _ hab hbc) (ih hs ?_)
      exact fun a ha b hb => ht a (List.mem_cons_of_mem _ ha) b (List.mem_cons_of_mem _ hb)

namespace Tree

/-- A tree as rows have them that has a key if its instance is collected. -/
def Proper (schema : Schema ι) (scan : ScanPlan ι) (t : Tree ι) : Prop :=
  Built schema scan t ∧ Keyed scan t

theorem Proper.slots_nodup {t : Tree ι} (h : Proper schema scan t) :
    (t.children.map (slot scan)).Nodup := by
  refine List.Nodup.of_map Prod.fst ?_
  rw [List.map_map]
  exact h.1.nodup

variable [DecidableEq ι]

theorem attach_eq (t : Tree ι) : attach schema scan t = attachAll schema scan t.root t.children := by
  cases t
  rw [attach]
  rfl

/-- The trees of rows that stand at one node. -/
def Together (schema : Schema ι) (scan : ScanPlan ι) (ts : List (Tree ι)) : Prop :=
  ∃ i, ∀ t ∈ ts, t.index = i ∧ t.Every (Proper schema scan)

omit [DecidableEq ι] in
/-- The trees below such trees stand at nodes below theirs. -/
theorem Together.under {ts : List (Tree ι)} (h : Together schema scan ts) :
    ∃ i, ∀ c ∈ ts.flatMap children, c.Every (Proper schema scan) ∧
      scan.parentAt c.index = some i := by
  obtain ⟨i, h⟩ := h
  refine ⟨i, fun c hc => ?_⟩
  obtain ⟨t, ht, hc⟩ := List.mem_flatMap.1 hc
  obtain ⟨rfl, ht⟩ := h t ht
  exact ⟨ht.under c hc, ht.here.1.parent c hc⟩

omit [DecidableEq ι] in
theorem Together.group {ts g : List (Tree ι)} {j : Nat} (h : Together schema scan ts)
    (hg : g ∈ groupsAt scan ts j) : Together schema scan g := by
  obtain ⟨i, hunder⟩ := h.under
  refine ⟨j, fun t ht => ?_⟩
  obtain ⟨hmem, hindex⟩ := List.mem_filter.1 (mem_of_mem_groupsBy hg ht)
  exact ⟨beq_iff_eq.1 hindex, (hunder t hmem).1⟩

/-- The instance of a merged tree stands for the trees that were merged. -/
theorem represents_of_attach (hs : scan.SiblingsDistinct) (u : Tree ι) :
    ∀ {ts : List (Tree ι)} {x : Instance ι}, mergedOf (merge scan) ts = some u →
      Together schema scan ts → attach schema scan u = .ok x → Represents schema scan ts x := by
  induction u using induct_children with
  | step u ih =>
    intro ts x hu hts hx
    obtain ⟨t, rest, rfl⟩ : ∃ t rest, ts = t :: rest :=
      List.exists_cons_of_ne_nil fun h => by simp [h, mergedOf] at hu
    obtain ⟨i, hunder⟩ := hts.under
    have ht : Proper schema scan t := (hts.choose_spec t List.mem_cons_self).2.here
    have hkeyed : ∀ v ∈ rest, ∀ c ∈ v.children, Keyed scan c := fun v hv c hc =>
      (hunder c (List.mem_flatMap.2 ⟨v, List.mem_cons_of_mem t hv, hc⟩)).1.here.2
    have hroot : u.root = t.root := mergedOf_keeps (merge_root scan) hu
    have hindex : ∀ {P : Nat → Prop}, (∀ c ∈ (t :: rest).flatMap children, P (index c)) →
        ∀ c ∈ u.children, P (index c) := mergedOf_children_index ht.slots_nodup hkeyed hu
    have hparent : ∀ c ∈ u.children, scan.parentAt (index c) = some i :=
      hindex (P := fun k => scan.parentAt k = some i) fun c hc => (hunder c hc).2
    have hgroups := mergedOf_childrenAt ht.slots_nodup hkeyed hu
    rw [attach_eq, hroot] at hx
    -- at each node below, one tree for each group is attached
    have hbehind : ∀ j, ∃ ys,
        List.Forall₂ (fun c z => attach schema scan c = .ok z) (u.children.filter (·.index == j)) ys ∧
          (childrenAt (t :: rest) j ≠ [] → ∃ f, scan.relationAt j = some f ∧
            x.behind schema f.name (scan.collects j) = .ok ys) := by
      intro j
      have hj := hgroups j
      by_cases hnone : childrenAt (t :: rest) j = []
      · rw [groupsAt, hnone] at hj
        rw [List.forall₂_nil_left_iff.1 hj]
        exact ⟨[], .nil, fun hne => absurd hnone hne⟩
      · have hne : u.children.filter (·.index == j) ≠ [] := by
          intro hnil
          rw [hnil] at hj
          exact hnone (groupsBy_eq_nil.1 (List.forall₂_nil_right_iff.1 hj))
        obtain ⟨c, hmem⟩ := List.exists_mem_of_ne_nil _ hne
        obtain ⟨hc, hcj⟩ := List.mem_filter.1 hmem
        obtain rfl := beq_iff_eq.1 hcj
        obtain ⟨f, hf⟩ := attachAll_relation hx c hc
        have honly : OnlyAt scan f.name c.index u.children := fun d hd g hg hname =>
          hs d.index c.index i g f (hparent d hd) (hparent c hc) hg hf hname
        obtain ⟨ys, hys, hx⟩ := attachAll_behind ht.1.bare hf honly hne (fun hsingle => by
          rw [groupsAt_single hsingle hnone] at hj
          obtain ⟨d, ds, -, hds, heq⟩ := List.forall₂_cons_left_iff.1 hj
          exact ⟨d, List.forall₂_nil_left_iff.1 hds ▸ heq⟩) hx
        exact ⟨ys, hys, fun _ => ⟨f, hf, hx⟩⟩
    choose behind hattach hbehind using hbehind
    obtain ⟨hmodel, hannotations⟩ := attachAll_model hx
    refine .intro behind hmodel hannotations (fun name hname => ?_) ht.1.bare.collections hbehind
      fun j => ?_
    · exact attachAll_slot (hindex (P := fun k => ∀ f, scan.relationAt k = some f → f.name ≠ name) hname) hx
    · refine forall₂_trans (hgroups j) (hattach j) fun g hg c hc y hu hy => ?_
      exact ih c (List.mem_filter.1 hc).1 hu (hts.group hg) hy

end Tree

/-! ## All rows -/

theorem addTree_eq_gather (t : Tree ι) (ts : List (Tree ι)) :
    addTree scan t ts = gather Tree.key (Tree.merge scan) ts t := by
  induction ts with
  | nil => rfl
  | cons u rest ih => simp only [addTree, gather, beq_iff_eq, ih]

theorem rowTrees_ok {calledOff : CalledOff} {rows : List (List Value)} :
    ∀ {i : Nat} {acc out : List (Tree ι)}, rowTrees schema scan calledOff i acc rows = .ok out →
      ∃ trees, List.Forall₂ (fun row t => rowTree schema scan row = .ok t) rows trees ∧
        out = trees.foldl (placeTree scan) acc := by
  induction rows with
  | nil =>
    intro i acc out h
    exact ⟨[], .nil, (Except.ok.inj h).symm⟩
  | cons row rows ih =>
    intro i acc out h
    rw [rowTrees] at h
    split at h
    · cases h
    · obtain ⟨-, -, h⟩ := bind_eq_ok.1 h
      obtain ⟨t, ht, h⟩ := bind_eq_ok.1 h
      obtain ⟨trees, htrees, rfl⟩ := ih h
      exact ⟨t :: trees, .cons ht htrees, rfl⟩

/-- What holds of a tree and of those that it is merged into holds of all trees once it is placed. -/
theorem placeTree_forall {P : Tree ι → Prop} {t : Tree ι} (ht : P t)
    (hm : ∀ u, P u → P (Tree.merge scan t u)) {trees : List (Tree ι)} (h : ∀ u ∈ trees, P u) :
    ∀ u ∈ placeTree scan trees t, P u := by
  have hadd : ∀ u ∈ addTree scan t trees, P u := by
    induction trees with
    | nil => exact fun u hu => List.mem_singleton.1 hu ▸ ht
    | cons v trees ih =>
      obtain ⟨hv, hrest⟩ := List.forall_mem_cons.1 h
      rw [addTree]
      split
      · exact List.forall_mem_cons.2 ⟨hm v hv, hrest⟩
      · exact List.forall_mem_cons.2 ⟨hv, ih hrest⟩
  unfold placeTree
  split
  · exact hadd
  · intro u hu
    rcases List.mem_append.1 hu with hu | hu
    · exact h u hu
    · exact List.mem_singleton.1 hu ▸ ht

/-- Where rows are grouped and every root has a key, the trees are gathered by it. -/
theorem foldl_placeTree (hg : scan.groupRows = true) {trees : List (Tree ι)}
    (hk : ∀ t ∈ trees, t.key.isSome = true) (acc : List (Tree ι)) :
    trees.foldl (placeTree scan) acc = gatherAll Tree.key (Tree.merge scan) acc trees := by
  induction trees generalizing acc with
  | nil => rfl
  | cons t trees ih =>
    obtain ⟨ht, hk⟩ := List.forall_mem_cons.1 hk
    rw [List.foldl_cons, ih hk, gatherAll_cons, placeTree, hg, ht, ← addTree_eq_gather]
    rfl

end

section

variable {ι : Type} {schema : Schema ι} {root : ι}

theorem Leads.unique {m k k' : ι} {c : List (Hop ι)} (h : Leads schema m c k)
    (h' : Leads schema m c k') : k = k' := by
  induction c generalizing m with
  | nil => exact h.symm.trans h'
  | cons x c ih => exact ih h.2.2.2 h'.2.2.2

/-- From one place, the relations of one name lead to one place. -/
theorem hop_eq_of_name (hn : FieldNamesDistinct schema) {c : List (Hop ι)} {x y : Hop ι} {k k' : ι}
    (hx : Leads schema root (c ++ [x]) k) (hy : Leads schema root (c ++ [y]) k')
    (hname : x.field.name = y.field.name) : x = y := by
  obtain ⟨m, hm, hsource, hf, hr, -⟩ := hx.of_append
  obtain ⟨m', hm', hsource', hf', hr', -⟩ := hy.of_append
  obtain rfl := hm.unique hm'
  have hfield := hn.eq hf hf' hname
  have hrelation : x.relation = y.relation := by
    rw [hfield, hr'] at hr
    exact (Option.some.inj hr).symm
  cases x
  cases y
  simp_all

theorem ScanAt.siblingsDistinct (hn : FieldNamesDistinct schema) {a : Aliases} {s : ScanPlan ι}
    {places : List (List (Hop ι))} (h : ScanAt schema root a s places) : s.SiblingsDistinct := by
  intro i j p f g hpi hpj hf hg hname
  have hbelow : ∀ {i : Nat} {f : FieldDef ι}, s.parentAt i = some p → s.relationAt i = some f →
      ∃ c h, places[i]? = some (c ++ [h]) ∧ places[p]? = some c ∧ h.field = f := by
    intro i f hpi hf
    obtain ⟨n, hn, hp⟩ := Option.bind_eq_some_iff.1 hpi
    rw [ScanPlan.relationAt, hn] at hf
    obtain ⟨c, hc, hat⟩ := h.place_of_node hn
    cases hat with
    | root hnone _ _ _ => cases hnone.symm.trans hp
    | @below _ q _ c x _ hplace hparent hrelation _ _ =>
      obtain rfl := Option.some.inj (hparent.symm.trans hp)
      exact ⟨c, x, hc, hplace, Option.some.inj (hrelation.symm.trans hf)⟩
  obtain ⟨c, x, hi, hc, rfl⟩ := hbelow hpi hf
  obtain ⟨d, y, hj, hd, rfl⟩ := hbelow hpj hg
  obtain rfl := Option.some.inj (hc.symm.trans hd)
  obtain ⟨k, hx⟩ := (h.placed _ (List.mem_of_getElem? hi)).joinable.leads
  obtain ⟨k', hy⟩ := (h.placed _ (List.mem_of_getElem? hj)).joinable.leads
  obtain rfl := hop_eq_of_name hn hx hy hname
  obtain ⟨hlt, -⟩ := List.getElem?_eq_some_iff.1 hi
  exact (List.getElem?_inj hlt h.nodup).1 (hi.trans hj.symm)

section

variable [DecidableEq ι] {p : Plan ι} {c : Compiled ι}

/-- The scan of a SELECT tells apart the relations below each of its nodes. -/
theorem compileSelect_siblingsDistinct (hn : FieldNamesDistinct schema)
    (hk : JoinKeysDistinct schema)
    (hc : Clean schema p.model (p.joins.map (·.target)) (p.scope schema).aliases)
    (h : compileSelect schema p = .ok c) : c.scan.SiblingsDistinct := by
  obtain ⟨sql, scan, args, hw, rfl⟩ := compileSelect_cases h
  obtain ⟨r, scope, computed, mid, predicates, hres, -, -, hout⟩ := Plan.writeSelect_cases hw
  obtain ⟨rfl, rfl⟩ := Prod.mk.inj hout
  have hscope : p.scope schema = scope := congrArg Prod.snd hres
  rw [hscope] at hc
  obtain ⟨-, ⟨st⟩⟩ := Plan.stages hres
  obtain ⟨-, -, -, hnamed⟩ := st.mapped hk (fun j hj _ => List.mem_map_of_mem hj) hc
  obtain ⟨places, hscan, -⟩ := hnamed.scan
  exact hscan.siblingsDistinct hn

end

theorem sample_fieldNamesDistinct : FieldNamesDistinct Sample.schema := by
  intro i
  cases i <;> decide +kernel

/-- Users with what they have to do, and the tags of that. -/
def todosOfUsers : Plan Sample where
  model := .user
  select := ["name", "todos.id", "todos.title", "todos.tags.id", "todos.tags.label"]

end

end Orm
