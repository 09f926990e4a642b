import Orm.Proofs.Tree.Materialize

/-
The first instance of a result. Its tree is the one of the first row, merged with the trees of later rows
that have its root key, and the first row alone gives an instance wherever all rows together do
(`materialize_first`).
-/

namespace Orm

variable {ι : Type} {schema : Schema ι} {scan : ScanPlan ι}

/-! ## The first tree -/

/-- Whether a tree is merged into another one, as of the same root. -/
def Tree.joins (scan : ScanPlan ι) (u t : Tree ι) : Bool :=
  scan.groupRows && t.key.isSome && u.key == t.key

/-- The first tree stays first, and takes up the later ones of its key. -/
theorem foldl_placeTree_cons (ts : List (Tree ι)) : ∀ (u : Tree ι) (acc : List (Tree ι)),
    ∃ rest, ts.foldl (placeTree scan) (u :: acc) =
      (ts.filter (u.joins scan)).foldl (fun v t => Tree.merge scan t v) u :: rest := by
  induction ts with
  | nil => exact fun u acc => ⟨acc, rfl⟩
  | cons t ts ih =>
    intro u acc
    rw [List.foldl_cons, List.filter_cons]
    cases hj : u.joins scan t with
    | true =>
      have hkey : (Tree.merge scan t u).joins scan = u.joins scan := by
        funext v
        rw [Tree.joins, Tree.joins, Tree.merge_key]
      rw [Tree.joins, Bool.and_eq_true] at hj
      rw [placeTree, if_pos hj.1, addTree, if_pos hj.2, if_pos rfl, List.foldl_cons, ← hkey]
      exact ih (Tree.merge scan t u) acc
    | false =>
      have hplace : ∃ acc', placeTree scan (u :: acc) t = u :: acc' := by
        rw [placeTree]
        split
        case isTrue hg =>
          rw [Tree.joins, hg, Bool.true_and] at hj
          rw [addTree, if_neg (by rw [hj]; exact Bool.false_ne_true)]
          exact ⟨_, rfl⟩
        case isFalse => exact ⟨_, rfl⟩
      obtain ⟨acc', hplace⟩ := hplace
      rw [hplace, if_neg Bool.false_ne_true]
      exact ih u acc'

/-! ## A part of what was merged -/

/-- An instance has the model and the collections of another. -/
structure Instance.Outlines (x y : Instance ι) : Prop where
  model : y.model = x.model
  collections : ∀ name rs, x.slot? name = some (.many rs) → ∃ rs', y.slot? name = some (.many rs')

theorem Instance.Outlines.refl (x : Instance ι) : x.Outlines x := ⟨rfl, fun _ rs h => ⟨rs, h⟩⟩

/-- Slots of one name that are both filled, the second with a collection if the first is. -/
theorem Instance.Outlines.withSlot {x y : Instance ι} (h : x.Outlines y) (name : String)
    {s s' : Slot ι} (hs : ∀ rs, s = .many rs → (∃ rs, x.slot? name = some (.many rs)) ∧
      ∃ rs', s' = .many rs') : (x.withSlot name s).Outlines (y.withSlot name s') := by
  refine ⟨h.model, fun n rs hrs => ?_⟩
  rw [slot?_withSlot] at hrs ⊢
  by_cases hn : n = name
  · subst hn
    rw [if_pos rfl] at hrs ⊢
    obtain ⟨_, -, rfl⟩ := Option.map_eq_some_iff.1 hrs
    obtain ⟨⟨rs₁, hx⟩, rs₂, rfl⟩ := hs rs rfl
    obtain ⟨rs₃, hy⟩ := h.collections n rs₁ hx
    exact ⟨rs₂, by rw [hy]; rfl⟩
  · rw [if_neg hn] at hrs ⊢
    exact h.collections n rs hrs

namespace Tree

theorem Attached.outlined {x x' z : Instance ι} {name : String} {toMany : Bool} {s : Slot ι}
    (hx : x.Outlines x') (h : Attached schema x z name toMany s) (z' : Instance ι) :
    ∃ s', Attached schema x' z' name toMany s' ∧
      (x.withSlot name s).Outlines (x'.withSlot name s') := by
  have hrelation : ∀ b, x'.relation? schema name b = x.relation? schema name b := fun b => by
    rw [Instance.relation?, Instance.relation?, hx.model]
  cases h with
  | @pushed r rs hr hs =>
    obtain ⟨rs', hs'⟩ := hx.collections name rs hs
    exact ⟨_, .pushed ((hrelation true).trans hr) hs',
      hx.withSlot name fun _ _ => ⟨⟨rs, hs⟩, _, rfl⟩⟩
  | set hr =>
    exact ⟨_, .set ((hrelation false).trans hr), hx.withSlot name fun _ hs => by cases hs⟩

theorem Attached.slot_many {x z : Instance ι} {name : String} {toMany : Bool}
    {rs : List (Instance ι)} (h : Attached schema x z name toMany (.many rs)) :
    ∃ rs', x.slot? name = some (.many rs') := by
  cases h with
  | pushed _ hs => exact ⟨_, hs⟩

theorem Attached.relation {x z : Instance ι} {name : String} {toMany : Bool} {s : Slot ι}
    (h : Attached schema x z name toMany s) : ∃ r, x.relation? schema name toMany = some r := by
  cases h with
  | pushed hr _ => exact ⟨_, hr⟩
  | set hr => exact ⟨_, hr⟩

variable [DecidableEq ι]

/-- A tree stands at the node of another and is attached wherever that one is. -/
def Attaches (schema : Schema ι) (scan : ScanPlan ι) (u t : Tree ι) : Prop :=
  u.index = t.index ∧ ∀ x, attach schema scan t = .ok x →
    ∃ y, attach schema scan u = .ok y ∧ y.model = x.model

theorem Attaches.refl (t : Tree ι) : Attaches schema scan t t := ⟨rfl, fun x h => ⟨x, h, rfl⟩⟩

theorem Attaches.trans {t u v : Tree ι} (h : Attaches schema scan v u)
    (h' : Attaches schema scan u t) : Attaches schema scan v t := by
  refine ⟨h.1.trans h'.1, fun x hx => ?_⟩
  obtain ⟨y, hy, hyx⟩ := h'.2 x hx
  obtain ⟨z, hz, hzy⟩ := h.2 y hy
  exact ⟨z, hz, hzy.trans hyx⟩

/-- Fewer trees, each attached wherever the one in its place is. -/
theorem attachAll_fewer {us ts : List (Tree ι)}
    (h : List.SublistForall₂ (Attaches schema scan) us ts) :
    ∀ {x x' y : Instance ι}, x.Outlines x' → attachAll schema scan x ts = .ok y →
      ∃ y', attachAll schema scan x' us = .ok y' := by
  induction h with
  | nil => exact fun _ _ => ⟨_, by rw [attachAll]⟩
  | @cons u t us ts hut _ ih =>
    intro x x' y hx hy
    obtain ⟨f, z, s, hf, hz, hs, hmodel, hy⟩ := attachAll_cons_iff.1 hy
    obtain ⟨hindex, hattach⟩ := hut
    obtain ⟨z', hz', hzmodel⟩ := hattach z hz
    obtain ⟨s', hs', hout⟩ := hs.outlined hx z'
    obtain ⟨y', hy'⟩ := ih hout hy
    refine ⟨y', attachAll_cons_iff.2 ⟨f, z', s', hindex ▸ hf, hz', hindex ▸ hs', fun r hr => ?_, hy'⟩⟩
    rw [hindex, Instance.relation?, hx.model] at hr
    exact hzmodel.trans (hmodel r hr)
  | @cons_right t us ts _ ih =>
    intro x x' y hx hy
    obtain ⟨f, z, s, -, -, hs, -, hy⟩ := attachAll_cons_iff.1 hy
    -- the slot that is filled on one side only holds a collection on both or is a single relation's
    refine ih (x := x.withSlot f.name s) ⟨hx.model, fun name rs hrs => ?_⟩ hy
    rw [Instance.slot?_withSlot] at hrs
    split at hrs
    case isTrue hname =>
      obtain ⟨_, -, rfl⟩ := Option.map_eq_some_iff.1 hrs
      obtain ⟨rs', hslot⟩ := hs.slot_many
      exact hname ▸ hx.collections f.name rs' hslot
    case isFalse => exact hx.collections name rs hrs

instance : IsTrans (Tree ι) (Attaches schema scan) := ⟨fun _ _ _ => Attaches.trans⟩

instance : Std.Refl (Attaches (ι := ι) schema scan) := ⟨Attaches.refl⟩

theorem mergeInto_fewer {t : Tree ι} (h : ∀ u, Attaches schema scan u (merge scan t u))
    (ts : List (Tree ι)) :
    List.SublistForall₂ (Attaches schema scan) ts (mergeInto scan t (merge scan t) ts) := by
  induction ts with
  | nil => exact .nil
  | cons u ts ih =>
    rw [mergeInto]
    split
    · exact .cons (h u) (Std.Refl.refl ts)
    · exact .cons (.refl u) ih

/-- A tree is attached wherever it is after another one has been merged into it. -/
theorem attaches_merge (t : Tree ι) : ∀ u, Attaches schema scan u (merge scan t u) := by
  induction t using induct_children with
  | step t ih =>
    have hall : ∀ (more : List (Tree ι)), (∀ c ∈ more, c ∈ t.children) → ∀ ts,
        List.SublistForall₂ (Attaches schema scan) ts (mergeAll scan more ts) := by
      intro more
      induction more with
      | nil =>
        intro _ ts
        rw [mergeAll]
        exact Std.Refl.refl ts
      | cons c more ihm =>
        intro hmore ts
        obtain ⟨hc, hmore⟩ := List.forall_mem_cons.1 hmore
        rw [mergeAll]
        exact IsTrans.trans _ _ _ (mergeInto_fewer (ih c hc) ts) (ihm hmore _)
    intro u
    refine ⟨(merge_index scan t u).symm, fun x hx => ?_⟩
    rw [merge_eq, attach] at hx
    obtain ⟨y, hy⟩ := attachAll_fewer (hall t.children (fun _ h => h) u.children) (.refl u.root) hx
    refine ⟨y, (attach_eq u).trans hy, ?_⟩
    exact (attachAll_model hy).1.trans (attachAll_model hx).1.symm

theorem attaches_foldl_merge (ts : List (Tree ι)) :
    ∀ u, Attaches schema scan u (ts.foldl (fun v t => merge scan t v) u) := by
  induction ts with
  | nil => exact .refl
  | cons t ts ih => exact fun u => (attaches_merge t u).trans (ih _)

/-- What is attached leaves the columns of an instance as they are. -/
theorem attachAll_columns {x y : Instance ι} {ts : List (Tree ι)} {name : String}
    (hname : ∀ toMany, x.relation? schema name toMany = none)
    (h : attachAll schema scan x ts = .ok y) : y.slot? name = x.slot? name := by
  induction ts generalizing x with
  | nil =>
    rw [attachAll] at h
    rw [Except.ok.inj h]
  | cons c ts ih =>
    obtain ⟨f, z, s, -, -, hs, h⟩ := attachAll_cons_ok h
    have hne : name ≠ f.name := by
      rintro rfl
      obtain ⟨r, hr⟩ := hs.relation
      cases (hname _).symm.trans hr
    rw [ih (x := x.withSlot f.name s) hname h, Instance.slot?_withSlot, if_neg hne]

end Tree

/-! ## The first row -/

/-- Two instances differ at most in what stands behind their relations. -/
structure Instance.SameColumns (schema : Schema ι) (x y : Instance ι) : Prop where
  model : y.model = x.model
  annotations : y.annotations = x.annotations
  slots : ∀ name, (∀ toMany, x.relation? schema name toMany = none) → y.slot? name = x.slot? name

/-- No later row has the root key of the first one. -/
def ScanPlan.HeadAlone (scan : ScanPlan ι) : List (List Value) → Prop
  | [] => True
  | row :: rest => (scan.keyIn row 0).isSome = true → ∀ r ∈ rest, scan.keyIn r 0 ≠ scan.keyIn row 0

instance (scan : ScanPlan ι) : (rows : List (List Value)) → Decidable (scan.HeadAlone rows)
  | [] => .isTrue trivial
  | row :: rest => inferInstanceAs (Decidable ((scan.keyIn row 0).isSome = true → ∀ r ∈ rest, _))

theorem placeTree_nil (t : Tree ι) : placeTree scan [] t = [t] := by
  rw [placeTree, addTree]
  exact ite_self _

/-- The tree of a row that is alone takes up none of the later ones. -/
theorem filter_joins_of_headAlone {row : List Value} {rest : List (List Value)} {t : Tree ι}
    {ts : List (Tree ι)} (ht : rowTree schema scan row = .ok t)
    (hts : List.Forall₂ (fun row t => rowTree schema scan row = .ok t) rest ts)
    (halone : scan.groupRows = true → scan.HeadAlone (row :: rest)) :
    ts.filter (t.joins scan) = [] := by
  have hkey : ∀ {row t}, rowTree schema scan row = .ok t → t.key = scan.keyIn row 0 := fun h => by
    obtain ⟨hindex, hfrom⟩ := rowTree_fromRow h
    exact hindex ▸ hfrom.here.key
  refine List.filter_eq_nil_iff.2 fun v hv hjoins => ?_
  simp only [Tree.joins, Bool.and_eq_true, beq_iff_eq] at hjoins
  obtain ⟨⟨hgroup, hsome⟩, heq⟩ := hjoins
  obtain ⟨r, hr, hrv⟩ : ∃ r ∈ rest, rowTree schema scan r = .ok v :=
    forall_mem_of_forall₂ (P := fun v => ∃ r ∈ rest, rowTree schema scan r = .ok v) hts
      (fun r hr _ hrv => ⟨r, hr, hrv⟩) v hv
  rw [hkey hrv, hkey ht] at heq
  exact halone hgroup (heq ▸ hkey hrv ▸ hsome) r hr heq.symm

/--
The first instance of some rows beside that of their first row alone: it is there, it has the same
columns, and it is the same where no later row has its key.
-/
theorem materialize_first [DecidableEq ι] {calledOff : CalledOff} {row : List Value}
    {rest : List (List Value)} {out : List (Instance ι)}
    (h : materialize schema scan (row :: rest) calledOff = .ok out) :
    ∃ x y ys, out = y :: ys ∧ materialize schema scan [row] calledOff = .ok [x] ∧
      x.SameColumns schema y ∧
      ((scan.groupRows = true → scan.HeadAlone (row :: rest)) → x = y) := by
  obtain ⟨merged, hmerged, hout⟩ := bind_eq_ok.1 h
  rw [rowTrees] at hmerged
  split at hmerged
  case isTrue => cases hmerged
  case isFalse hoff =>
    obtain ⟨-, -, hmerged⟩ := bind_eq_ok.1 hmerged
    obtain ⟨t, ht, hmerged⟩ := bind_eq_ok.1 hmerged
    obtain ⟨ts, hts, rfl⟩ := rowTrees_ok hmerged
    rw [placeTree_nil] at hout
    obtain ⟨others, hothers⟩ : ∃ others, ts.foldl (placeTree scan) [t] = _ :: others :=
      foldl_placeTree_cons ts t []
    rw [hothers] at hout
    obtain ⟨y, ys, hy, -, rfl⟩ := List.forall₂_cons_left_iff.1 (forall₂_of_mapM_eq_ok hout)
    obtain ⟨x, hx, -⟩ := (Tree.attaches_foldl_merge (ts.filter (t.joins scan)) t).2 y hy
    refine ⟨x, y, ys, rfl, ?_, ?_, fun halone => ?_⟩
    · rw [materialize, rowTrees, if_neg hoff]
      simp only [ht, rowTrees, placeTree_nil, bind, Except.bind, pure, Except.pure,
        List.mapM_cons, List.mapM_nil, hx]
    · have hroot : (List.foldl (fun v t => Tree.merge scan t v) t (ts.filter (t.joins scan))).root =
          t.root := mergedOf_keeps (Tree.merge_root scan) rfl
      rw [Tree.attach_eq] at hx hy
      rw [hroot] at hy
      obtain ⟨hxmodel, hxannotations⟩ := Tree.attachAll_model hx
      obtain ⟨hymodel, hyannotations⟩ := Tree.attachAll_model hy
      refine ⟨hymodel.trans hxmodel.symm, hyannotations.trans hxannotations.symm, fun name hname => ?_⟩
      have hnone : ∀ toMany, t.root.relation? schema name toMany = none := fun toMany => by
        rw [← hname toMany, Instance.relation?, Instance.relation?, hxmodel]
      rw [Tree.attachAll_columns hnone hx, Tree.attachAll_columns hnone hy]
    · rw [filter_joins_of_headAlone ht hts halone] at hy
      exact Except.ok.inj (hx.symm.trans hy)

end Orm
