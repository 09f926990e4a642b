import Orm.Proofs.Fault.Tree
import Orm.Proofs.Tree.Materialize

/-
What `materialize` fails by on rows of a SELECT: a value that cannot be read, a computed value that the
root does not keep, or work that is called off (`compileSelect_materializes`).
-/

namespace Orm

variable {ι : Type} {schema : Schema ι} {scan : ScanPlan ι} {root : ι}

namespace Tree

/-! ## Merging -/

/-- Trees that may be merged below a node. -/
def StandsBelow (schema : Schema ι) (scan : ScanPlan ι) (i : Nat) (t : Tree ι) : Prop :=
  t.Every (Stands schema scan) ∧ scan.parentAt t.index = some i

/-- Merging keeps trees that stand at one node standing there. -/
theorem merge_stands (t : Tree ι) : ∀ {u : Tree ι}, t.Every (Stands schema scan) →
    u.Every (Stands schema scan) → t.index = u.index →
    (merge scan t u).Every (Stands schema scan) := by
  induction t using induct_children with
  | step t ih =>
    intro u ht hu hindex
    have hall : ∀ {more ts : List (Tree ι)},
        (∀ c ∈ more, c ∈ t.children) → (∀ c ∈ ts, StandsBelow schema scan u.index c) →
        ∀ c ∈ mergeAll scan more ts, StandsBelow schema scan u.index c := by
      intro more
      induction more with
      | nil =>
        intro ts _ hts
        rw [mergeAll]
        exact hts
      | cons c more ihm =>
        intro ts hmore hts
        obtain ⟨hmem, hmore⟩ := List.forall_mem_cons.1 hmore
        have hc : StandsBelow schema scan u.index c :=
          ⟨ht.under c hmem, hindex ▸ ht.here.parent c hmem⟩
        rw [mergeAll]
        refine ihm hmore (mergeInto_forall hc (fun v hv hsame => ?_) hts)
        refine ⟨ih c hmem hc.1 hv.1 hsame.symm, ?_⟩
        rw [merge_index]
        exact hv.2
    have hchildren := hall (fun c hc => hc) fun c hc => ⟨hu.under c hc, hu.here.parent c hc⟩
    obtain ⟨n, hn, htyped, hmodel⟩ := hu.here.fits
    rw [merge_eq]
    exact .intro ⟨⟨n, hn, htyped, hmodel⟩, fun c hc => (hchildren c hc).2⟩ fun c hc => (hchildren c hc).1

end Tree

/-- A tree of a root. -/
def StandsAtRoot (schema : Schema ι) (scan : ScanPlan ι) (t : Tree ι) : Prop :=
  t.index = 0 ∧ t.Every (Tree.Stands schema scan)

theorem placeTree_stands {trees : List (Tree ι)} {t : Tree ι} (ht : StandsAtRoot schema scan t)
    (hts : ∀ u ∈ trees, StandsAtRoot schema scan u) :
    ∀ u ∈ placeTree scan trees t, StandsAtRoot schema scan u := by
  refine placeTree_forall ht (fun u hu => ⟨?_, ?_⟩) hts
  · exact (Tree.merge_index scan t u).trans hu.1
  · exact Tree.merge_stands t ht.2 hu.2 (ht.1.trans hu.1.symm)

/-! ## All rows -/

theorem rowTrees_ends {fault : Error → Prop} {calledOff : CalledOff} {rows : List (List Value)} :
    ∀ {i : Nat} {trees : List (Tree ι)},
      (∀ row ∈ rows, Ends fault (StandsAtRoot schema scan) (rowTree schema scan row)) →
      (∀ j, j < rows.length → calledOff (i + j) = true → fault .cancelled) →
      (∀ t ∈ trees, StandsAtRoot schema scan t) →
      Ends fault (fun out => ∀ t ∈ out, StandsAtRoot schema scan t)
        (rowTrees schema scan calledOff i trees rows) := by
  induction rows with
  | nil => exact fun _ _ h => .of_ok h
  | cons row rows ih =>
    intro i trees hrows hoff htrees
    obtain ⟨hrow, hrows⟩ := List.forall_mem_cons.1 hrows
    rw [rowTrees]
    split
    · rename_i hcalled
      exact .of_error (hoff 0 (Nat.succ_pos _) hcalled)
    · refine hrow.bind fun t ht => ih hrows (fun j hj hcalled => ?_) (placeTree_stands ht htrees)
      refine hoff (j + 1) (Nat.succ_lt_succ hj) ?_
      rwa [← Nat.add_assoc, Nat.add_right_comm]

/-! ## Attaching -/

variable [DecidableEq ι]

namespace Tree

/-- Trees below an instance of the right model are attached without fail. -/
theorem attachAll_total (hn : FieldNamesDistinct schema) (hw : scan.WellFormed schema root) {i : Nat}
    {above : ScanNode ι} (hi : scan.nodes[i]? = some above) {ts : List (Tree ι)} :
    ∀ {x : Instance ι}, x.Typed schema → x.model = above.model →
      (∀ c ∈ ts, scan.parentAt c.index = some i ∧ ∃ n z, scan.nodes[c.index]? = some n ∧
        attach schema scan c = .ok z ∧ z.Typed schema ∧ z.model = n.model) →
      ∃ y, attachAll schema scan x ts = .ok y ∧ y.Typed schema ∧ y.model = x.model := by
  induction ts with
  | nil =>
    intro x hx _ _
    rw [attachAll]
    exact ⟨x, rfl, hx, rfl⟩
  | cons c ts ih =>
    intro x hx hmodel hts
    obtain ⟨⟨hparent, n, z, hnode, hz, hztyped, hzmodel⟩, hts⟩ := List.forall_mem_cons.1 hts
    have hne : c.index ≠ 0 := by
      intro hzero
      obtain ⟨r, hr, hnone, -⟩ := hw.root
      rw [hzero, ScanPlan.parentAt, hr, Option.bind_some, hnone] at hparent
      cases hparent
    obtain ⟨p, above', f, r, hbelow⟩ := hw.below c.index n hnode hne
    have hp : p = i := by
      rw [ScanPlan.parentAt, hnode, Option.bind_some, hbelow.parent] at hparent
      exact Option.some.inj hparent
    subst hp
    obtain rfl := Option.some.inj (hi.symm.trans hbelow.node)
    have hmany : n.toMany = r.toMany := by
      rw [ScanNode.toMany, hbelow.relation, Option.any_some, hbelow.target, Option.any_some]
    obtain ⟨y, hy, hytyped, hymodel⟩ := hx.attached hn hztyped (hmodel.symm ▸ hbelow.declared)
      hbelow.target (hzmodel.trans hbelow.model)
    obtain ⟨out, hout, houttyped, houtmodel⟩ := ih hytyped (hymodel.trans hmodel) hts
    refine ⟨out, ?_, houttyped, houtmodel.trans hymodel⟩
    cases c with
    | node j k v below =>
      rw [attachAll, show scan.nodes[j]? = some n from hnode]
      dsimp only
      rw [hbelow.relation]
      dsimp only
      simp only [hz, bind, Except.bind, hmany, hy]
      exact hout

/-- The tree of a well-formed plan is attached without fail. -/
theorem attach_total (hn : FieldNamesDistinct schema) (hw : scan.WellFormed schema root)
    (t : Tree ι) : t.Every (Stands schema scan) →
    ∃ y, attach schema scan t = .ok y ∧ y.Typed schema ∧ y.model = t.root.model := by
  induction t using induct_children with
  | step t ih =>
    intro ht
    obtain ⟨n, hnode, htyped, hmodel⟩ := ht.here.fits
    rw [attach_eq]
    refine attachAll_total hn hw hnode htyped hmodel fun c hc => ⟨ht.here.parent c hc, ?_⟩
    obtain ⟨m, hm, -, hcmodel⟩ := (ht.under c hc).here.fits
    obtain ⟨z, hz, hztyped, hzmodel⟩ := ih c hc (ht.under c hc)
    exact ⟨m, z, hm, hz, hztyped, hzmodel.trans hcmodel⟩

end Tree

/-- Rows of a well-formed plan fail as their trees do, or by being called off. -/
theorem materialize_fails (hn : FieldNamesDistinct schema) (hw : scan.WellFormed schema root)
    {fault : Error → Prop} {rows : List (List Value)} {calledOff : CalledOff}
    (hrows : ∀ row ∈ rows, Ends fault (StandsAtRoot schema scan) (rowTree schema scan row))
    (hoff : ∀ i, i < rows.length → calledOff i = true → fault .cancelled) :
    Ends fault (fun out => ∀ x ∈ out, x.Typed schema ∧ x.model = root)
      (materialize schema scan rows calledOff) := by
  have htrees : Ends fault (fun trees => ∀ t ∈ trees, StandsAtRoot schema scan t)
      (rowTrees schema scan calledOff 0 [] rows) :=
    rowTrees_ends hrows (fun j hj hcalled => hoff j hj (Nat.zero_add j ▸ hcalled)) fun t ht =>
      absurd ht List.not_mem_nil
  refine htrees.bind fun trees hstands => Ends.mapM fun t ht => ?_
  obtain ⟨hindex, hevery⟩ := hstands t ht
  obtain ⟨y, hy, hytyped, hymodel⟩ := Tree.attach_total hn hw t hevery
  obtain ⟨n, hnode, -, hmodel⟩ := hevery.here.fits
  obtain ⟨n', hnode', -, -, hroot, -⟩ := hw.root
  rw [hindex] at hnode
  obtain rfl := Option.some.inj (hnode.symm.trans hnode')
  rw [hy]
  exact .of_ok ⟨hytyped, hymodel.trans (hmodel.trans hroot)⟩

/-- Rows that have trees are materialized if the work is not called off. -/
theorem materialize_total (hn : FieldNamesDistinct schema) (hw : scan.WellFormed schema root)
    {rows : List (List Value)} {calledOff : CalledOff}
    (hrows : ∀ row ∈ rows, ∃ t, rowTree schema scan row = .ok t)
    (hoff : ∀ i, i < rows.length → calledOff i = false) :
    ∃ out, materialize schema scan rows calledOff = .ok out := by
  have hends : Ends (fun _ => False) (fun out => ∀ x ∈ out, x.Typed schema ∧ x.model = root)
      (materialize schema scan rows calledOff) := by
    refine materialize_fails hn hw (fun row hrow => ?_) fun i hi hcalled => ?_
    · obtain ⟨t, ht⟩ := hrows row hrow
      have hstands := rowTree_ends hn hw (rowTree_cases ht).1
      rw [ht] at hstands ⊢
      exact .of_ok hstands
    · cases (hoff i hi).symm.trans hcalled
  obtain ⟨out, hout, -⟩ := hends.exists_ok
  exact ⟨out, hout⟩

end Orm
