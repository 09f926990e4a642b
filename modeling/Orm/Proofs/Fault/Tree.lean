import Orm.Proofs.Fault.Instance
import Orm.Proofs.Place.WellFormed
import Orm.Proofs.Tree.Attach

/-
The tree of a row of a well-formed plan: building it fails only on a value that cannot be read or on a
computed value that the root does not keep (`rowTree_ends`).
-/

namespace Orm

variable {ι : Type} {schema : Schema ι} {scan : ScanPlan ι} {root : ι}

/-! ## The values of a row -/

/-- What a node has been brought has the shape of the node's model. -/
def NodeValues.Fits (schema : Schema ι) (model : ι) (v : NodeValues ι) : Prop :=
  ∀ x, v.instance_ = some x → x.Typed schema ∧ x.model = model

structure RowValues.Fits (schema : Schema ι) (scan : ScanPlan ι) (r : RowValues ι) : Prop where
  length : r.nodes.length = scan.nodes.length
  nodes : ∀ (i : Nat) n v, scan.nodes[i]? = some n → r.nodes[i]? = some v → v.Fits schema n.model
  computed : ∀ a ∈ r.annotations, ∃ e ∈ scan.entries, e.target = .computed a.1

/-- The instance that a node has, or an empty one. -/
theorem NodeValues.Fits.instance {model : ι} {v : NodeValues ι} (h : v.Fits schema model) :
    (v.instance_.getD (.new schema model)).Typed schema ∧
      (v.instance_.getD (.new schema model)).model = model := by
  cases hx : v.instance_ with
  | none => exact ⟨.new schema model, rfl⟩
  | some x => exact h x hx

/-- A value fails to be taken if it cannot be read, where every key can be written. -/
def Untaken (schema : Schema ι) (e : Error) : Prop := KeysGrounded schema → Unread e

theorem NodeValues.take_ends (hn : FieldNamesDistinct schema) {model : ι} {isRoot isKey : Bool}
    {f : FieldDef ι} {n : NodeValues ι} (hf : f ∈ (schema model).fields) (hcol : f.hasColumn = true)
    (h : n.Fits schema model) (v : Value) :
    Ends (Untaken schema) (NodeValues.Fits schema model) (n.take schema model isRoot isKey f v) := by
  unfold NodeValues.take
  refine ((f.type.normalize_ends v).imp (fun _ h _ => h) fun _ h => h).bind fun w _ => ?_
  dsimp only
  split
  · exact .of_ok h
  · obtain ⟨htyped, hmodel⟩ := h.instance
    have hw := htyped.setValue hn (hmodel.symm ▸ hf) hcol w
    refine hw.ends.bind fun _ _ => .of_ok fun x hx => ?_
    obtain rfl := Option.some.inj hx
    exact ⟨hw.typed, hw.model.trans hmodel⟩

theorem RowValues.take_ends (hn : FieldNamesDistinct schema) (hw : scan.WellFormed schema root)
    {r : RowValues ι} {entry : ScanEntry ι} (he : entry ∈ scan.entries) (h : r.Fits schema scan)
    (i : Nat) (v : Value) :
    Ends (Untaken schema) (RowValues.Fits schema scan) (r.take schema scan i entry v) := by
  unfold RowValues.take
  split
  · rename_i name hname
    refine .of_ok ⟨h.length, h.nodes, fun a ha => ?_⟩
    rcases List.mem_append.1 ha with ha | ha
    · exact h.computed a ha
    · rw [List.mem_singleton.1 ha]
      exact ⟨entry, he, hname⟩
  · rename_i node f hfield
    obtain ⟨n, hnode, hf, hcol⟩ := hw.field entry he node f hfield
    have hlt : node < r.nodes.length := h.length ▸ (List.getElem?_eq_some_iff.1 hnode).1
    have hvalues : r.nodes[node]? = some r.nodes[node] := List.getElem?_eq_getElem hlt
    rw [hnode, hvalues]
    refine (NodeValues.take_ends hn hf hcol (h.nodes node n _ hnode hvalues) v).bind
      fun values hfits => .of_ok ⟨?_, fun j m u hm hu => ?_, h.computed⟩
    · exact (List.length_set ..).trans h.length
    · by_cases hj : node = j
      · subst hj
        rw [List.getElem?_set_self hlt] at hu
        obtain rfl := Option.some.inj hu
        obtain rfl := Option.some.inj (hnode.symm.trans hm)
        exact hfits
      · rw [List.getElem?_set_ne hj] at hu
        exact h.nodes j m u hm hu

theorem RowValues.takeAll_ends (hn : FieldNamesDistinct schema) (hw : scan.WellFormed schema root)
    {columns : List (ScanEntry ι × Value)} :
    ∀ {r : RowValues ι} (i : Nat), (∀ c ∈ columns, c.1 ∈ scan.entries) → r.Fits schema scan →
      Ends (Untaken schema) (RowValues.Fits schema scan) (r.takeAll schema scan i columns) := by
  induction columns with
  | nil => exact fun i _ h => .of_ok h
  | cons c columns ih =>
    intro r i hc h
    obtain ⟨entry, v⟩ := c
    rw [RowValues.takeAll]
    refine (RowValues.take_ends hn hw (hc _ List.mem_cons_self) h i v).bind fun r' h' => ?_
    exact ih (i + 1) (fun c hmem => hc c (List.mem_cons_of_mem _ hmem)) h'

/-! ## Hanging trees -/

/-- The instance of a tree has the shape of the model of the tree's node. -/
def Tree.Fits (schema : Schema ι) (scan : ScanPlan ι) (u : Tree ι) : Prop :=
  ∃ n, scan.nodes[u.index]? = some n ∧ u.root.Typed schema ∧ u.root.model = n.model

/-- The trees of a row while they are hung: that of the root is there. -/
structure Standing (schema : Schema ι) (scan : ScanPlan ι) (trees : List (Option (Tree ι))) :
    Prop where
  root : ∃ t, trees[0]? = some (some t)
  fits : ∀ (i : Nat) t, trees[i]? = some (some t) → t.index = i ∧ t.Every (Tree.Fits schema scan)

theorem mem_nodesUpward {i : Nat} (h : i ∈ nodesUpward scan) : i ≠ 0 := by
  rw [nodesUpward, List.mem_reverse] at h
  obtain ⟨j, hj⟩ := List.mem_iff_getElem?.1 h
  rw [List.getElem?_drop] at hj
  obtain ⟨_, hj⟩ := List.getElem?_eq_some_iff.1 hj
  rw [List.getElem_range] at hj
  omega

/-- The root is present in every row. -/
theorem presence_root {nodes : List (NodeValues ι)} (h : 0 < nodes.length) :
    (presence scan nodes)[0]? = some true := by
  have hfold : ∀ {is : List Nat} {present : List Bool} (here : List Bool → Nat → Bool),
      (∀ i ∈ is, i ≠ 0) → present[0]? = some true →
      (is.foldl (fun present i => present.set i (here present i)) present)[0]? = some true := by
    intro is
    induction is with
    | nil => exact fun _ _ h => h
    | cons i is ih =>
      intro present here hne h
      refine ih here (fun j hj => hne j (List.mem_cons_of_mem i hj)) ?_
      rw [List.getElem?_set_ne (hne i List.mem_cons_self)]
      exact h
  refine hfold _ (fun i => mem_nodesUpward) ?_
  rw [List.getElem?_set_self]
  rw [List.length_replicate]
  exact h

theorem seeds_standing (hw : scan.WellFormed schema root) {r : RowValues ι}
    (h : r.Fits schema scan) : Standing schema scan (seeds schema scan r.nodes (presence scan r.nodes)) := by
  obtain ⟨n, hn, -⟩ := hw.root
  have hlt : 0 < scan.nodes.length := (List.getElem?_eq_some_iff.1 hn).1
  have hlt' : 0 < r.nodes.length := h.length ▸ hlt
  constructor
  · rw [seeds, List.getElem?_map, List.getElem?_range hlt, Option.map_some, hn,
      List.getElem?_eq_getElem hlt', presence_root hlt']
    exact ⟨_, rfl⟩
  · intro i t ht
    rw [seeds, List.getElem?_map] at ht
    obtain ⟨j, hj, ht⟩ := Option.map_eq_some_iff.1 ht
    obtain ⟨_, hj⟩ := List.getElem?_eq_some_iff.1 hj
    rw [List.getElem_range] at hj
    subst hj
    split at ht
    · rename_i m v hm hv _
      obtain rfl := Option.some.inj ht
      obtain ⟨htyped, hmodel⟩ := (h.nodes i m v hm hv).instance
      exact ⟨rfl, .intro ⟨m, hm, htyped, hmodel⟩ fun c hc => absurd hc List.not_mem_nil⟩
    · cases ht

theorem hang_standing {i : Nat} {trees : List (Option (Tree ι))} (hi : i ≠ 0)
    (h : Standing schema scan trees) : Standing schema scan (hang scan trees i) := by
  refine ⟨?_, fun j t ht => ?_⟩
  · obtain ⟨t, ht⟩ := h.root
    have hset : (trees.set i none)[0]? = some (some t) := (List.getElem?_set_ne hi).trans ht
    rw [hang]
    split
    case h_1 =>
      split
      case h_1 p _ =>
        rw [List.getElem?_modify, hset]
        split
        · exact ⟨_, rfl⟩
        · exact ⟨t, rfl⟩
      case h_2 => exact ⟨t, hset⟩
    case h_2 => exact ⟨t, ht⟩
  · obtain ht | ⟨child, u, hchild, -, hu, rfl⟩ := hang_cases ht
    · exact h.fits j t ht
    · obtain ⟨hindex, hevery⟩ := h.fits j u hu
      rw [Tree.addChild_index]
      refine ⟨hindex, .intro ?_ ?_⟩
      · rw [Tree.Fits, Tree.addChild_index, Tree.addChild_root]
        exact hevery.here
      · rw [Tree.addChild_children]
        exact List.forall_mem_cons.2 ⟨(h.fits i child hchild).2, hevery.under⟩

theorem foldl_hang_standing {left : List Nat} {trees : List (Option (Tree ι))}
    (hl : ∀ i ∈ left, i ≠ 0) (h : Standing schema scan trees) :
    Standing schema scan (left.foldl (hang scan) trees) := by
  induction left generalizing trees with
  | nil => exact h
  | cons i left ih =>
    exact ih (fun j hj => hl j (List.mem_cons_of_mem i hj)) (hang_standing (hl i List.mem_cons_self) h)

/-! ## One row -/

/-- How a row fails: by a value that cannot be read, or by a computed one that the root's model does
not keep. -/
inductive RowFault (schema : Schema ι) (root : ι) (scan : ScanPlan ι) : Error → Prop
  | unread {type : ScalarType} {v : Value} {what : String} :
      type.read v = .error (.typeMismatch what) → RowFault schema root scan (.typeMismatch what)
  | unannotated {entry : ScanEntry ι} {name : String} : entry ∈ scan.entries →
      entry.target = .computed name → (schema root).annotated = false →
      RowFault schema root scan (.nilPointer ("model '" ++ (schema root).modelName ++
        "' has no annotations map for '" ++ name ++ "'"))

theorem Unread.rowFault {e : Error} (h : Unread e) : RowFault schema root scan e := by
  obtain ⟨what, rfl⟩ := h.mismatched
  obtain ⟨type, v, hread⟩ := h
  exact .unread hread

theorem annotateAll_ends {x : Instance ι} {computed : List (String × Value)} (hx : x.Typed schema)
    (hroot : x.model = root) (hc : ∀ a ∈ computed, ∃ e ∈ scan.entries, e.target = .computed a.1) :
    Ends (RowFault schema root scan) (fun y => y.Typed schema ∧ y.model = root)
      (annotateAll schema x computed) := by
  induction computed generalizing x with
  | nil => exact .of_ok ⟨hx, hroot⟩
  | cons a computed ih =>
    obtain ⟨name, v⟩ := a
    obtain ⟨⟨e, he, htarget⟩, hc⟩ := List.forall_mem_cons.1 hc
    rw [annotateAll, Instance.annotate]
    by_cases ha : (schema x.model).annotated = true
    · rw [if_pos ha]
      refine ih (x := { x with annotations := _ }) ?_ hroot hc
      exact .of_holds hx.names fun name s hs =>
        ⟨(hx.holds hs).many, (hx.holds hs).model, (hx.holds hs).typed⟩
    · rw [if_neg ha]
      subst hroot
      exact .unannotated he htarget (Bool.eq_false_iff.2 ha)

/-- A tree that fits its node, with trees below it for nodes below that. -/
structure Tree.Stands (schema : Schema ι) (scan : ScanPlan ι) (u : Tree ι) : Prop where
  fits : u.Fits schema scan
  parent : ∀ c ∈ u.children, scan.parentAt c.index = some u.index

theorem rowTree_ends (hn : FieldNamesDistinct schema) (hw : scan.WellFormed schema root)
    {row : List Value} (hrow : row.length = scan.entries.length) :
    Ends (fun e => KeysGrounded schema → RowFault schema root scan e)
      (fun t => t.index = 0 ∧ t.Every (Tree.Stands schema scan)) (rowTree schema scan row) := by
  have hfits : Ends (fun e => KeysGrounded schema → RowFault schema root scan e)
      (fun t => t.Every (Tree.Fits schema scan)) (rowTree schema scan row) := by
    have hstart : RowValues.Fits schema scan { nodes := scan.nodes.map fun _ => {} } := by
      refine ⟨List.length_map _, fun i n v _ hv x hx => ?_, fun a ha => absurd ha List.not_mem_nil⟩
      rw [List.getElem?_map] at hv
      obtain ⟨_, -, rfl⟩ := Option.map_eq_some_iff.1 hv
      cases hx
    unfold rowTree
    rw [hrow, bne_self_eq_false, if_neg Bool.false_ne_true]
    refine ((RowValues.takeAll_ends hn hw 0 (fun c hc => (List.of_mem_zip hc).1) hstart).imp
      (fun _ h hk => (h hk).rowFault) fun _ h => h).bind fun r hr => ?_
    have hstanding : Standing schema scan ((nodesUpward scan).foldl (hang scan)
        (seeds schema scan r.nodes (presence scan r.nodes))) :=
      foldl_hang_standing (fun i => mem_nodesUpward) (seeds_standing hw hr)
    obtain ⟨t, ht⟩ := hstanding.root
    obtain ⟨hindex, hevery⟩ := hstanding.fits 0 t ht
    obtain ⟨rest, hrest⟩ := List.head?_eq_some_iff.1 (List.head?_eq_getElem?.trans ht)
    obtain ⟨n, hnode, htyped, hmodel⟩ := hevery.here
    obtain ⟨n', hnode', -, -, hroot, -⟩ := hw.root
    rw [hindex] at hnode
    obtain rfl := Option.some.inj (hnode.symm.trans hnode')
    dsimp only
    rw [hrest]
    cases t with
    | node i k x children =>
      refine ((annotateAll_ends htyped (hmodel.trans hroot) hr.computed).imp (fun _ h _ => h)
        fun _ h => h).bind fun y hy => ?_
      exact .of_ok (.intro ⟨n, hindex ▸ hnode, hy.1, hy.2.trans hroot.symm⟩ hevery.under)
  refine (hfits.and_ok fun t ht => rowTree_fromRow ht).imp (fun _ h => h) fun t ht => ?_
  obtain ⟨hfits, hindex, hfrom⟩ := ht
  exact ⟨hindex, (hfits.and hfrom).imp fun u hu => ⟨hu.1, hu.2.parent⟩⟩

end Orm
