import Mathlib.Logic.Relation
import Orm.Proofs.Place.Planning
import Orm.Proofs.Presence.Row

/-
The nodes of a row, the last one first: a node with columns of its own has an instance if one of them
has a value, and any other below the root if a node below it has one (`presence_iff`).

Which nodes the tree of a row has: a tree is hung below that of its node's parent, and lost if there is
none, so a node is held if and only if it and all nodes above it have an instance (`rowTree_reached`).
-/

namespace Orm

variable {ι : Type} {schema : Schema ι} {scan : ScanPlan ι}

/-- A node below another comes after it. -/
theorem ScanPlan.Rooted.lt_of_parentAt (h : scan.Rooted) {p i : Nat} (hp : scan.parentAt i = some p) :
    p < i := by
  have hne : i ≠ 0 := by
    rintro rfl
    cases hp.symm.trans h.root
  obtain ⟨n, hn, -⟩ := Option.bind_eq_some_iff.1 hp
  obtain ⟨q, hq, hparent⟩ := h.below i (List.getElem?_eq_some_iff.1 hn).1 hne
  obtain rfl := Option.some.inj (hp.symm.trans hparent)
  exact hq

/-! ## The sweep -/

namespace Tree

/-- A tree is another one or stands somewhere below it. -/
inductive Within : Tree ι → Tree ι → Prop
  | here {t : Tree ι} : Within t t
  | under {u c t : Tree ι} : c ∈ t.children → Within u c → Within u t

theorem Within.child {u w t : Tree ι} (h : Within w t) (hu : u ∈ w.children) : Within u t := by
  induction h with
  | here => exact .under hu .here
  | under hc _ ih => exact .under hc ih

/-- A tree has an instance at a node. -/
def Holds (t : Tree ι) (i : Nat) : Prop := ∃ u, Within u t ∧ u.index = i

theorem Every.all_within {P : Tree ι → Prop} {u t : Tree ι} (h : t.Every P) (hu : Within u t) :
    u.Every P := by
  induction hu with
  | here => exact h
  | under hc _ ih => exact ih (h.under _ hc)

theorem Holds.self (t : Tree ι) : t.Holds t.index := ⟨t, .here, rfl⟩

theorem Holds.under {t c : Tree ι} {i : Nat} (h : c.Holds i) (hc : c ∈ t.children) : t.Holds i := by
  obtain ⟨u, hu, hi⟩ := h
  exact ⟨u, .under hc hu, hi⟩

theorem holds_iff {t : Tree ι} {i : Nat} :
    t.Holds i ↔ t.index = i ∨ ∃ c ∈ t.children, c.Holds i := by
  refine ⟨?_, ?_⟩
  · rintro ⟨u, hu, hi⟩
    cases hu with
    | here => exact .inl hi
    | under hc hu => exact .inr ⟨_, hc, u, hu, hi⟩
  · rintro (rfl | ⟨c, hc, h⟩)
    · exact .self t
    · exact h.under hc

theorem holds_addChild {c t : Tree ι} {i : Nat} : (addChild c t).Holds i ↔ c.Holds i ∨ t.Holds i := by
  rw [holds_iff, addChild_index, addChild_children, List.exists_mem_cons_iff, or_left_comm, ← holds_iff]

/-- The trees below a tree stand at nodes below its own. -/
def Linked (scan : ScanPlan ι) (u : Tree ι) : Prop :=
  ∀ c ∈ u.children, scan.parentAt c.index = some u.index

theorem Linked.addChild {c t : Tree ι} (h : t.Linked scan) (hc : scan.parentAt c.index = some t.index) :
    (Tree.addChild c t).Linked scan := by
  rw [Linked, addChild_index, addChild_children]
  exact List.forall_mem_cons.2 ⟨hc, h⟩

end Tree

/-! ## Nodes that are reached -/

/-- A node that has an instance, as have all nodes above it. -/
inductive Reached (scan : ScanPlan ι) (present : Nat → Prop) : Nat → Prop
  | root : Reached scan present 0
  | under {p i : Nat} : scan.parentAt i = some p → Reached scan present p → present i →
      Reached scan present i

theorem Reached.parent {present : Nat → Prop} (hr : scan.Rooted) {p i : Nat}
    (h : Reached scan present i) (hp : scan.parentAt i = some p) : Reached scan present p := by
  cases h with
  | root => cases hp.symm.trans hr.root
  | under hq h _ =>
    obtain rfl := Option.some.inj (hp.symm.trans hq)
    exact h

theorem Reached.present {present : Nat → Prop} (h0 : present 0) {i : Nat}
    (h : Reached scan present i) : present i := by
  cases h with
  | root => exact h0
  | under _ _ h => exact h

/-- With a node that a tree has, the node of the tree is reached. -/
theorem Reached.of_within {present : Nat → Prop} (hr : scan.Rooted) {u t : Tree ι}
    (hu : Tree.Within u t) (ht : t.Every (Tree.Linked scan)) (h : Reached scan present u.index) :
    Reached scan present t.index := by
  induction hu with
  | here => exact h
  | under hc _ ih => exact (ih (ht.under _ hc)).parent hr (ht.here _ hc)

/-! ## Hanging -/

/-- The trees of a row while those of the nodes in `left` are still to be hung. -/
structure Hung (scan : ScanPlan ι) (present : Nat → Prop) (left : List Nat)
    (trees : List (Option (Tree ι))) : Prop where
  index : ∀ (i : Nat) t, trees[i]? = some (some t) → t.index = i ∧ (i = 0 ∨ i ∈ left)
  every : ∀ (i : Nat) t, trees[i]? = some (some t) →
    t.Every fun u => present u.index ∧ u.Linked scan
  waiting : ∀ i, (i = 0 ∨ i ∈ left) → present i → ∃ t, trees[i]? = some (some t)
  held : ∀ i, Reached scan present i → ∃ (j : Nat) (t : Tree ι), trees[j]? = some (some t) ∧ t.Holds i

section

variable {present : Nat → Prop} {trees : List (Option (Tree ι))} {left : List Nat} {i j p : Nat}
  {child t : Tree ι}

/-- A node without a tree is passed over. -/
theorem hang_eq_self (h : ¬ ∃ child, trees[i]? = some (some child)) : hang scan trees i = trees := by
  rw [hang]
  split
  case h_1 child hchild => exact absurd ⟨child, hchild⟩ h
  case h_2 => rfl

/-- Each slot after a tree has been moved below another. -/
theorem getElem?_hang (hne : p ≠ i) (hp : scan.parentAt i = some p)
    (hchild : trees[i]? = some (some child)) (j : Nat) :
    (hang scan trees i)[j]? =
      if j = i then some none else if j = p then trees[j]?.map (·.map (Tree.addChild child))
        else trees[j]? := by
  have hi := (List.getElem?_eq_some_iff.1 hchild).1
  rw [hang, hchild, ← ScanPlan.parentAt, hp]
  dsimp only
  rw [List.getElem?_modify, List.getElem?_set]
  by_cases hji : j = i
  · subst hji
    simp [hne, hi]
  · by_cases hjp : j = p
    · subst hjp
      simp [hne, Ne.symm hne]
    · simp [hji, hjp, Ne.symm hji, Ne.symm hjp]

/-- No tree remains at the node whose turn it was. -/
theorem hang_getElem?_self (hne : p ≠ i) (hp : scan.parentAt i = some p) (t : Tree ι) :
    (hang scan trees i)[i]? ≠ some (some t) := by
  by_cases h : ∃ child, trees[i]? = some (some child)
  · obtain ⟨child, hchild⟩ := h
    rw [getElem?_hang hne hp hchild, if_pos rfl]
    exact nofun
  · rw [hang_eq_self h]
    exact fun ht => h ⟨t, ht⟩

/-- The other nodes keep a tree with all that it holds. -/
theorem hang_keeps (hne : p ≠ i) (hp : scan.parentAt i = some p) (hji : j ≠ i)
    (ht : trees[j]? = some (some t)) :
    ∃ u, (hang scan trees i)[j]? = some (some u) ∧ ∀ k, t.Holds k → u.Holds k := by
  by_cases h : ∃ child, trees[i]? = some (some child)
  · obtain ⟨child, hchild⟩ := h
    rw [getElem?_hang hne hp hchild, if_neg hji, ht]
    split
    · exact ⟨_, rfl, fun _ hk => Tree.holds_addChild.2 (.inr hk)⟩
    · exact ⟨t, rfl, fun _ => id⟩
  · rw [hang_eq_self h]
    exact ⟨t, ht, fun _ => id⟩

/-- The tree of the parent holds what the tree held that has been moved below it. -/
theorem hang_moves (hne : p ≠ i) (hp : scan.parentAt i = some p)
    (hchild : trees[i]? = some (some child)) (ht : trees[p]? = some (some t)) :
    ∃ u, (hang scan trees i)[p]? = some (some u) ∧ ∀ k, child.Holds k → u.Holds k := by
  rw [getElem?_hang hne hp hchild, if_neg hne, if_pos rfl, ht]
  exact ⟨_, rfl, fun _ hk => Tree.holds_addChild.2 (.inl hk)⟩

theorem Hung.hang (hr : scan.Rooted) (h0 : present 0) (hi : i ∉ left) (hi0 : i ≠ 0)
    (hp : scan.parentAt i = some p) (hleft : p = 0 ∨ p ∈ left)
    (h : Hung scan present (i :: left) trees) : Hung scan present left (Orm.hang scan trees i) := by
  have hne : p ≠ i := Nat.ne_of_lt (hr.lt_of_parentAt hp)
  have waiting (j : Nat) (hj : j = 0 ∨ j ∈ left) : present j → ∃ t, trees[j]? = some (some t) :=
    h.waiting j (hj.imp_right (List.mem_cons_of_mem i))
  refine ⟨fun j t ht => ?_, fun j t ht => ?_, fun j hj hpresent => ?_, fun j hj => ?_⟩
  · have hji : j ≠ i := by
      rintro rfl
      exact hang_getElem?_self hne hp t ht
    have passed (hmem : j = 0 ∨ j ∈ i :: left) : j = 0 ∨ j ∈ left :=
      hmem.imp_right fun hmem => List.mem_of_ne_of_mem hji hmem
    obtain ht | ⟨child, u, -, -, hu, rfl⟩ := hang_cases ht
    · exact ⟨(h.index j t ht).1, passed (h.index j t ht).2⟩
    · exact ⟨(Tree.addChild_index child u).trans (h.index j u hu).1, passed (h.index j u hu).2⟩
  · obtain ht | ⟨child, u, hchild, hpj, hu, rfl⟩ := hang_cases ht
    · exact h.every j t ht
    · obtain ⟨hpresent, hlinked⟩ := (h.every j u hu).here
      refine (h.every i child hchild).addChild (h.every j u hu) ⟨?_, hlinked.addChild ?_⟩
      · rwa [Tree.addChild_index]
      · rw [(h.index i child hchild).1, (h.index j u hu).1, hpj]
  · have hji : j ≠ i := by
      rintro rfl
      exact hj.elim hi0 hi
    obtain ⟨t, ht⟩ := waiting j hj hpresent
    obtain ⟨u, hu, -⟩ := hang_keeps hne hp hji ht
    exact ⟨u, hu⟩
  · obtain ⟨k, t, ht, hholds⟩ := h.held j hj
    by_cases hki : k = i
    · -- the node is in the tree that is moved, so the node of that and its parent are reached
      subst hki
      obtain ⟨v, hv, rfl⟩ := hholds
      have hreached : Reached scan present t.index :=
        .of_within hr hv ((h.every k t ht).imp fun _ hx => hx.2) hj
      rw [(h.index k t ht).1] at hreached
      obtain ⟨w, hw⟩ := waiting p hleft ((hreached.parent hr hp).present h0)
      obtain ⟨u, hu, hmoved⟩ := hang_moves hne hp ht hw
      exact ⟨p, u, hu, hmoved v.index ⟨v, hv, rfl⟩⟩
    · obtain ⟨u, hu, hkept⟩ := hang_keeps hne hp hki ht
      exact ⟨k, u, hu, hkept j hholds⟩

end

end Orm
