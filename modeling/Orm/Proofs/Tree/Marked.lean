import Orm.Proofs.Legible.Digits
import Orm.Proofs.Tree.Materialize

/-
Trees without a key are never merged into others, as if each row gave them a key of its own. `marked`
gives them one, and merging marked trees is merging the trees themselves (`foldl_placeTree_marked`): so
what holds where all keys are present holds of all rows.
-/

namespace Orm

variable {ι : Type} {schema : Schema ι} {scan : ScanPlan ι}

/-- The key that a row gives to instances that have none. -/
def rowMark (i : Nat) : String := "r:" ++ toString i

/-- Whether a key may be one that a row gives. The keys of values begin with other letters. -/
def isMark (k : String) : Bool := k.toList.head? == some 'r'

theorem rowMark_injective {i j : Nat} (h : rowMark i = rowMark j) : i = j :=
  Text.nat_toString_injective ((String.append_right_inj _).1 h)

theorem isMark_rowMark (i : Nat) : isMark (rowMark i) = true := by
  rw [isMark, rowMark, String.toList_append]
  rfl

theorem isMark_groupKey (v : Value) : isMark v.groupKey = false := by
  have hs : ∀ s : String, isMark ("s:" ++ s) = false := fun s => by
    rw [isMark, String.toList_append]
    rfl
  have hv : ∀ s : String, isMark ("v:" ++ s) = false := fun s => by
    rw [isMark, String.toList_append]
    rfl
  cases v
  case string s => exact hs s
  all_goals exact hv _

theorem ScanPlan.isMark_of_keyIn {row : List Value} {i : Nat} {k : String}
    (h : scan.keyIn row i = some k) : isMark k = false := by
  rw [keyIn, keyAmong] at h
  obtain ⟨e, -, h⟩ := Option.bind_eq_some_iff.1 h
  obtain ⟨c, -, h⟩ := Option.bind_eq_some_iff.1 h
  obtain ⟨f, -, h⟩ := Option.bind_eq_some_iff.1 h
  obtain ⟨v, -, rfl⟩ := Option.map_eq_some_iff.1 h
  exact isMark_groupKey v

namespace Tree

/-! ## Marking -/

theorem filter_of_value {k : String} (h : isMark k = false) :
    (some k).filter (!isMark ·) = some k := by
  simp [h]

theorem filter_of_mark {k : String} (h : isMark k = true) :
    (some k).filter (!isMark ·) = none := by
  simp [h]

mutual
/-- The tree with a key for each instance that has none. -/
def marked (mark : String) : Tree ι → Tree ι
  | node i k x ts => node i (some (k.getD mark)) x (markedAll mark ts)

def markedAll (mark : String) : List (Tree ι) → List (Tree ι)
  | [] => []
  | t :: ts => marked mark t :: markedAll mark ts
end

mutual
/-- The tree without the keys that rows give. -/
def unmarked : Tree ι → Tree ι
  | node i k x ts => node i (k.filter (!isMark ·)) x (unmarkedAll ts)

def unmarkedAll : List (Tree ι) → List (Tree ι)
  | [] => []
  | t :: ts => unmarked t :: unmarkedAll ts
end

theorem markedAll_eq (mark : String) (ts : List (Tree ι)) :
    markedAll mark ts = ts.map (marked mark) := by
  induction ts with
  | nil => rw [markedAll]; rfl
  | cons t ts ih => rw [markedAll, ih]; rfl

theorem unmarkedAll_eq (ts : List (Tree ι)) : unmarkedAll ts = ts.map unmarked := by
  induction ts with
  | nil => rw [unmarkedAll]; rfl
  | cons t ts ih => rw [unmarkedAll, ih]; rfl

theorem marked_eq (mark : String) (t : Tree ι) : marked mark t =
    node t.index (some (t.key.getD mark)) t.root (t.children.map (marked mark)) := by
  cases t
  rw [marked, markedAll_eq]
  rfl

theorem unmarked_eq (t : Tree ι) : unmarked t =
    node t.index (t.key.filter (!isMark ·)) t.root (t.children.map unmarked) := by
  cases t
  rw [unmarked, unmarkedAll_eq]
  rfl

@[simp] theorem marked_index (mark : String) (t : Tree ι) : (marked mark t).index = t.index := by
  rw [marked_eq]
  rfl

@[simp] theorem marked_key (mark : String) (t : Tree ι) :
    (marked mark t).key = some (t.key.getD mark) := by
  rw [marked_eq]
  rfl

@[simp] theorem marked_root (mark : String) (t : Tree ι) : (marked mark t).root = t.root := by
  rw [marked_eq]
  rfl

@[simp] theorem marked_children (mark : String) (t : Tree ι) :
    (marked mark t).children = t.children.map (marked mark) := by
  rw [marked_eq]
  rfl

@[simp] theorem unmarked_index (t : Tree ι) : (unmarked t).index = t.index := by
  rw [unmarked_eq]
  rfl

@[simp] theorem unmarked_key (t : Tree ι) : (unmarked t).key = t.key.filter (!isMark ·) := by
  rw [unmarked_eq]
  rfl

@[simp] theorem unmarked_root (t : Tree ι) : (unmarked t).root = t.root := by
  rw [unmarked_eq]
  rfl

@[simp] theorem unmarked_children (t : Tree ι) : (unmarked t).children = t.children.map unmarked := by
  rw [unmarked_eq]
  rfl

/-- The keys of a tree are those of values. -/
def Unmarked (t : Tree ι) : Prop := t.Every fun u => ∀ k, u.key = some k → isMark k = false

theorem unmarked_marked {mark : String} (hm : isMark mark = true) (t : Tree ι) :
    t.Unmarked → unmarked (marked mark t) = t := by
  induction t using induct_children with
  | step t ih =>
    intro h
    have hchildren : (t.children.map (marked mark)).map unmarked = t.children := by
      rw [List.map_map]
      exact (List.map_congr_left fun c hc => ih c hc (h.under c hc)).trans (List.map_id _)
    have hkey : (some (t.key.getD mark)).filter (!isMark ·) = t.key := by
      cases hk : t.key with
      | none => simp [hm]
      | some k => simp [h.here k hk]
    rw [unmarked_eq, marked_index, marked_key, marked_root, marked_children, hchildren, hkey]
    cases t
    rfl

/-! ## Attaching -/

/-- Attaching does not depend on keys. -/
theorem attach_unmarked [DecidableEq ι] (t : Tree ι) :
    attach schema scan (unmarked t) = attach schema scan t := by
  induction t using induct_children with
  | step t ih =>
    have hall : ∀ (ts : List (Tree ι)), (∀ c ∈ ts, c ∈ t.children) → ∀ x,
        attachAll schema scan x (ts.map unmarked) = attachAll schema scan x ts := by
      intro ts
      induction ts with
      | nil => exact fun _ x => rfl
      | cons c ts iht =>
        intro hts x
        obtain ⟨hc, hrest⟩ := List.forall_mem_cons.1 hts
        have hattach := ih c hc
        rw [List.map_cons]
        cases c with
        | node i k y below =>
          rw [unmarked] at hattach ⊢
          simp only [attachAll, hattach, iht hrest]
    rw [attach_eq, attach_eq, unmarked_root, unmarked_children]
    exact hall t.children (fun _ h => h) t.root

/-! ## Merging -/

/-- No instance of a tree has the key. -/
def Lacks (mark : String) (t : Tree ι) : Prop := t.Every fun u => u.key ≠ some mark

/-- A tree whose only key that a row gave is the one given. -/
structure MarkedBy (mark : String) (u : Tree ι) : Prop where
  key : ∀ k, u.key = some k → isMark k = true → k = mark
  nodup : (u.children.map index).Nodup

theorem matching_unmarked {mark : String} {t c : Tree ι}
    (hc : ∀ k, c.key = some k → isMark k = true → k = mark)
    (h : t.index = c.index → t.key ≠ some mark) :
    matching scan (unmarked t) (unmarked c) = matching scan t c := by
  rw [matching, matching, unmarked_index, unmarked_index, unmarked_key, unmarked_key]
  cases hindex : t.index == c.index with
  | false => rfl
  | true =>
    have hkeys : ((t.key.filter (!isMark ·)).isSome &&
        t.key.filter (!isMark ·) == c.key.filter (!isMark ·)) =
        (t.key.isSome && t.key == c.key) := by
      cases ht : t.key with
      | none => rfl
      | some k =>
        cases hk : isMark k with
        | false =>
          rw [filter_of_value hk]
          cases hkc : c.key with
          | none => rfl
          | some l =>
            cases hl : isMark l with
            | false => rw [filter_of_value hl]
            | true =>
              have hne : k ≠ l := fun heq => by simp [heq, hl] at hk
              rw [filter_of_mark hl]
              simp [hne]
        | true =>
          have hne : c.key ≠ some k := fun heq =>
            h (beq_iff_eq.1 hindex) (hc k heq hk ▸ ht)
          rw [filter_of_mark hk]
          simp [Ne.symm hne]
    rw [hkeys]

/-- What holds of two trees and does not depend on what is merged holds of the merged one. -/
theorem merge_every {P : Tree ι → Prop} (hP : ∀ t u, P u → P (merge scan t u)) (t : Tree ι) :
    ∀ {u}, t.Every P → u.Every P → (merge scan t u).Every P := by
  induction t using induct_children with
  | step t ih =>
    have hall : ∀ {more : List (Tree ι)} {ts}, (∀ c ∈ more, c ∈ t.children ∧ c.Every P) →
        (∀ c ∈ ts, c.Every P) → ∀ c ∈ mergeAll scan more ts, c.Every P := by
      intro more
      induction more with
      | nil =>
        intro ts _ hts
        rw [mergeAll]
        exact hts
      | cons c more ihm =>
        intro ts hmore hts
        obtain ⟨hc, hrest⟩ := List.forall_mem_cons.1 hmore
        rw [mergeAll]
        exact ihm hrest (mergeInto_forall hc.2 (fun v hv _ => ih c hc.1 hc.2 hv) hts)
    intro u ht hu
    refine .intro (hP t u hu.here) ?_
    rw [merge_eq]
    exact hall (fun c hc => ⟨hc, ht.under c hc⟩) hu.under

/-- Merging marked trees is merging the trees, if the mark is new. -/
theorem unmarked_merge {mark : String} (t : Tree ι) : ∀ {u}, t.Every (MarkedBy mark) →
    u.Lacks mark → unmarked (merge scan t u) = merge scan (unmarked t) (unmarked u) := by
  induction t using induct_children with
  | step t ih =>
    have hinto : ∀ c ∈ t.children, c.Every (MarkedBy mark) → ∀ {ts : List (Tree ι)},
        (∀ u ∈ ts, u.index = c.index → u.Lacks mark) →
        (mergeInto scan c (merge scan c) ts).map unmarked =
          mergeInto scan (unmarked c) (merge scan (unmarked c)) (ts.map unmarked) := by
      intro c hc hmarked ts
      induction ts with
      | nil => exact fun _ => rfl
      | cons u ts ihts =>
        intro hts
        obtain ⟨hu, hrest⟩ := List.forall_mem_cons.1 hts
        rw [List.map_cons, mergeInto, mergeInto,
          matching_unmarked hmarked.here.key fun hindex => (hu hindex).here]
        split
        · rename_i hmatch
          rw [matching, Bool.and_eq_true, beq_iff_eq] at hmatch
          rw [List.map_cons, ih c hc hmarked (hu hmatch.1)]
        · rw [List.map_cons, ihts hrest]
    have hall : ∀ {more ts : List (Tree ι)}, (∀ c ∈ more, c ∈ t.children ∧ c.Every (MarkedBy mark)) →
        (more.map index).Nodup → (∀ c ∈ more, ∀ u ∈ ts, u.index = c.index → u.Lacks mark) →
        (mergeAll scan more ts).map unmarked =
          mergeAll scan (more.map unmarked) (ts.map unmarked) := by
      intro more
      induction more with
      | nil =>
        intro ts _ _ _
        simp only [mergeAll, List.map_nil]
      | cons c more ihm =>
        intro ts hmore hnodup hlacks
        obtain ⟨⟨hc, hmarked⟩, hrest⟩ := List.forall_mem_cons.1 hmore
        obtain ⟨hlack, hlacks⟩ := List.forall_mem_cons.1 hlacks
        obtain ⟨hnew, hnodup⟩ := List.nodup_cons.1 hnodup
        rw [mergeAll, List.map_cons, mergeAll, ← hinto c hc hmarked hlack]
        refine ihm hrest hnodup fun d hd => ?_
        -- what the tree was merged into stands at its node, and no later one does
        have hother : c.index ≠ d.index := fun heq => hnew (heq ▸ List.mem_map_of_mem hd)
        refine mergeInto_forall (fun heq => absurd heq hother) (fun v _ hsame heq => ?_) (hlacks d hd)
        exact absurd (hsame.symm.trans ((merge_index scan c v).symm.trans heq)) hother
    intro u ht hu
    rw [merge_eq, unmarked_eq, merge_eq, unmarked_index, unmarked_key, unmarked_root,
      unmarked_children, unmarked_children]
    congr 1
    exact hall (fun c hc => ⟨hc, ht.under c hc⟩) ht.here.nodup fun _ _ u hu' _ => hu.under u hu'

/-! ## The trees of rows -/

theorem Every.marked {P Q : Tree ι → Prop} {mark : String} {t : Tree ι} (h : t.Every P)
    (hpq : ∀ u, P u → Q (u.marked mark)) : (t.marked mark).Every Q := by
  induction h with
  | intro h _ ih =>
    refine .intro (hpq _ h) fun c hc => ?_
    rw [marked_children] at hc
    obtain ⟨d, hd, rfl⟩ := List.mem_map.1 hc
    exact ih d hd

theorem marked_children_index (mark : String) (t : Tree ι) :
    (t.marked mark).children.map index = t.children.map index := by
  rw [marked_children, List.map_map]
  exact List.map_congr_left fun c _ => marked_index mark c

variable {row : List Value}

theorem FromRow.isMark_key {u : Tree ι} (h : FromRow schema scan row u) {k : String}
    (hk : u.key = some k) : isMark k = false :=
  ScanPlan.isMark_of_keyIn (h.key.symm.trans hk)

theorem FromRow.markedBy {mark : String} {u : Tree ι} (h : FromRow schema scan row u) :
    MarkedBy mark (u.marked mark) := by
  refine ⟨fun k hk hmark => ?_, by rw [marked_children_index]; exact h.nodup⟩
  rw [marked_key] at hk
  obtain rfl := Option.some.inj hk
  cases hu : u.key with
  | none => rfl
  | some l =>
    rw [hu, Option.getD_some, h.isMark_key hu] at hmark
    cases hmark

theorem FromRow.marked_key_ne {i j : Nat} {u : Tree ι} (h : FromRow schema scan row u) (hij : i ≠ j) :
    (u.marked (rowMark i)).key ≠ some (rowMark j) := by
  intro hj
  have hmarked : MarkedBy (rowMark i) (u.marked (rowMark i)) := h.markedBy
  exact hij (rowMark_injective (hmarked.key _ hj (isMark_rowMark j))).symm

/-- Marked trees are proper: every instance has a key. -/
theorem FromRow.marked_proper {mark : String} {u : Tree ι} (h : FromRow schema scan row u) :
    Proper schema scan (u.marked mark) := by
  refine ⟨⟨?_, ?_, fun c hc => ?_⟩, fun _ => by rw [marked_key]; rfl⟩
  · rw [marked_root]
    exact h.bare
  · rw [marked_children_index]
    exact h.nodup
  · rw [marked_children] at hc
    obtain ⟨d, hd, rfl⟩ := List.mem_map.1 hc
    rw [marked_index, marked_index]
    exact h.parent d hd

end Tree

/-! ## All rows -/

/-- The trees of rows, the keys that are missing given by the rows from the `i`-th on. -/
def markRows : Nat → List (Tree ι) → List (Tree ι)
  | _, [] => []
  | i, t :: ts => t.marked (rowMark i) :: markRows (i + 1) ts

/-- The trees have no key that a row from the `i`-th on gives. -/
def LackFrom (i : Nat) (ts : List (Tree ι)) : Prop :=
  ∀ t ∈ ts, ∀ j, i ≤ j → t.Lacks (rowMark j)

variable {row : List Value} {t : Tree ι}

theorem LackFrom.gather {i : Nat} {acc : List (Tree ι)} (h : LackFrom i acc)
    (ht : t.Every (Tree.FromRow schema scan row)) :
    LackFrom (i + 1) (gather Tree.key (Tree.merge scan) acc (t.marked (rowMark i))) := by
  intro u hu j hj
  have hnew : (t.marked (rowMark i)).Lacks (rowMark j) :=
    ht.marked fun v hv => hv.marked_key_ne (Nat.ne_of_lt hj)
  obtain hu | rfl | ⟨v, hv, rfl⟩ := mem_gather hu
  · exact h u hu j (Nat.le_of_succ_le hj)
  · exact hnew
  · refine Tree.merge_every (fun v w hw => ?_) _ hnew (h v hv j (Nat.le_of_succ_le hj))
    rwa [Tree.merge_key]

/-- Placing a tree is gathering it marked. -/
theorem unmarked_gather (hg : scan.groupRows = true) {i : Nat} {acc : List (Tree ι)}
    (h : LackFrom i acc) (ht : t.Every (Tree.FromRow schema scan row)) :
    (gather Tree.key (Tree.merge scan) acc (t.marked (rowMark i))).map Tree.unmarked =
      placeTree scan (acc.map Tree.unmarked) t := by
  have hself : (t.marked (rowMark i)).unmarked = t :=
    Tree.unmarked_marked (isMark_rowMark i) t (ht.imp fun u hu _ => hu.isMark_key)
  rw [placeTree, hg, Bool.true_and]
  cases hk : t.key with
  | none =>
    have hnew : (t.marked (rowMark i)).key ∉ acc.map Tree.key := by
      rw [Tree.marked_key, hk]
      intro hmem
      obtain ⟨u, hu, hkey⟩ := List.mem_map.1 hmem
      exact (h u hu i (Nat.le_refl i)).here hkey
    rw [gather_of_not_mem hnew, List.map_append, List.map_singleton, hself]
    rfl
  | some k =>
    have hmarked : (t.marked (rowMark i)).Every (Tree.MarkedBy (rowMark i)) :=
      ht.marked fun u hu => hu.markedBy
    have hvalue : isMark k = false := ht.here.isMark_key hk
    rw [Option.isSome_some, if_pos rfl, addTree_eq_gather]
    clear hg
    induction acc with
    | nil => exact congrArg (fun u => [u]) hself
    | cons u acc ih =>
      have hiff : u.key = some k ↔ u.unmarked.key = some k := by
        rw [Tree.unmarked_key, Option.filter_eq_some_iff]
        exact ⟨fun hu => ⟨hu, by simp [hvalue]⟩, And.left⟩
      have hmerge : (Tree.merge scan (t.marked (rowMark i)) u).unmarked = _ :=
        Tree.unmarked_merge _ hmarked (h u List.mem_cons_self i (Nat.le_refl i))
      rw [hself] at hmerge
      rw [List.map_cons, gather, gather, Tree.marked_key, hk, Option.getD_some]
      by_cases hu : u.key = some k
      · rw [if_pos hu, if_pos (hiff.1 hu), List.map_cons, hmerge]
      · rw [if_neg hu, if_neg fun heq => hu (hiff.2 heq), List.map_cons,
          ih fun v hv => h v (List.mem_cons_of_mem u hv)]

/-- Placing the trees of rows is gathering them marked. -/
theorem foldl_placeTree_marked (hg : scan.groupRows = true) {trees : List (Tree ι)}
    (ht : ∀ t ∈ trees, ∃ row, t.Every (Tree.FromRow schema scan row)) :
    ∀ {i : Nat} {acc : List (Tree ι)}, LackFrom i acc →
      (gatherAll Tree.key (Tree.merge scan) acc (markRows i trees)).map Tree.unmarked =
        trees.foldl (placeTree scan) (acc.map Tree.unmarked) := by
  induction trees with
  | nil => exact fun _ => rfl
  | cons t trees ih =>
    intro i acc h
    obtain ⟨⟨row, hrow⟩, hrest⟩ := List.forall_mem_cons.1 ht
    rw [markRows, gatherAll_cons, ih hrest (h.gather hrow), unmarked_gather hg h hrow]
    rfl

end Orm
