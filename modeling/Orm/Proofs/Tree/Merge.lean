import Mathlib.Data.List.Forall2
import Mathlib.Data.List.Induction
import Mathlib.Data.List.Nodup
import Orm.Scan.Tree

/-
Groups of a list in the order of their first elements (`groupsBy`), and what comes of merging each
element into the first one of its slot (`gatherAll`): one merged element for each group.

Merging trees is gathering what stands below them: below the merged tree there is one tree for each
slot, which is a node, and at a node that collects instances also a key.
-/

namespace Orm

section

variable {α κ : Type} [DecidableEq κ]

omit [DecidableEq κ] in
theorem getElem?_of_forall₂ {β : Type} {R : α → β → Prop} {as : List α} {bs : List β}
    (h : List.Forall₂ R as bs) : ∀ {p : Nat} {a : α}, as[p]? = some a →
      ∃ b, bs[p]? = some b ∧ R a b := by
  induction h with
  | nil => simp
  | cons hab _ ih =>
    rintro (_ | p) a ha
    · exact ⟨_, rfl, Option.some.inj ha ▸ hab⟩
    · exact ih ha

/-- The elements of each slot, the slots in the order in which they first occur. -/
def groupsBy (slot : α → κ) (l : List α) : List (List α) :=
  (l.map slot).eraseDups.map fun k => l.filter (slot · = k)

/-- The first element of a group with the others merged into it. -/
def mergedOf (merge : α → α → α) : List α → Option α
  | [] => none
  | t :: rest => some (rest.foldl (fun u x => merge x u) t)

/-- Merges `x` into the first element of its slot, or puts it at the end. -/
def gather (slot : α → κ) (merge : α → α → α) : List α → α → List α
  | [], x => [x]
  | t :: rest, x => if slot t = slot x then merge x t :: rest else t :: gather slot merge rest x

def gatherAll (slot : α → κ) (merge : α → α → α) (acc l : List α) : List α :=
  l.foldl (gather slot merge) acc

section

variable {slot : α → κ} {merge : α → α → α}

theorem groupsBy_eq_nil {l : List α} : groupsBy slot l = [] ↔ l = [] := by
  refine ⟨fun h => ?_, fun h => by simp [h, groupsBy]⟩
  rw [groupsBy, List.map_eq_nil_iff] at h
  refine List.eq_nil_iff_forall_not_mem.2 fun x hx => ?_
  exact List.not_mem_nil (h ▸ List.mem_eraseDups.2 (List.mem_map_of_mem hx))

/-- Elements of one slot are one group. -/
theorem groupsBy_of_forall {k : κ} {l : List α} (h : ∀ x ∈ l, slot x = k) (hl : l ≠ []) :
    groupsBy slot l = [l] := by
  have hkeys : (l.map slot).eraseDups = [k] := by
    obtain ⟨x, rest, rfl⟩ := List.exists_cons_of_ne_nil hl
    obtain ⟨hx, hrest⟩ := List.forall_mem_cons.1 h
    have hnone : (rest.map slot).filter (fun j => !j == k) = [] := by simpa using hrest
    rw [List.map_cons, hx, List.eraseDups_cons, hnone, List.eraseDups_nil]
  rw [groupsBy, hkeys, List.map_singleton, List.filter_eq_self.2 fun x hx => by simp [h x hx]]

theorem mem_of_mem_groupsBy {l g : List α} {x : α} (hg : g ∈ groupsBy slot l) (hx : x ∈ g) :
    x ∈ l := by
  obtain ⟨k, -, rfl⟩ := List.mem_map.1 hg
  exact (List.mem_filter.1 hx).1

theorem mergedOf_snoc (x : α) (l : List α) :
    mergedOf merge (l ++ [x]) = some (((mergedOf merge l).map (merge x)).getD x) := by
  cases l with
  | nil => rfl
  | cons t rest => simp [mergedOf, List.foldl_append]

/-- What merging keeps of the first element, the merged one has. -/
theorem mergedOf_keeps {β : Type} {g : α → β} (hg : ∀ x t, g (merge x t) = g t) {t u : α}
    {rest : List α} (h : mergedOf merge (t :: rest) = some u) : g u = g t := by
  obtain rfl := Option.some.inj h
  induction rest generalizing t with
  | nil => rfl
  | cons x rest ih => exact (ih rfl).trans (hg x t)

theorem eraseDups_snoc (ks : List κ) (k : κ) :
    (ks ++ [k]).eraseDups = ks.eraseDups ++ if k ∈ ks then [] else [k] := by
  rw [List.eraseDups_append]
  by_cases h : k ∈ ks <;> simp [h, List.removeAll, List.eraseDups_cons]

theorem nodup_eraseDups (ks : List κ) : ks.eraseDups.Nodup := by
  induction ks using List.reverseRecOn with
  | nil => exact List.nodup_nil
  | append_singleton ks k ih =>
    rw [eraseDups_snoc]
    by_cases h : k ∈ ks
    · rwa [if_pos h, List.append_nil]
    · rw [if_neg h, List.nodup_append]
      refine ⟨ih, List.nodup_singleton k, fun a ha b hb => ?_⟩
      rintro rfl
      exact h (List.mem_singleton.1 hb ▸ List.mem_eraseDups.1 ha)

/-- What is paired with the group of an element, at the position of the element's slot. -/
theorem exists_of_mem_groupsBy {β : Type} {R : List α → β → Prop} {l : List α} {bs : List β}
    (h : List.Forall₂ R (groupsBy slot l) bs) {x : α} (hx : x ∈ l) :
    ∃ (p : Nat) (b : β), (l.map slot).eraseDups[p]? = some (slot x) ∧
      (groupsBy slot l)[p]? = some (l.filter (slot · = slot x)) ∧ bs[p]? = some b ∧
      R (l.filter (slot · = slot x)) b := by
  have hslot : slot x ∈ (l.map slot).eraseDups := List.mem_eraseDups.2 (List.mem_map_of_mem hx)
  obtain ⟨p, hp⟩ := List.mem_iff_getElem?.1 hslot
  have hg : (groupsBy slot l)[p]? = some (l.filter (slot · = slot x)) := by
    rw [groupsBy, List.getElem?_map, hp]
    rfl
  obtain ⟨b, hb, hr⟩ := getElem?_of_forall₂ h hg
  exact ⟨p, b, hp, hg, hb, hr⟩

/-! ## One element -/

theorem gather_of_not_mem {l : List α} {x : α} (h : slot x ∉ l.map slot) :
    gather slot merge l x = l ++ [x] := by
  induction l with
  | nil => rfl
  | cons t rest ih =>
    rw [List.map_cons, List.mem_cons, not_or] at h
    rw [gather, if_neg (Ne.symm h.1), ih h.2, List.cons_append]

omit [DecidableEq κ] in
theorem map_slot_of_forall₂ {R : κ → α → Prop} {ks : List κ} {l : List α}
    (h : List.Forall₂ R ks l) (hs : ∀ k u, R k u → slot u = k) : l.map slot = ks := by
  induction h with
  | nil => rfl
  | cons hu _ ih => rw [List.map_cons, hs _ _ hu, ih]

omit [DecidableEq κ] in
theorem forall₂_of_not_mem {R S : κ → α → Prop} {k : κ} {ks : List κ} {l : List α}
    (h : List.Forall₂ R ks l) (hk : k ∉ ks) (hkeep : ∀ j u, j ≠ k → R j u → S j u) :
    List.Forall₂ S ks l := by
  induction h with
  | nil => exact .nil
  | @cons j u ks l hu _ ih =>
    rw [List.mem_cons, not_or] at hk
    exact .cons (hkeep j u (Ne.symm hk.1) hu) (ih hk.2)

/-- Only the element of the slot changes. -/
theorem forall₂_gather {R S : κ → α → Prop} {x : α} {ks : List κ} {l : List α}
    (h : List.Forall₂ R ks l) (hs : ∀ k u, R k u → slot u = k) (hn : ks.Nodup) (hx : slot x ∈ ks)
    (hmerge : ∀ u, R (slot x) u → S (slot x) (merge x u))
    (hkeep : ∀ k u, k ≠ slot x → R k u → S k u) : List.Forall₂ S ks (gather slot merge l x) := by
  induction h with
  | nil => exact absurd hx List.not_mem_nil
  | @cons k u ks l hu hl ih =>
    obtain ⟨hk, hn⟩ := List.nodup_cons.1 hn
    rw [gather, hs k u hu]
    by_cases hslot : k = slot x
    · subst hslot
      rw [if_pos rfl]
      exact .cons (hmerge u hu) (forall₂_of_not_mem hl hk hkeep)
    · rw [if_neg hslot]
      exact .cons (hkeep k u hslot hu) (ih hn ((List.mem_cons.1 hx).resolve_left (Ne.symm hslot)))

theorem mem_gather {l : List α} {x u : α} (h : u ∈ gather slot merge l x) :
    u ∈ l ∨ u = x ∨ ∃ t ∈ l, u = merge x t := by
  induction l with
  | nil => exact .inr (.inl (List.mem_singleton.1 h))
  | cons t rest ih =>
    rw [gather] at h
    split at h
    · rcases List.mem_cons.1 h with rfl | h
      · exact .inr (.inr ⟨t, List.mem_cons_self, rfl⟩)
      · exact .inl (List.mem_cons_of_mem t h)
    · rcases List.mem_cons.1 h with rfl | h
      · exact .inl List.mem_cons_self
      · rcases ih h with h | h | ⟨t', ht', h⟩
        · exact .inl (List.mem_cons_of_mem t h)
        · exact .inr (.inl h)
        · exact .inr (.inr ⟨t', List.mem_cons_of_mem t ht', h⟩)

/-! ## All elements -/

theorem gatherAll_cons {acc l : List α} {x : α} :
    gatherAll slot merge acc (x :: l) = gatherAll slot merge (gather slot merge acc x) l :=
  rfl

theorem gatherAll_of_nodup {acc l : List α} (h : ((acc ++ l).map slot).Nodup) :
    gatherAll slot merge acc l = acc ++ l := by
  induction l generalizing acc with
  | nil => simp [gatherAll]
  | cons x l ih =>
    have hx : slot x ∉ acc.map slot := by
      rw [List.map_append, List.map_cons] at h
      exact fun hmem => List.disjoint_of_nodup_append h hmem List.mem_cons_self
    rw [List.append_cons] at h
    rw [gatherAll_cons, gather_of_not_mem hx, ih h, ← List.append_cons]

theorem gatherAll_append {acc l m : List α} :
    gatherAll slot merge acc (l ++ m) = gatherAll slot merge (gatherAll slot merge acc l) m :=
  List.foldl_append

/-- What merging keeps, every gathered element has. -/
theorem forall_mem_gatherAll {P : α → Prop} (hmerge : ∀ x t, P t → P (merge x t)) {acc l : List α}
    (hacc : ∀ t ∈ acc, P t) (hl : ∀ x ∈ l, P x) : ∀ u ∈ gatherAll slot merge acc l, P u := by
  induction l generalizing acc with
  | nil => exact hacc
  | cons x l ih =>
    obtain ⟨hx, hl⟩ := List.forall_mem_cons.1 hl
    refine ih (fun u hu => ?_) hl
    rcases mem_gather hu with hu | rfl | ⟨t, ht, rfl⟩
    · exact hacc u hu
    · exact hx
    · exact hmerge x t (hacc t ht)

theorem filter_snoc_slot (l : List α) (x : α) (k : κ) :
    (l ++ [x]).filter (slot · = k) = l.filter (slot · = k) ++ if slot x = k then [x] else [] := by
  rw [List.filter_append]
  by_cases h : slot x = k <;> simp [h]

theorem filter_gather {q : α → Bool} (hmerge : ∀ x t, q (merge x t) = q t)
    (hslot : ∀ x t, slot t = slot x → q t = q x) (l : List α) (x : α) :
    (gather slot merge l x).filter q =
      if q x then gather slot merge (l.filter q) x else l.filter q := by
  induction l with
  | nil => cases hx : q x <;> simp [gather, hx]
  | cons t rest ih =>
    rw [gather]
    by_cases h : slot t = slot x
    · rw [if_pos h, List.filter_cons, List.filter_cons, hmerge, hslot x t h]
      cases hx : q x <;> simp [gather, h]
    · rw [if_neg h, List.filter_cons, ih, List.filter_cons]
      cases hx : q x <;> cases ht : q t <;> simp [gather, h]

/-- Gathering what a test that only sees the slots keeps. -/
theorem filter_gatherAll {q : α → Bool} (hmerge : ∀ x t, q (merge x t) = q t)
    (hslot : ∀ x t, slot t = slot x → q t = q x) (acc l : List α) :
    (gatherAll slot merge acc l).filter q = gatherAll slot merge (acc.filter q) (l.filter q) := by
  induction l generalizing acc with
  | nil => rfl
  | cons x l ih =>
    rw [gatherAll_cons, ih, filter_gather hmerge hslot, List.filter_cons]
    cases hx : q x <;> rfl

/-- Elements that two slots tell apart alike are gathered alike. -/
theorem gatherAll_congr {κ' : Type} [DecidableEq κ'] {slot' : α → κ'} {P : α → Prop}
    (hmerge : ∀ x t, P t → P (merge x t))
    (heq : ∀ x t, P x → P t → (slot t = slot x ↔ slot' t = slot' x)) {acc l : List α}
    (hacc : ∀ t ∈ acc, P t) (hl : ∀ x ∈ l, P x) :
    gatherAll slot merge acc l = gatherAll slot' merge acc l := by
  induction l generalizing acc with
  | nil => rfl
  | cons x l ih =>
    have hx : P x := hl x List.mem_cons_self
    have hgather : gather slot merge acc x = gather slot' merge acc x := by
      clear ih
      induction acc with
      | nil => rfl
      | cons t rest ih =>
        have ht := heq x t hx (hacc t List.mem_cons_self)
        simp only [gather, ht, ih fun u hu => hacc u (List.mem_cons_of_mem t hu)]
    rw [gatherAll_cons, gatherAll_cons, ← hgather]
    refine ih ?_ fun u hu => hl u (List.mem_cons_of_mem x hu)
    exact forall_mem_gatherAll (l := [x]) hmerge hacc (List.forall_mem_singleton.2 hx)

theorem slot_mergedOf (hslot : ∀ x t, slot (merge x t) = slot t) {l : List α} {k : κ} {u : α}
    (h : mergedOf merge (l.filter (slot · = k)) = some u) : slot u = k := by
  cases hl : l.filter (slot · = k) with
  | nil => simp [hl, mergedOf] at h
  | cons t rest =>
    rw [hl] at h
    have ht : t ∈ l.filter (slot · = k) := hl ▸ List.mem_cons_self
    rw [mergedOf_keeps hslot h]
    exact of_decide_eq_true (List.mem_filter.1 ht).2

/-- Gathering gives one merged element for each slot, in the order in which the slots first occur. -/
theorem forall₂_gatherAll (hslot : ∀ x t, slot (merge x t) = slot t) (l : List α) :
    List.Forall₂ (fun g u => mergedOf merge g = some u) (groupsBy slot l)
      (gatherAll slot merge [] l) := by
  rw [groupsBy, List.forall₂_map_left_iff]
  induction l using List.reverseRecOn with
  | nil => exact .nil
  | append_singleton l x ih =>
    have hs : ∀ k u, mergedOf merge (l.filter (slot · = k)) = some u → slot u = k :=
      fun k u hu => slot_mergedOf hslot hu
    rw [gatherAll_append, List.map_append, List.map_singleton, eraseDups_snoc]
    by_cases hx : slot x ∈ l.map slot
    · rw [if_pos hx, List.append_nil]
      refine forall₂_gather ih hs (nodup_eraseDups _) (List.mem_eraseDups.2 hx) ?_ ?_
      · intro u hu
        rw [filter_snoc_slot, if_pos rfl, mergedOf_snoc, hu]
        rfl
      · intro k u hk hu
        rwa [filter_snoc_slot, if_neg (Ne.symm hk), List.append_nil]
    · have hout : slot x ∉ (gatherAll slot merge [] l).map slot := by
        rw [map_slot_of_forall₂ ih hs]
        exact fun hmem => hx (List.mem_eraseDups.1 hmem)
      rw [if_neg hx, gatherAll, List.foldl_cons, List.foldl_nil, gather_of_not_mem hout]
      refine List.rel_append (forall₂_of_not_mem ih (fun h => hx (List.mem_eraseDups.1 h)) ?_) ?_
      · intro k u hk hu
        rwa [filter_snoc_slot, if_neg (Ne.symm hk), List.append_nil]
      · refine .cons ?_ .nil
        have hnone : l.filter (slot · = slot x) = [] := by
          refine List.filter_eq_nil_iff.2 fun t ht heq => hx ?_
          exact List.mem_map.2 ⟨t, ht, of_decide_eq_true heq⟩
        rw [filter_snoc_slot, if_pos rfl, hnone]
        rfl

end

end

section

variable {ι : Type}

/-- Whether several instances are collected at a node for one above. -/
def ScanPlan.collects (scan : ScanPlan ι) (i : Nat) : Bool := scan.nodes[i]?.any (·.toMany)

namespace Tree

def root : Tree ι → Instance ι
  | node _ _ x _ => x

def children : Tree ι → List (Tree ι)
  | node _ _ _ ts => ts

/-- A property of a tree and of all trees below it. -/
inductive Every (P : Tree ι → Prop) : Tree ι → Prop
  | intro {t : Tree ι} : P t → (∀ c ∈ t.children, Every P c) → Every P t

theorem Every.here {P : Tree ι → Prop} {t : Tree ι} (h : Every P t) : P t := by
  cases h with
  | intro h _ => exact h

theorem Every.under {P : Tree ι → Prop} {t : Tree ι} (h : Every P t) :
    ∀ c ∈ t.children, Every P c := by
  cases h with
  | intro _ h => exact h

theorem Every.imp {P Q : Tree ι → Prop} {t : Tree ι} (h : Every P t) (hpq : ∀ u, P u → Q u) :
    Every Q t := by
  induction h with
  | intro h _ ih => exact .intro (hpq _ h) ih

theorem Every.and {P Q : Tree ι → Prop} {t : Tree ι} (hp : Every P t) (hq : Every Q t) :
    Every (fun u => P u ∧ Q u) t := by
  induction hp with
  | intro h _ ih => exact .intro ⟨h, hq.here⟩ fun c hc => ih c hc (hq.under c hc)

mutual
/-- Whether a test passes on a tree and on all trees below it. -/
def passes (test : Tree ι → Bool) : Tree ι → Bool
  | node i k x ts => test (node i k x ts) && allPass test ts

def allPass (test : Tree ι → Bool) : List (Tree ι) → Bool
  | [] => true
  | t :: ts => passes test t && allPass test ts
end

mutual
theorem every_of_passes {test : Tree ι → Bool} :
    ∀ t : Tree ι, passes test t = true → Every (fun u => test u = true) t
  | node i k x ts, h => by
    rw [passes, Bool.and_eq_true] at h
    exact .intro h.1 (every_of_allPass ts h.2)

theorem every_of_allPass {test : Tree ι → Bool} :
    ∀ ts : List (Tree ι), allPass test ts = true → ∀ c ∈ ts, Every (fun u => test u = true) c
  | [], _ => fun _ hc => absurd hc List.not_mem_nil
  | t :: ts, h => by
    rw [allPass, Bool.and_eq_true] at h
    exact List.forall_mem_cons.2 ⟨every_of_passes t h.1, every_of_allPass ts h.2⟩
end

/-- What holds of a tree if it holds of those directly below it holds of all trees. -/
theorem induct_children {P : Tree ι → Prop} (step : ∀ t, (∀ c ∈ t.children, P c) → P t)
    (t : Tree ι) : P t := by
  refine step t fun c hc => ?_
  exact induct_children step c
termination_by sizeOf t
decreasing_by
  cases t with
  | node i k x ts =>
    have := List.sizeOf_lt_of_mem hc
    simp only [children] at this
    simp only [node.sizeOf_spec]
    omega

/-! ## Slots -/

/-- What tells apart the trees below one instance: the node, and where instances are collected the key. -/
def slot (scan : ScanPlan ι) (t : Tree ι) : Nat × Option String :=
  (t.index, if scan.collects t.index then t.key else none)

/-- A collected instance has a key. -/
def Keyed (scan : ScanPlan ι) (t : Tree ι) : Prop :=
  scan.collects t.index = true → t.key.isSome = true

theorem merge_eq (scan : ScanPlan ι) (t u : Tree ι) :
    merge scan t u = node u.index u.key u.root (mergeAll scan t.children u.children) := by
  cases t
  cases u
  rw [merge]
  rfl

theorem merge_index (scan : ScanPlan ι) (t u : Tree ι) : (merge scan t u).index = u.index := by
  rw [merge_eq]
  rfl

theorem merge_key (scan : ScanPlan ι) (t u : Tree ι) : (merge scan t u).key = u.key := by
  rw [merge_eq]
  rfl

theorem merge_root (scan : ScanPlan ι) (t u : Tree ι) : (merge scan t u).root = u.root := by
  rw [merge_eq]
  rfl

theorem matching_iff {scan : ScanPlan ι} {t child : Tree ι} (h : Keyed scan child) :
    matching scan t child = true ↔ slot scan t = slot scan child := by
  rw [matching, Bool.and_eq_true, beq_iff_eq, slot, slot, Prod.mk.injEq, ← ScanPlan.collects]
  refine and_congr_right fun hi => ?_
  rw [hi]
  cases hc : scan.collects child.index with
  | false => simp
  | true =>
    simp only [Bool.not_true, Bool.false_or, Bool.and_eq_true, beq_iff_eq, if_true]
    exact ⟨And.right, fun heq => ⟨heq ▸ h hc, heq⟩⟩

/-! ## Merging -/

theorem mergeInto_forall {scan : ScanPlan ι} {P : Tree ι → Prop} {child : Tree ι} {merge : Tree ι → Tree ι}
    (hc : P child) (hm : ∀ t, P t → t.index = child.index → P (merge t)) {ts : List (Tree ι)}
    (ht : ∀ t ∈ ts, P t) : ∀ t ∈ mergeInto scan child merge ts, P t := by
  induction ts with
  | nil => exact fun t h => List.mem_singleton.1 h ▸ hc
  | cons t ts ih =>
    obtain ⟨ht, hts⟩ := List.forall_mem_cons.1 ht
    rw [mergeInto]
    split
    · rename_i hmatch
      rw [matching, Bool.and_eq_true, beq_iff_eq] at hmatch
      exact List.forall_mem_cons.2 ⟨hm t ht hmatch.1, hts⟩
    · exact List.forall_mem_cons.2 ⟨ht, ih hts⟩

theorem mergeInto_eq_gather {scan : ScanPlan ι} {child : Tree ι} (h : Keyed scan child)
    (ts : List (Tree ι)) :
    mergeInto scan child (merge scan child) ts = gather (slot scan) (merge scan) ts child := by
  induction ts with
  | nil => rfl
  | cons t rest ih => simp only [mergeInto, gather, matching_iff h, ih]

theorem mergeAll_eq_gatherAll {scan : ScanPlan ι} {more : List (Tree ι)}
    (h : ∀ t ∈ more, Keyed scan t) (ts : List (Tree ι)) :
    mergeAll scan more ts = gatherAll (slot scan) (merge scan) ts more := by
  induction more generalizing ts with
  | nil => rw [mergeAll]; rfl
  | cons t rest ih =>
    rw [mergeAll, gatherAll_cons, mergeInto_eq_gather (h t List.mem_cons_self)]
    exact ih (fun u hu => h u (List.mem_cons_of_mem t hu)) _

/-- Below a merged tree stands what stands below all of them, gathered. -/
theorem mergedOf_children {scan : ScanPlan ι} {t u : Tree ι} {rest : List (Tree ι)}
    (hn : (t.children.map (slot scan)).Nodup) (hk : ∀ v ∈ rest, ∀ c ∈ v.children, Keyed scan c)
    (h : mergedOf (merge scan) (t :: rest) = some u) :
    u.children = gatherAll (slot scan) (merge scan) [] ((t :: rest).flatMap children) := by
  have hfold : ∀ v : Tree ι, (rest.foldl (fun u x => merge scan x u) v).children =
      gatherAll (slot scan) (merge scan) v.children (rest.flatMap children) := by
    clear h hn
    induction rest with
    | nil => exact fun v => rfl
    | cons w rest ih =>
      intro v
      rw [List.foldl_cons, ih fun x hx => hk x (List.mem_cons_of_mem w hx), merge_eq,
        List.flatMap_cons, gatherAll_append]
      exact congrArg (gatherAll _ _ · _) (mergeAll_eq_gatherAll (hk w List.mem_cons_self) _)
  obtain rfl := Option.some.inj h
  have hself : gatherAll (slot scan) (merge scan) [] t.children = t.children := gatherAll_of_nodup hn
  rw [hfold, List.flatMap_cons, gatherAll_append, hself]

/-- The trees below a merged tree stand at the nodes of those below the trees that were merged. -/
theorem mergedOf_children_index {scan : ScanPlan ι} {t u : Tree ι} {rest : List (Tree ι)}
    {P : Nat → Prop} (hn : (t.children.map (slot scan)).Nodup)
    (hk : ∀ v ∈ rest, ∀ c ∈ v.children, Keyed scan c)
    (h : mergedOf (merge scan) (t :: rest) = some u)
    (hp : ∀ c ∈ (t :: rest).flatMap children, P (index c)) : ∀ c ∈ u.children, P (index c) := by
  rw [mergedOf_children hn hk h]
  exact forall_mem_gatherAll (P := fun c => P (index c)) (fun x t ht => by rwa [merge_index])
    (fun c hc => absurd hc List.not_mem_nil) hp

/-! ## What stands at one node -/

/-- The trees at a node that stand below the given ones. -/
def childrenAt (ts : List (Tree ι)) (j : Nat) : List (Tree ι) :=
  (ts.flatMap children).filter (·.index == j)

theorem mem_childrenAt {ts : List (Tree ι)} {t c : Tree ι} {j : Nat} (ht : t ∈ ts)
    (hc : c ∈ t.children) (hj : c.index = j) : c ∈ childrenAt ts j :=
  List.mem_filter.2 ⟨List.mem_flatMap.2 ⟨t, ht, hc⟩, beq_iff_eq.2 hj⟩

/-- What tells apart the trees at one node. -/
def keyAt (scan : ScanPlan ι) (j : Nat) (t : Tree ι) : Option String :=
  if scan.collects j then t.key else none

theorem gatherAll_at {scan : ScanPlan ι} (j : Nat) (ts : List (Tree ι)) :
    (gatherAll (slot scan) (merge scan) [] ts).filter (·.index == j) =
      gatherAll (keyAt scan j) (merge scan) [] (ts.filter (·.index == j)) := by
  rw [filter_gatherAll (fun x t => by rw [merge_index])
    fun x t h => by rw [show t.index = x.index from congrArg Prod.fst h]]
  refine gatherAll_congr (P := fun t => t.index = j) (fun x t ht => (merge_index scan x t).trans ht)
    (fun x t hx ht => ?_) (by simp) fun x hx => beq_iff_eq.1 (List.mem_filter.1 hx).2
  rw [slot, slot, Prod.mk.injEq, hx, ht, keyAt, keyAt]
  exact and_iff_right rfl

/-- The groups of the trees at a node that stand below the given ones. -/
def groupsAt (scan : ScanPlan ι) (ts : List (Tree ι)) (j : Nat) : List (List (Tree ι)) :=
  groupsBy (keyAt scan j) (childrenAt ts j)

theorem groupsAt_single {scan : ScanPlan ι} {ts : List (Tree ι)} {j : Nat}
    (hj : scan.collects j = false) (hne : childrenAt ts j ≠ []) :
    groupsAt scan ts j = [childrenAt ts j] :=
  groupsBy_of_forall (k := none) (fun t _ => by rw [keyAt, hj]; rfl) hne

/-- Below a merged tree there is one tree for each group, in the order of the groups. -/
theorem mergedOf_childrenAt {scan : ScanPlan ι} {t u : Tree ι} {rest : List (Tree ι)}
    (hn : (t.children.map (slot scan)).Nodup) (hk : ∀ v ∈ rest, ∀ c ∈ v.children, Keyed scan c)
    (h : mergedOf (merge scan) (t :: rest) = some u) (j : Nat) :
    List.Forall₂ (fun g c => mergedOf (merge scan) g = some c) (groupsAt scan (t :: rest) j)
      (u.children.filter (·.index == j)) := by
  rw [mergedOf_children hn hk h, gatherAll_at]
  exact forall₂_gatherAll (fun x t => by rw [keyAt, keyAt, merge_key]) _

end Tree

end

end Orm
