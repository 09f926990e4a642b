import Orm.Proofs.Place.Joined
import Orm.Proofs.Statement

/-
The nodes of a projection stand at places: each has the alias of its place, below the node of the place
before it, and each column of the result is a field of a node (`ScanAt`).
-/

namespace Orm

variable {ι : Type} {schema : Schema ι} {root : ι}

/-! ## Lists that grow at the end -/

theorem getElem?_append_of_some {α : Type} {l : List α} {i : Nat} {a : α} (h : l[i]? = some a)
    (more : List α) : (l ++ more)[i]? = some a := by
  rw [List.getElem?_append_left (List.getElem?_eq_some_iff.1 h).1]
  exact h

theorem getElem?_concat_cases {α : Type} {l : List α} {i : Nat} {a b : α}
    (h : (l ++ [a])[i]? = some b) : l[i]? = some b ∨ i = l.length ∧ b = a := by
  rcases Nat.lt_or_ge i l.length with hi | hi
  · rw [List.getElem?_append_left hi] at h
    exact .inl h
  · have hlt := (List.getElem?_eq_some_iff.1 h).1
    rw [List.length_append, List.length_singleton] at hlt
    obtain rfl : i = l.length := by omega
    rw [List.getElem?_concat_length, Option.some.injEq] at h
    exact .inr ⟨rfl, h.symm⟩

/-! ## Places and their aliases -/

theorem Placed.prefix_of_keys_eq (hk : JoinKeysDistinct schema) {a : Aliases} {c d : List (Hop ι)}
    (hc : Placed schema root a c) (hd : Placed schema root a d)
    (h : chainKeys schema c = chainKeys schema d) : c <+: d := by
  obtain rfl | ⟨c, g, rfl⟩ := List.eq_nil_or_concat c
  · exact List.nil_prefix
  · rw [List.concat_eq_append] at hc h ⊢
    obtain ⟨es, hes, hrel, -, -⟩ := hc.placeSteps_snoc
    obtain ⟨ks, hks⟩ := Hop.keys_eq_cons hes hrel
    obtain ⟨⟨m, hl⟩, hedges⟩ := hc.joinable
    obtain ⟨⟨m', hl'⟩, hedges'⟩ := hd.joinable
    refine chain_prefix_of_keys hk hl hedges hl' hedges' ?_
    rw [← h, chainKeys_append]
    exact (List.prefix_append_right_inj _).2 (by simp [chainKeys, hks])

/-- Two places with one alias are one place. -/
theorem Placed.placeAlias_injective (hk : JoinKeysDistinct schema) {a : Aliases} (hs : a.Sound)
    (hr : (schema root).table ∉ a.used) {c d : List (Hop ι)} (hc : Placed schema root a c)
    (hd : Placed schema root a d) (h : a.placeAlias schema root c = a.placeAlias schema root d) :
    c = d := by
  have hkeys := hs.follow_injective hr hc.reaches (h ▸ hd.reaches)
  have hcd := hc.prefix_of_keys_eq hk hd hkeys
  exact hcd.eq_of_length (Nat.le_antisymm hcd.length_le (hd.prefix_of_keys_eq hk hc hkeys.symm).length_le)

/-! ## Nodes -/

/-- The node with that index stands at a place. -/
inductive NodeAt (schema : Schema ι) (root : ι) (a : Aliases) (places : List (List (Hop ι))) :
    Nat → ScanNode ι → List (Hop ι) → Prop
  | root {n : ScanNode ι} : n.parent = none → n.relation = none → n.model = root →
      n.tableAlias = (schema root).table → NodeAt schema root a places 0 n []
  | below {i p : Nat} {n : ScanNode ι} {c : List (Hop ι)} {h : Hop ι} : p < i →
      places[p]? = some c → n.parent = some p → n.relation = some h.field →
      n.model = h.relation.target → n.tableAlias = a.placeAlias schema root (c ++ [h]) →
      NodeAt schema root a places i n (c ++ [h])

namespace NodeAt

variable {a b : Aliases} {places more : List (List (Hop ι))} {i : Nat} {n : ScanNode ι}
  {c : List (Hop ι)}

theorem tableAlias (h : NodeAt schema root a places i n c) :
    n.tableAlias = a.placeAlias schema root c := by
  cases h with
  | root _ _ _ ht => exact ht
  | below _ _ _ _ _ ht => exact ht

theorem extend (h : NodeAt schema root a places i n c) (hc : Placed schema root a c)
    (he : Aliases.Extends a b) : NodeAt schema root b places i n c := by
  cases h with
  | root hp hr hm ht => exact .root hp hr hm ht
  | below hlt hplace hp hr hm ht => exact .below hlt hplace hp hr hm (ht.trans (hc.placeAlias_eq he).symm)

theorem append (h : NodeAt schema root a places i n c) :
    NodeAt schema root a (places ++ more) i n c := by
  cases h with
  | root hp hr hm ht => exact .root hp hr hm ht
  | below hlt hplace hp hr hm ht =>
    exact .below hlt (getElem?_append_of_some hplace more) hp hr hm ht

theorem withPkEntry (h : NodeAt schema root a places i n c) (k : Option Nat) :
    NodeAt schema root a places i { n with pkEntry := k } c := by
  cases h with
  | root hp hr hm ht => exact .root hp hr hm ht
  | below hlt hplace hp hr hm ht => exact .below hlt hplace hp hr hm ht

/-- The model of a node is the one that its place leads to. -/
theorem model (h : NodeAt schema root a places i n c) {m : ι} (hl : Leads schema root c m) :
    n.model = m := by
  cases h with
  | root _ _ hm _ => exact hm.trans hl
  | below _ _ _ _ hm _ =>
    obtain ⟨k, -, -, -, -, htarget⟩ := hl.of_append
    exact hm.trans htarget

end NodeAt

/-- A field that is a column of the model at a node, under the name that it has in the result. -/
def FieldEntry (schema : Schema ι) (s : ScanPlan ι) (e : ScanEntry ι) (i : Nat) (f : FieldDef ι) :
    Prop :=
  ∃ n, s.nodes[i]? = some n ∧ f ∈ (schema n.model).fields ∧
    (f.hasColumn = true ∨ f.primaryKey = true) ∧
    e = ⟨Aliases.columnAlias n.tableAlias f.column, .field i f⟩

/-- Every node of a projection stands at a place of its own, the root at that of the root. -/
structure ScanAt (schema : Schema ι) (root : ι) (a : Aliases) (s : ScanPlan ι)
    (places : List (List (Hop ι))) : Prop where
  nodup : places.Nodup
  length : s.nodes.length = places.length
  head : places[0]? = some []
  placed : ∀ c ∈ places, Placed schema root a c
  node : ∀ i n c, s.nodes[i]? = some n → places[i]? = some c → NodeAt schema root a places i n c
  entry : ∀ e ∈ s.entries, ∃ i f, FieldEntry schema s e i f
  pkEntry : ∀ i n k, s.nodes[i]? = some n → n.pkEntry = some k →
    ∃ e f, s.entries[k]? = some e ∧ FieldEntry schema s e i f ∧ f.primaryKey = true
  keyed : ∀ e ∈ s.entries, ∀ i f, e.target = .field i f → f.primaryKey = true →
    ∃ n, s.nodes[i]? = some n ∧ n.pkEntry.isSome = true

namespace ScanAt

variable {a b : Aliases} {s : ScanPlan ι} {places : List (List (Hop ι))} {i : Nat}
  {n : ScanNode ι} {c : List (Hop ι)}

theorem withRoot (a : Aliases) :
    ScanAt schema root a (.withRoot root (schema root).table) [[]] where
  nodup := List.nodup_singleton _
  length := rfl
  head := rfl
  placed c hc := List.mem_singleton.1 hc ▸ .nil a
  node i n c hn hc := by
    cases i with
    | succ i => simp at hc
    | zero =>
      cases hn
      cases hc
      exact .root rfl rfl rfl rfl
  entry e he := absurd he List.not_mem_nil
  pkEntry i n k hn hk := by
    cases i with
    | succ i => simp [ScanPlan.withRoot] at hn
    | zero =>
      cases hn
      cases hk
  keyed e he := absurd he List.not_mem_nil

theorem extend (h : ScanAt schema root a s places) (he : Aliases.Extends a b) :
    ScanAt schema root b s places where
  nodup := h.nodup
  length := h.length
  head := h.head
  placed c hc := (h.placed c hc).extend he
  node i n c hn hc := (h.node i n c hn hc).extend (h.placed c (List.mem_of_getElem? hc)) he
  entry := h.entry
  pkEntry := h.pkEntry
  keyed := h.keyed

theorem node_of_place (h : ScanAt schema root a s places) (hc : places[i]? = some c) :
    ∃ n, s.nodes[i]? = some n ∧ NodeAt schema root a places i n c := by
  have hlt : i < s.nodes.length := h.length ▸ (List.getElem?_eq_some_iff.1 hc).1
  exact ⟨s.nodes[i], List.getElem?_eq_getElem hlt, h.node i _ c (List.getElem?_eq_getElem hlt) hc⟩

theorem place_of_node (h : ScanAt schema root a s places) (hn : s.nodes[i]? = some n) :
    ∃ c, places[i]? = some c ∧ NodeAt schema root a places i n c := by
  have hlt : i < places.length := h.length ▸ (List.getElem?_eq_some_iff.1 hn).1
  exact ⟨places[i], List.getElem?_eq_getElem hlt, h.node i n _ hn (List.getElem?_eq_getElem hlt)⟩

end ScanAt

/-- The nodes of the first plan are nodes of the second, with keys of their own. -/
def NodesKept (s t : ScanPlan ι) : Prop :=
  ∀ (i : Nat) (n : ScanNode ι), s.nodes[i]? = some n →
    ∃ k, t.nodes[i]? = some { n with pkEntry := k }

theorem FieldEntry.kept {s t : ScanPlan ι} {e : ScanEntry ι} {i : Nat} {f : FieldDef ι}
    (h : FieldEntry schema s e i f) (hk : NodesKept s t) : FieldEntry schema t e i f := by
  obtain ⟨n, hn, hf, hcol, rfl⟩ := h
  obtain ⟨k, hn'⟩ := hk i n hn
  exact ⟨_, hn', hf, hcol, rfl⟩

theorem NodesKept.refl (s : ScanPlan ι) : NodesKept s s := fun _ n hn => ⟨n.pkEntry, hn⟩

theorem NodesKept.trans {s t u : ScanPlan ι} (h : NodesKept s t) (h' : NodesKept t u) :
    NodesKept s u := by
  intro i n hn
  obtain ⟨k, hk⟩ := h i n hn
  obtain ⟨l, hl⟩ := h' i { n with pkEntry := k } hk
  exact ⟨l, hl⟩

theorem NodesKept.append (s : ScanPlan ι) (more : List (ScanNode ι)) :
    NodesKept s { s with nodes := s.nodes ++ more } :=
  fun _ n hn => ⟨n.pkEntry, getElem?_append_of_some hn more⟩

theorem getElem?_setPkEntry (nodes : List (ScanNode ι)) (i k j : Nat) :
    (ScanPlan.setPkEntry nodes i k)[j]? =
      if i = j then nodes[j]?.map fun n => { n with pkEntry := some k } else nodes[j]? := by
  rw [ScanPlan.setPkEntry, List.getElem?_modify]
  split
  · rfl
  · simp

/-- A node once the key of one has its column. -/
theorem setPkEntry_cases {nodes : List (ScanNode ι)} {i k j : Nat} {n : ScanNode ι}
    (h : (ScanPlan.setPkEntry nodes i k)[j]? = some n) :
    ∃ m, nodes[j]? = some m ∧ (n = m ∨ n = { m with pkEntry := some k } ∧ j = i) := by
  rw [getElem?_setPkEntry] at h
  split at h
  case isTrue hij =>
    obtain ⟨m, hm, rfl⟩ := Option.map_eq_some_iff.1 h
    exact ⟨m, hm, .inr ⟨rfl, hij.symm⟩⟩
  case isFalse => exact ⟨n, h, .inl rfl⟩

/-- A node whose key has a column keeps one. -/
theorem setPkEntry_isSome {nodes : List (ScanNode ι)} {j : Nat} {n : ScanNode ι}
    (hn : nodes[j]? = some n) (hkey : n.pkEntry.isSome = true) (i k : Nat) :
    ∃ m, (ScanPlan.setPkEntry nodes i k)[j]? = some m ∧ m.pkEntry.isSome = true := by
  rw [getElem?_setPkEntry, hn]
  split
  · exact ⟨_, rfl, rfl⟩
  · exact ⟨n, rfl, hkey⟩

theorem ScanPlan.project_nodesKept (s : ScanPlan ι) (i : Nat) (f : FieldDef ι) (dedupe : Bool) :
    NodesKept s (s.project i f dedupe) := by
  obtain he | ⟨n, hn, -, he⟩ := s.project_cases i f dedupe
  · rw [he]
    exact fun j m hm => ⟨m.pkEntry, hm⟩
  · rw [he]
    intro j m hm
    dsimp only
    split
    · rw [getElem?_setPkEntry, hm]
      split
      · exact ⟨_, rfl⟩
      · exact ⟨m.pkEntry, rfl⟩
    · exact ⟨m.pkEntry, hm⟩

theorem ScanAt.project {a : Aliases} {s : ScanPlan ι} {places : List (List (Hop ι))} {i : Nat}
    {f : FieldDef ι} (h : ScanAt schema root a s places)
    (hf : ∀ n, s.nodes[i]? = some n → f ∈ (schema n.model).fields)
    (hcol : f.hasColumn = true ∨ f.primaryKey = true) (dedupe : Bool) : ScanAt schema root a (s.project i f dedupe) places := by
  obtain he | ⟨n, hn, -, he⟩ := s.project_cases i f dedupe
  · rwa [he]
  rw [he]
  have hnode : ∀ j m, (if f.primaryKey then ScanPlan.setPkEntry s.nodes i s.entries.length
      else s.nodes)[j]? = some m → ∃ m', s.nodes[j]? = some m' ∧
        (m = m' ∨ m = { m' with pkEntry := some s.entries.length } ∧ j = i ∧
          f.primaryKey = true) := by
    intro j m hm
    split at hm
    case isTrue hpk =>
      obtain ⟨m', hm', rfl | ⟨rfl, hj⟩⟩ := setPkEntry_cases hm
      · exact ⟨m, hm', .inl rfl⟩
      · exact ⟨m', hm', .inr ⟨rfl, hj, hpk⟩⟩
    case isFalse => exact ⟨m, hm, .inl rfl⟩
  have hkept := s.project_nodesKept i f dedupe
  rw [he] at hkept
  have hnew : FieldEntry schema s ⟨Aliases.columnAlias n.tableAlias f.column, .field i f⟩ i f :=
    ⟨n, hn, hf n hn, hcol, rfl⟩
  refine ⟨h.nodup, ?_, h.head, h.placed, ?_, ?_, ?_, ?_⟩
  · rw [← h.length]
    dsimp only
    split
    · exact List.length_modify ..
    · rfl
  · intro j m c hm hc
    obtain ⟨m', hm', rfl | ⟨rfl, -⟩⟩ := hnode j m hm
    · exact h.node j _ c hm' hc
    · exact (h.node j _ c hm' hc).withPkEntry _
  · intro e he
    rcases List.mem_append.1 he with he | he
    · obtain ⟨j, g, hg⟩ := h.entry e he
      exact ⟨j, g, hg.kept hkept⟩
    · rw [List.mem_singleton.1 he]
      exact ⟨i, f, hnew.kept hkept⟩
  · intro j m k hm hk
    obtain ⟨m', hm', rfl | ⟨rfl, rfl, hpk⟩⟩ := hnode j m hm
    · obtain ⟨e, g, he, hg, hpk⟩ := h.pkEntry j _ k hm' hk
      exact ⟨e, g, getElem?_append_of_some he _, hg.kept hkept, hpk⟩
    · obtain rfl := Option.some.inj hk
      exact ⟨_, f, by simp, hnew.kept hkept, hpk⟩
  · intro e he j g hg hpk
    dsimp only
    rcases List.mem_append.1 he with he | he
    · obtain ⟨m, hm, hkey⟩ := h.keyed e he j g hg hpk
      split
      · exact setPkEntry_isSome hm hkey ..
      · exact ⟨m, hm, hkey⟩
    · rw [List.mem_singleton.1 he] at hg
      obtain ⟨rfl, rfl⟩ := ScanTarget.field.inj hg
      rw [if_pos hpk, getElem?_setPkEntry, if_pos rfl, hn]
      exact ⟨_, rfl, rfl⟩

theorem ScanAt.projectAll {a : Aliases} {s : ScanPlan ι} {places : List (List (Hop ι))} {i : Nat}
    {fields : List (FieldDef ι)} (h : ScanAt schema root a s places)
    (hf : ∀ f ∈ fields, f.hasColumn = true ∧
      ∀ n, s.nodes[i]? = some n → f ∈ (schema n.model).fields) (dedupe : Bool) :
    ScanAt schema root a (s.projectAll i fields dedupe) places := by
  induction fields generalizing s with
  | nil => exact h
  | cons f fields ih =>
    obtain ⟨hcol, hmem⟩ := hf f List.mem_cons_self
    refine ih (h.project hmem (.inl hcol) dedupe) fun g hg => ⟨(hf g (List.mem_cons_of_mem f hg)).1, ?_⟩
    intro n hn
    have hlt : i < s.nodes.length := by
      rw [h.length, ← (h.project hmem (.inl hcol) dedupe).length]
      exact (List.getElem?_eq_some_iff.1 hn).1
    obtain ⟨k, hk⟩ := s.project_nodesKept i f dedupe i _ (List.getElem?_eq_getElem hlt)
    obtain rfl := Option.some.inj (hn.symm.trans hk)
    exact (hf g (List.mem_cons_of_mem f hg)).2 s.nodes[i] (List.getElem?_eq_getElem hlt)

/-! ## Adding nodes -/

/-- A node below that of the place before it can be added at a place that has none. -/
theorem ScanAt.addNode {a : Aliases} {s : ScanPlan ι} {places : List (List (Hop ι))} {p : Nat}
    {base : List (Hop ι)} {h : Hop ι} (hs : ScanAt schema root a s places)
    (hp : places[p]? = some base) (hc : Placed schema root a (base ++ [h]))
    (hfresh : base ++ [h] ∉ places) :
    ScanAt schema root a { s with nodes := s.nodes ++ [⟨some p, some h.field, h.relation.target,
      a.placeAlias schema root (base ++ [h]), none⟩] } (places ++ [base ++ [h]]) where
  nodup := List.nodup_append.2 ⟨hs.nodup, List.nodup_singleton _, by
    rintro d hd e he rfl
    exact hfresh (List.mem_singleton.1 he ▸ hd)⟩
  length := by simp [hs.length]
  head := getElem?_append_of_some hs.head _
  placed d hd := by
    rcases List.mem_append.1 hd with hd | hd
    · exact hs.placed d hd
    · exact List.mem_singleton.1 hd ▸ hc
  node i n d hn hd := by
    obtain hn | ⟨rfl, rfl⟩ := getElem?_concat_cases hn
    · obtain ⟨c, hplace, hnode⟩ := hs.place_of_node hn
      obtain rfl := Option.some.inj (hd.symm.trans (getElem?_append_of_some hplace _))
      exact hnode.append
    · rw [hs.length, List.getElem?_concat_length, Option.some.injEq] at hd
      subst hd
      have hlt := (List.getElem?_eq_some_iff.1 hp).1
      exact .below (hs.length ▸ hlt) (getElem?_append_of_some hp _) rfl rfl rfl rfl
  entry e he := by
    obtain ⟨i, f, hf⟩ := hs.entry e he
    exact ⟨i, f, hf.kept (.append s _)⟩
  pkEntry i n k hn hkey := by
    obtain hn | ⟨-, rfl⟩ := getElem?_concat_cases hn
    · obtain ⟨e, f, he, hf, hpk⟩ := hs.pkEntry i n k hn hkey
      exact ⟨e, f, he, hf.kept (.append s _), hpk⟩
    · cases hkey
  keyed e he i f hf hpk := by
    obtain ⟨n, hn, hkey⟩ := hs.keyed e he i f hf hpk
    exact ⟨n, getElem?_append_of_some hn _, hkey⟩

/-- A projection with a node at one place more, if it had none there. -/
theorem ScanAt.ensureNode (hk : JoinKeysDistinct schema) {a : Aliases} (ha : a.Sound)
    (hr : (schema root).table ∉ a.used) {s : ScanPlan ι} {places : List (List (Hop ι))} {p : Nat}
    {base : List (Hop ι)} {h : Hop ι} (hs : ScanAt schema root a s places)
    (hp : places[p]? = some base) (hc : Placed schema root a (base ++ [h])) :
    ∃ more, (∀ c, c ∈ places ++ more ↔ c ∈ places ∨ c = base ++ [h]) ∧
      ScanAt schema root a (s.ensureNode p h.field h.relation.target
        (a.placeAlias schema root (base ++ [h]))).1 (places ++ more) ∧
      (places ++ more)[(s.ensureNode p h.field h.relation.target
        (a.placeAlias schema root (base ++ [h]))).2]? = some (base ++ [h]) := by
  unfold ScanPlan.ensureNode
  split
  · rename_i i hi
    obtain ⟨hlt, halias, -⟩ := List.findIdx?_eq_some_iff_getElem.1 hi
    obtain ⟨c, hplace, hnode⟩ := hs.place_of_node (List.getElem?_eq_getElem hlt)
    have hc' := hs.placed c (List.mem_of_getElem? hplace)
    obtain rfl : c = base ++ [h] := hc'.placeAlias_injective hk ha hr hc
      (hnode.tableAlias.symm.trans (by simpa using halias))
    refine ⟨[], fun d => ?_, by rwa [List.append_nil], by rwa [List.append_nil]⟩
    rw [List.append_nil]
    refine ⟨.inl, ?_⟩
    rintro (hd | rfl)
    · exact hd
    · exact List.mem_of_getElem? hplace
  · rename_i hnone
    have hfresh : base ++ [h] ∉ places := by
      intro hmem
      obtain ⟨i, hi⟩ := List.mem_iff_getElem?.1 hmem
      obtain ⟨n, hn, hnode⟩ := hs.node_of_place hi
      have := List.findIdx?_eq_none_iff.1 hnone n (List.mem_of_getElem? hn)
      simp [hnode.tableAlias] at this
    refine ⟨[base ++ [h]], fun d => by simp, hs.addNode hp hc hfresh, ?_⟩
    rw [hs.length, List.getElem?_concat_length]

theorem ScanAt.ensureChain (hk : JoinKeysDistinct schema) {a : Aliases} (ha : a.Sound)
    (hr : (schema root).table ∉ a.used) {s : ScanPlan ι} {places : List (List (Hop ι))} {p : Nat}
    {base rest : List (Hop ι)} (hs : ScanAt schema root a s places) (hp : places[p]? = some base)
    (hc : Placed schema root a (base ++ rest)) :
    ∃ more, (∀ c, c ∈ places ++ more ↔ c ∈ places ∨ c ∈ placesFrom base rest) ∧
      ScanAt schema root a (Orm.ensureChain schema s p
        (rest.zip ((placesFrom base rest).map (a.placeAlias schema root)))).1 (places ++ more) ∧
      (places ++ more)[(Orm.ensureChain schema s p
        (rest.zip ((placesFrom base rest).map (a.placeAlias schema root)))).2]? =
          some (base ++ rest) := by
  induction rest generalizing s places p base with
  | nil =>
    refine ⟨[], fun c => by simp [placesFrom], ?_, ?_⟩
    · rw [List.append_nil]
      exact hs
    · rw [List.append_nil, List.append_nil]
      exact hp
  | cons h rest ih =>
    have hc' : Placed schema root a (base ++ [h] ++ rest) := by simpa using hc
    obtain ⟨first, hfirst, hs', hp'⟩ := hs.ensureNode hk ha hr hp
      (hc'.of_prefix (List.prefix_append _ _))
    obtain ⟨more, hmore, hs'', hp''⟩ := ih hs' hp' hc'
    refine ⟨first ++ more, fun c => ?_, ?_, ?_⟩
    · rw [← List.append_assoc, hmore, hfirst, placesFrom, List.mem_cons, or_assoc]
    · rw [← List.append_assoc]
      exact hs''
    · rw [List.append_assoc base] at hp''
      rw [← List.append_assoc]
      exact hp''

/-- The key that is projected for rows that joins multiply is a column of the root. -/
theorem ScanAt.withKey {a : Aliases} {s : ScanPlan ι} {places : List (List (Hop ι))}
    (h : ScanAt schema root a s places) (dedupe multiplied : Bool) :
    ScanAt schema root a (s.keyed schema root dedupe multiplied) places := by
  have hgroup : ∀ {s : ScanPlan ι} (g : Bool), ScanAt schema root a s places →
      ScanAt schema root a { s with groupRows := g } places :=
    fun g h => ⟨h.nodup, h.length, h.head, h.placed, h.node, h.entry, h.pkEntry, h.keyed⟩
  unfold ScanPlan.keyed
  dsimp only
  split
  · rename_i pk hpk
    split
    · refine hgroup _ (h.project (fun n hn => ?_) (.inr ?_) dedupe)
      · obtain ⟨c, hc, hat⟩ := h.place_of_node hn
        obtain rfl := Option.some.inj (hc.symm.trans h.head)
        rw [hat.model rfl]
        exact Model.pk_mem (Model.pk_eq_ok.2 hpk)
      · exact Model.pk_primaryKey (Model.pk_eq_ok.2 hpk)
    · exact hgroup _ h
  · exact hgroup _ h

end Orm
