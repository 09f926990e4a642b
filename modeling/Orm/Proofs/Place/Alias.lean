import Mathlib.Data.List.Induction
import Mathlib.Data.List.Nodup
import Orm.Proofs.Legible.Digits
import Orm.Proofs.Resolving

/-
Aliases form a tree: each belongs to one relation of one parent alias, so an alias that is not the
root's says by which relations it is reached.
-/

namespace Orm.Aliases

/-! ## Fresh names -/

theorem candidate_injective {relation target : String} {m n : Nat}
    (h : candidate relation target m = candidate relation target n) : m = n :=
  Text.nat_toString_injective ((String.append_right_inj _).1 h)

theorem freshOrdinal_cases (used : List String) (name : Nat → String) : ∀ fuel n : Nat,
    name (freshOrdinal used name fuel n) ∉ used ∨
      ∀ i, n < i → i ≤ n + fuel + 1 → name i ∈ used
  | 0, n => by
    by_cases h : name (n + 1) ∈ used
    · refine .inr fun i hn hi => ?_
      obtain rfl : i = n + 1 := by omega
      exact h
    · exact .inl h
  | fuel + 1, n => by
    rw [freshOrdinal]
    by_cases h : name (n + 1) ∈ used
    · rw [if_pos (List.contains_iff_mem.2 h)]
      obtain hf | hf := freshOrdinal_cases used name fuel (n + 1)
      · exact .inl hf
      · refine .inr fun i hn hi => ?_
        by_cases hi' : i = n + 1
        · exact hi' ▸ h
        · exact hf i (by omega) (by omega)
    · rw [if_neg fun hc => h (List.contains_iff_mem.1 hc)]
      exact .inl h

/-- Of more candidates than there are names in use one is free, and it is found. -/
theorem freshOrdinal_fresh (used : List String) (relation target : String) (n : Nat) :
    candidate relation target (freshOrdinal used (candidate relation target) used.length n) ∉ used := by
  obtain h | h := freshOrdinal_cases used (candidate relation target) used.length n
  · exact h
  · have hsub : (List.range' (n + 1) (used.length + 1)).map (candidate relation target) ⊆ used := by
      intro name hname
      obtain ⟨i, hi, rfl⟩ := List.mem_map.1 hname
      have := List.mem_range'_1.1 hi
      exact h i (by omega) (by omega)
    have hnodup : ((List.range' (n + 1) (used.length + 1)).map (candidate relation target)).Nodup :=
      List.Pairwise.map _ (fun i j hij he => hij (candidate_injective he)) List.nodup_range'
    have := hnodup.length_le_of_subset hsub
    rw [List.length_map, List.length_range'] at this
    omega

/-! ## The tree -/

theorem lookup_cons_ite {α : Type} (key k : String × String) (x : α)
    (rest : List ((String × String) × α)) :
    ((k, x) :: rest).lookup key = if key = k then some x else rest.lookup key := by
  rw [List.lookup_cons]
  by_cases hk : key = k
  · simp [hk]
  · rw [beq_false_of_ne hk, if_neg hk]

/-- Each alias in use is assigned, and none twice. -/
structure Sound (a : Aliases) : Prop where
  used : a.used = a.assigned.map (·.2)
  nodup : a.used.Nodup

/-- Names given out stay given out. -/
structure Extends (a b : Aliases) : Prop where
  assigned : ∀ k y, a.assigned.lookup k = some y → b.assigned.lookup k = some y
  used : a.used ⊆ b.used

theorem sound_empty : Sound {} := ⟨rfl, List.nodup_nil⟩

theorem Extends.refl (a : Aliases) : Extends a a := ⟨fun _ _ h => h, fun _ h => h⟩

theorem Extends.trans {a b c : Aliases} (h : Extends a b) (h' : Extends b c) : Extends a c :=
  ⟨fun k y hk => h'.assigned k y (h.assigned k y hk), fun _ hy => h'.used (h.used hy)⟩

/-- The alias at the end of the relations that start at an alias. -/
def follow (a : Aliases) : String → List String → Option String
  | x, [] => some x
  | x, k :: ks => (a.assigned.lookup (x, k)).bind fun y => a.follow y ks

variable {a b : Aliases} {x y : String} {k : String} {ks ks' : List String}

theorem follow_append (x : String) (ks ks' : List String) :
    a.follow x (ks ++ ks') = (a.follow x ks).bind fun y => a.follow y ks' := by
  induction ks generalizing x with
  | nil => rfl
  | cons k ks ih =>
    rw [List.cons_append, follow, follow, Option.bind_assoc]
    exact congrArg _ (funext ih)

theorem follow_snoc (x k : String) (ks : List String) :
    a.follow x (ks ++ [k]) = (a.follow x ks).bind fun y => a.assigned.lookup (y, k) := by
  rw [follow_append]
  congr 1
  funext y
  simp [follow]

theorem Extends.follow (h : Extends a b) (hf : a.follow x ks = some y) : b.follow x ks = some y := by
  induction ks generalizing x with
  | nil => exact hf
  | cons k ks ih =>
    rw [Aliases.follow, Option.bind_eq_some_iff] at hf ⊢
    obtain ⟨z, hz, hf⟩ := hf
    exact ⟨z, h.assigned _ _ hz, ih hf⟩

theorem mem_of_lookup (h : a.assigned.lookup (x, k) = some y) : ((x, k), y) ∈ a.assigned := by
  obtain ⟨_, _, hl, -⟩ := List.lookup_eq_some_iff.1 h
  simp [hl]

theorem Sound.mem_used (hs : a.Sound) (h : a.assigned.lookup (x, k) = some y) : y ∈ a.used := by
  rw [hs.used]
  exact List.mem_map_of_mem (mem_of_lookup h)

theorem Sound.follow_mem_used (hs : a.Sound) (h : a.follow x ks = some y) (hne : ks ≠ []) :
    y ∈ a.used := by
  obtain ⟨ks, k, rfl⟩ := (List.eq_nil_or_concat ks).resolve_left hne
  rw [List.concat_eq_append, follow_snoc, Option.bind_eq_some_iff] at h
  obtain ⟨z, -, hz⟩ := h
  exact hs.mem_used hz

/-- An alias belongs to one relation of one parent. -/
theorem Sound.parent_unique (hs : a.Sound) {x' k' : String} (h : a.assigned.lookup (x, k) = some y)
    (h' : a.assigned.lookup (x', k') = some y) : x = x' ∧ k = k' := by
  have hn := hs.nodup
  rw [hs.used] at hn
  have := List.inj_on_of_nodup_map hn (mem_of_lookup h) (mem_of_lookup h') rfl
  simpa using this

/-- An alias says by which relations it is reached from the root. -/
theorem Sound.follow_injective (hs : a.Sound) (hx : x ∉ a.used) (h : a.follow x ks = some y)
    (h' : a.follow x ks' = some y) : ks = ks' := by
  induction ks using List.reverseRecOn generalizing ks' y with
  | nil =>
    by_contra hne
    cases h
    exact hx (hs.follow_mem_used h' fun he => hne he.symm)
  | append_singleton ks k ih =>
    obtain rfl | ⟨ks', k', rfl⟩ := List.eq_nil_or_concat ks'
    · cases h'
      exact absurd (hs.follow_mem_used h (by simp)) hx
    · rw [List.concat_eq_append] at h' ⊢
      rw [follow_snoc, Option.bind_eq_some_iff] at h h'
      obtain ⟨z, hz, hk⟩ := h
      obtain ⟨z', hz', hk'⟩ := h'
      obtain ⟨rfl, rfl⟩ := hs.parent_unique hk hk'
      rw [ih hz hz']

/-! ## Naming -/

/-- A relation of a parent keeps its alias, and a relation without one gets an alias not in use. -/
theorem tableAlias_cases (a : Aliases) (x table k target : String) :
    (∃ y, a.assigned.lookup (x, k) = some y ∧ a.tableAlias x table k target = (y, a)) ∨
    (a.assigned.lookup (x, k) = none ∧ ∃ y b, y ∉ a.used ∧ a.tableAlias x table k target = (y, b) ∧
      b.assigned = ((x, k), y) :: a.assigned ∧ b.used = y :: a.used) := by
  unfold tableAlias
  cases h : a.assigned.lookup (x, k) with
  | some y => exact .inl ⟨y, rfl, rfl⟩
  | none => exact .inr ⟨rfl, _, _, freshOrdinal_fresh _ _ _ _, rfl, rfl, rfl⟩

theorem Sound.assign (hs : a.Sound) {y : String} (hy : y ∉ a.used)
    (ha : b.assigned = ((x, k), y) :: a.assigned) (hu : b.used = y :: a.used) : b.Sound := by
  refine ⟨?_, ?_⟩
  · rw [hu, ha, List.map_cons, hs.used]
  · rw [hu]
    exact List.nodup_cons.2 ⟨hy, hs.nodup⟩

theorem Extends.assign {y : String} (hn : a.assigned.lookup (x, k) = none)
    (ha : b.assigned = ((x, k), y) :: a.assigned) (hu : b.used = y :: a.used) : Extends a b := by
  refine ⟨fun key z hz => ?_, fun z hz => hu ▸ List.mem_cons_of_mem y hz⟩
  rw [ha, lookup_cons_ite]
  by_cases hk : key = (x, k)
  · rw [hk, hn] at hz
    cases hz
  · rwa [if_neg hk]

/-- What naming one relation comes to: it has the name, and nothing else is new. -/
theorem Sound.tableAlias (hs : a.Sound) (x table k target : String) :
    let (y, b) := a.tableAlias x table k target
    b.Sound ∧ Extends a b ∧ b.assigned.lookup (x, k) = some y ∧
      ∀ key z, b.assigned.lookup key = some z → a.assigned.lookup key = some z ∨ key = (x, k) := by
  obtain ⟨y, hy, ht⟩ | ⟨hnone, y, b, hfresh, ht, hb, hu⟩ := tableAlias_cases a x table k target
  · rw [ht]
    exact ⟨hs, .refl a, hy, fun _ _ h => .inl h⟩
  · rw [ht]
    refine ⟨hs.assign hfresh hb hu, .assign hnone hb hu, by rw [hb, List.lookup_cons_self], ?_⟩
    intro key z hz
    rw [hb, lookup_cons_ite] at hz
    by_cases hk : key = (x, k)
    · exact .inr hk
    · rw [if_neg hk] at hz
      exact .inl hz

end Orm.Aliases
