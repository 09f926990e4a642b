import Orm.Instance
import Orm.Proofs.Path

/-
What writing to an instance changes: a slot by its name (`Instance.slot?_withSlot`), and only attaching an
instance puts anything into a collection (`Instance.Bare`).
-/

namespace Orm

variable {ι : Type} {schema : Schema ι}

/-- Nothing stands behind a relation to begin with. -/
theorem Slot.empty_ne_one (f : FieldDef ι) (y : Instance ι) : Slot.empty f ≠ .one (some y) := by
  intro h
  unfold Slot.empty at h
  split at h
  · cases h
  · split at h <;> cases h

/-- A field with a column is not kept in a collection. -/
theorem Slot.empty_ne_many {f : FieldDef ι} (hc : f.hasColumn = true) (rs : List (Instance ι)) :
    Slot.empty f ≠ .many rs := by
  intro h
  unfold Slot.empty at h
  cases hr : f.relation with
  | none =>
    rw [hr] at h
    cases h
  | some r =>
    have hown : r.ownsColumn = true := by rwa [FieldDef.hasColumn, hr] at hc
    rw [hr] at h
    dsimp only at h
    rw [Relation.toMany_eq_false hown, if_neg Bool.false_ne_true] at h
    cases h

/-- An instance with a slot for every field and nothing in its collections. -/
structure Instance.Bare (schema : Schema ι) (x : Instance ι) : Prop where
  names : x.slots.map (·.1) = (schema x.model).fields.map (·.name)
  collections : ∀ name rs, x.slot? name = some (.many rs) → rs = []

theorem setSlot_names (slots : List (String × Slot ι)) (name : String) (s : Slot ι) :
    (Instance.setSlot slots name s).map (·.1) = slots.map (·.1) := by
  rw [Instance.setSlot, List.map_map]
  refine List.map_congr_left fun p _ => ?_
  obtain ⟨n, old⟩ := p
  dsimp only [Function.comp_apply]
  split <;> rfl

theorem Instance.slot?_withSlot (x : Instance ι) (name n : String) (s : Slot ι) :
    (x.withSlot name s).slot? n = if n = name then (x.slot? name).map fun _ => s else x.slot? n := by
  rw [slot?, slot?, slot?, withSlot]
  dsimp only
  induction x.slots with
  | nil => simp [setSlot]
  | cons p slots ih =>
    obtain ⟨m, old⟩ := p
    rw [setSlot, List.map_cons, ← setSlot]
    dsimp only
    by_cases hm : m = name
    · subst hm
      rw [if_pos rfl, List.lookup_cons, List.lookup_cons, List.lookup_cons, ih]
      by_cases hn : n = m
      · simp [hn]
      · simp [hn, beq_eq_false_iff_ne.2 hn]
    · rw [if_neg hm, List.lookup_cons, List.lookup_cons, List.lookup_cons, ih]
      by_cases hn : n = name
      · subst hn
        simp [beq_eq_false_iff_ne.2 (Ne.symm hm)]
      · simp [hn]

/-- A relation of the model has a slot. -/
theorem Instance.exists_slot {x : Instance ι} {name : String} {toMany : Bool} {r : Relation ι}
    (hn : x.slots.map (·.1) = (schema x.model).fields.map (·.name))
    (hr : x.relation? schema name toMany = some r) : ∃ s, x.slot? name = some s := by
  obtain ⟨hr, -⟩ := Option.filter_eq_some_iff.1 hr
  obtain ⟨f, hf, -⟩ := Option.bind_eq_some_iff.1 hr
  have hname : name ∈ x.slots.map (·.1) := by
    rw [hn]
    exact List.mem_map.2 ⟨f, Model.field?_eq_some hf⟩
  obtain ⟨p, hp, rfl⟩ := List.mem_map.1 hname
  cases h : x.slot? p.1 with
  | some s => exact ⟨s, rfl⟩
  | none => simpa using List.lookup_eq_none_iff.1 h p hp

theorem Instance.Bare.new (schema : Schema ι) (model : ι) : (Instance.new schema model).Bare schema where
  names := by simp [Instance.new]
  collections name rs h := by
    obtain ⟨before, after, hslots, -⟩ := List.lookup_eq_some_iff.1 h
    have hmem : (name, Slot.many rs) ∈ (Instance.new schema model).slots := by simp [hslots]
    obtain ⟨f, -, hf⟩ := List.mem_map.1 hmem
    obtain ⟨-, hs⟩ := Prod.mk.inj hf
    rw [Slot.empty] at hs
    split at hs
    · cases hs
    · split at hs
      · cases hs
        rfl
      · cases hs

theorem Instance.Bare.withSlot {x : Instance ι} (h : x.Bare schema) (name : String) {s : Slot ι}
    (hs : ∀ rs, s ≠ .many rs) : (x.withSlot name s).Bare schema where
  names := (setSlot_names x.slots name s).trans h.names
  collections n rs hn := by
    rw [slot?_withSlot] at hn
    split at hn
    · obtain ⟨-, -, rfl⟩ := Option.map_eq_some_iff.1 hn
      exact absurd rfl (hs rs)
    · exact h.collections n rs hn

/-! ## Writing values -/

/-- What writing a value comes to: the instance that it leaves, and the result. -/
inductive Instance.Assigned (schema : Schema ι) (v : Value) :
    Instance ι → String → Instance ι → Result Unit → Prop
  | refused (x : Instance ι) (name : String) (e : Error) : Assigned schema v x name x (.error e)
  | scalar {x : Instance ι} {name : String} {f : FieldDef ι} {w : Value} :
    (schema x.model).field? name = some f → f.relation = none → f.storage.read v = .ok w →
    Assigned schema v x name (x.withSlot name (.scalar w)) (.ok ())
  | cleared {x : Instance ι} {name : String} {f : FieldDef ι} {r : Relation ι} :
    (schema x.model).field? name = some f → f.relation = some r → r.ownsColumn = true →
    v.isNull = true → Assigned schema v x name (x.withSlot name (.one none)) (.ok ())
  | keyless {x : Instance ι} {name : String} {f : FieldDef ι} {r : Relation ι} (e : Error) :
    (schema x.model).field? name = some f → f.relation = some r → r.ownsColumn = true →
    (schema (x.relatedOrNew schema name r.target).model).pk? = none →
    Assigned schema v x name (x.withSlot name (.one (some (x.relatedOrNew schema name r.target))))
      (.error e)
  /-- A key goes on to the instance behind the relation, which stays there if it cannot be written. -/
  | behind {x y : Instance ι} {name : String} {f pk : FieldDef ι} {r : Relation ι}
    {result : Result Unit} :
    (schema x.model).field? name = some f → f.relation = some r → r.ownsColumn = true →
    v.isNull = false → (schema (x.relatedOrNew schema name r.target).model).pk? = some pk →
    Assigned schema v (x.relatedOrNew schema name r.target) pk.name y result →
    Assigned schema v x name (x.withSlot name (.one (some y))) result

theorem Instance.setValueIn_assigned {depth : Nat} {x x' : Instance ι} {name : String} {v : Value}
    {result : Result Unit} (h : setValueIn schema depth x name v = (x', result)) :
    Assigned schema v x name x' result := by
  induction depth generalizing x x' name with
  | zero =>
    cases h
    exact .refused ..
  | succ depth ih =>
    unfold setValueIn at h
    split at h
    case h_1 =>
      cases h
      exact .refused ..
    case h_2 f hf =>
      split at h
      case h_1 hr =>
        split at h
        case h_1 w hw =>
          cases h
          exact .scalar hf hr hw
        case h_2 =>
          cases h
          exact .refused ..
      case h_2 r hr =>
        split at h
        case isTrue =>
          cases h
          exact .refused ..
        case isFalse hown =>
          have hown : r.ownsColumn = true := by simpa using hown
          split at h
          case isTrue hnull =>
            cases h
            exact .cleared hf hr hown hnull
          case isFalse hnull =>
            obtain ⟨rfl, hresult⟩ := Prod.mk.inj h
            cases hpk : (schema (x.relatedOrNew schema name r.target).model).pk? with
            | none =>
              rw [hpk] at hresult
              exact hresult ▸ .keyless _ hf hr hown hpk
            | some pk =>
              rw [hpk] at hresult
              exact .behind hf hr hown (Bool.eq_false_iff.2 hnull) hpk (ih (Prod.ext rfl hresult))

namespace Instance.Assigned

variable {x x' : Instance ι} {name : String} {v : Value} {result : Result Unit}

/-- No more than one slot is written. -/
theorem eq_or_withSlot (h : Assigned schema v x name x' result) :
    x' = x ∨ ∃ s, (∀ rs, s ≠ .many rs) ∧ x' = x.withSlot name s := by
  cases h with
  | refused => exact .inl rfl
  | scalar | cleared | keyless | behind =>
    refine .inr ⟨_, ?_, rfl⟩
    exact fun _ => nofun

theorem model (h : Assigned schema v x name x' result) : x'.model = x.model := by
  obtain rfl | ⟨s, -, rfl⟩ := h.eq_or_withSlot <;> rfl

/-- Writing a field leaves the slots of the others as they are. -/
theorem slot? (h : Assigned schema v x name x' result) {n : String} (hne : n ≠ name) :
    x'.slot? n = x.slot? n := by
  obtain rfl | ⟨s, -, rfl⟩ := h.eq_or_withSlot
  · rfl
  · rw [slot?_withSlot, if_neg hne]

/-- Writing a value never fills a collection. -/
theorem bare (h : Assigned schema v x name x' result) (hx : x.Bare schema) : x'.Bare schema := by
  obtain rfl | ⟨s, hs, rfl⟩ := h.eq_or_withSlot
  · exact hx
  · exact hx.withSlot name hs

end Instance.Assigned

theorem Instance.setValue_assigned (schema : Schema ι) (x : Instance ι) (name : String) (v : Value) :
    Assigned schema v x name (x.setValue schema name v).1 (x.setValue schema name v).2 :=
  setValueIn_assigned rfl

theorem Instance.Bare.setValue {x : Instance ι} (h : x.Bare schema) (name : String) (v : Value) :
    (x.setValue schema name v).1.Bare schema :=
  (setValue_assigned schema x name v).bare h

/-! ## Attaching -/

section

variable [DecidableEq ι] {x y related : Instance ι} {name : String}

theorem Instance.ofModel_eq_ok {target : ι} (h : related.ofModel schema target = .ok y) :
    y = related := by
  rw [Instance.ofModel] at h
  split at h
  · exact (Except.ok.inj h).symm
  · cases h

theorem Instance.pushRelated_ok (h : x.pushRelated schema name related = (y, .ok ())) :
    ∃ r rs, x.relation? schema name true = some r ∧ x.slot? name = some (.many rs) ∧
      y = x.withSlot name (.many (rs ++ [related])) := by
  rw [Instance.pushRelated] at h
  split at h
  · rename_i r rs hr hs
    split at h
    · rename_i z hz
      obtain ⟨rfl, -⟩ := Prod.mk.inj h
      exact ⟨r, rs, hr, hs, by rw [ofModel_eq_ok hz]⟩
    · exact absurd (Prod.mk.inj h).2 nofun
  · exact absurd (Prod.mk.inj h).2 nofun

theorem Instance.setRelated_ok (h : x.setRelated schema name (some related) = (y, .ok ())) :
    ∃ r, x.relation? schema name false = some r ∧ y = x.withSlot name (.one (some related)) := by
  rw [Instance.setRelated] at h
  split at h
  · exact absurd (Prod.mk.inj h).2 nofun
  · rename_i r hr
    dsimp only at h
    split at h
    · rename_i z hz
      obtain ⟨rfl, -⟩ := Prod.mk.inj h
      exact ⟨r, hr, by rw [ofModel_eq_ok hz]⟩
    · exact absurd (Prod.mk.inj h).2 nofun

end

end Orm
