import Orm.Proofs.Hooks.Filling

/-
A field to which nothing has been written reads as NULL does in it, and one that is written for the
first time reads as the value does (`Instance.Assigned.fresh`). A relation passes the value on to the
key of its target, so it is that key's type which decides (`FieldDef.Coerces`).

Fields are written one by one, up to the first that fails (`Instance.fillAll`). Whatever comes of it, the
other fields are as they were (`fillAll_sameBut`). Where it fails, the fields before the one that failed
have been written and stay so (`fillAll_failed`); where it does not, each field holds its value as fields
hold values (`fillAll_holds`).
-/

namespace Orm

section

variable {ι : Type} {schema : Schema ι}

/-- NULL is kept as the default. -/
theorem Storage.read_null (s : Storage) : s.read .null = .ok s.default := by
  unfold read default
  split <;> rfl

theorem Value.eq_null {v : Value} (h : v.isNull = true) : v = .null := by
  cases v with
  | null => rfl
  | _ => cases h

/-- A value as a field holds it. A relation holds it as the key of its target does. -/
inductive FieldDef.Coerces (schema : Schema ι) : FieldDef ι → Value → Value → Prop
  | scalar {f : FieldDef ι} {v w : Value} : f.relation = none → f.storage.read v = .ok w →
      Coerces schema f v w
  | null {f : FieldDef ι} {r : Relation ι} : f.relation = some r → Coerces schema f .null .null
  | key {f pk : FieldDef ι} {r : Relation ι} {v w : Value} : f.relation = some r →
      v.isNull = false → (schema r.target).pk? = some pk → Coerces schema pk v w →
      Coerces schema f v w

/-- A field holds a value in one way. -/
theorem FieldDef.Coerces.unique {f : FieldDef ι} {v w w' : Value} (h : f.Coerces schema v w)
    (h' : f.Coerces schema v w') : w = w' := by
  induction h with
  | scalar hr hw =>
    cases h' with
    | scalar _ hw' => exact Except.ok.inj (hw.symm.trans hw')
    | null hr' => cases hr.symm.trans hr'
    | key hr' _ _ _ => cases hr.symm.trans hr'
  | null hr =>
    cases h' with
    | scalar hr' _ => cases hr.symm.trans hr'
    | null _ => rfl
    | key _ hnull _ _ => cases hnull
  | key hr hnull hpk _ ih =>
    cases h' with
    | scalar hr' _ => cases hr.symm.trans hr'
    | null _ => cases hnull
    | key hr' _ hpk' hw' =>
      obtain rfl := Option.some.inj (hr.symm.trans hr')
      obtain rfl := Option.some.inj (hpk.symm.trans hpk')
      exact ih hw'

namespace Instance

theorem slotValue_empty (schema : Schema ι) {f : FieldDef ι} (hc : f.hasColumn = true) (fault : Error) :
    ∃ w, f.Coerces schema .null w ∧ slotValue schema fault (.empty f) = .ok w := by
  unfold Slot.empty
  cases hr : f.relation with
  | none => exact ⟨f.storage.default, .scalar hr f.storage.read_null, by rw [slotValue]⟩
  | some r =>
    have hown : r.ownsColumn = true := by rwa [FieldDef.hasColumn, hr] at hc
    refine ⟨.null, .null hr, ?_⟩
    dsimp only
    rw [Relation.toMany_eq_false hown, if_neg Bool.false_ne_true, slotValue]

/-- A field to which nothing has been written. -/
theorem value_of_empty {x : Instance ι} {f : FieldDef ι} (hf : (schema x.model).field? f.name = some f)
    (hc : f.hasColumn = true) (hs : x.slot? f.name = some (.empty f)) :
    ∃ w, f.Coerces schema .null w ∧ x.value schema f.name = .ok w := by
  obtain ⟨w, hw, hvalue⟩ := slotValue_empty schema hc (unknown schema x f.name)
  exact ⟨w, hw, value_eq_ok.2 ⟨f, _, hf, hc, hs, hvalue⟩⟩

/-- Nothing stands behind a relation to which nothing has been written. -/
theorem relatedOrNew_of_empty {x : Instance ι} {f : FieldDef ι} {r : Relation ι}
    (hs : x.slot? f.name = some (.empty f)) (hr : f.relation = some r) (hown : r.ownsColumn = true)
    (target : ι) : x.relatedOrNew schema f.name target = new schema target := by
  rw [relatedOrNew, hs, Slot.empty, hr]
  dsimp only
  rw [Relation.toMany_eq_false hown, if_neg Bool.false_ne_true]

/-- A field that is written for the first time. -/
theorem Assigned.fresh (hn : FieldNamesDistinct schema) {x x' : Instance ι} {name : String} {v : Value}
    {result : Result Unit} (h : Assigned schema v x name x' result) (hok : result = .ok ())
    {f : FieldDef ι} (hf : (schema x.model).field? name = some f) (hs : x.slot? name = some (.empty f)) :
    ∃ w, f.Coerces schema v w ∧ x'.value schema name = .ok w := by
  induction h generalizing f with
  | refused | keyless => cases hok
  | @scalar x name g w hg hr hw =>
    obtain rfl := Option.some.inj (hf.symm.trans hg)
    have hc : f.hasColumn = true := by rw [FieldDef.hasColumn, hr]
    exact ⟨w, .scalar hr hw, value_withSlot hf hc hs (by rw [slotValue])⟩
  | @cleared x name g r hg hr hown hnull =>
    obtain rfl := Option.some.inj (hf.symm.trans hg)
    have hc : f.hasColumn = true := by rwa [FieldDef.hasColumn, hr]
    rw [Value.eq_null hnull]
    exact ⟨.null, .null hr, value_withSlot hf hc hs (by rw [slotValue])⟩
  | @behind x y name g pk r result hg hr hown hnull hpk hy ih =>
    obtain rfl := Option.some.inj (hf.symm.trans hg)
    have hc : f.hasColumn = true := by rwa [FieldDef.hasColumn, hr]
    obtain ⟨-, rfl⟩ := Model.field?_eq_some hf
    have hypk : (schema y.model).pk? = some pk := hy.model ▸ hpk
    -- nothing stands behind the relation yet, so the key goes to a new instance
    rw [relatedOrNew_of_empty hs hr hown] at hpk ih
    have hpk : (schema r.target).pk? = some pk := hpk
    have hfield : (schema r.target).field? pk.name = some pk :=
      hn.field?_eq (List.mem_of_find?_eq_some hpk)
    obtain ⟨w, hw, hvalue⟩ := ih hok hfield (by rw [slot?_new, hfield, Option.map_some])
    exact ⟨w, .key hr hnull hpk hw, value_withSlot hf hc hs (slotValue_one hypk hvalue)⟩

end Instance

end

section

variable {ι : Type} {schema : Schema ι}

namespace Instance

/-- Writes fields, each with what its value comes to, up to the first that fails. -/
def fillAll (schema : Schema ι) : Instance ι → List (FieldDef ι × Result Value) → Outcome ι Unit
  | x, [] => (x, .ok ())
  | x, (_, .error e) :: _ => (x, .error e)
  | x, (f, .ok v) :: rest =>
    match x.setValue schema f.name v with
    | (y, .ok ()) => fillAll schema y rest
    | (y, .error e) => (y, .error e)

/-! ## What stays -/

/-- The second instance is the first one, but for the slots of these names. -/
structure SameBut (names : List String) (x x' : Instance ι) : Prop where
  model : x'.model = x.model
  annotations : x'.annotations = x.annotations
  declared : x'.slots.map (·.1) = x.slots.map (·.1)
  slots : ∀ name ∉ names, x'.slot? name = x.slot? name

namespace SameBut

variable {names more : List String} {x y z : Instance ι}

theorem refl (names : List String) (x : Instance ι) : x.SameBut names x :=
  ⟨rfl, rfl, rfl, fun _ _ => rfl⟩

theorem trans (h : x.SameBut names y) (h' : y.SameBut names z) : x.SameBut names z :=
  ⟨h'.model.trans h.model, h'.annotations.trans h.annotations, h'.declared.trans h.declared,
    fun name hn => (h'.slots name hn).trans (h.slots name hn)⟩

theorem mono (h : x.SameBut names y) (hsub : names ⊆ more) : x.SameBut more y :=
  ⟨h.model, h.annotations, h.declared, fun name hn => h.slots name fun hm => hn (hsub hm)⟩

theorem value (h : x.SameBut names y) {name : String} (hn : name ∉ names) :
    y.value schema name = x.value schema name :=
  value_congr h.model (h.slots name hn)

end SameBut

theorem Assigned.sameBut {x x' : Instance ι} {name : String} {v : Value} {result : Result Unit}
    (h : Assigned schema v x name x' result) : x.SameBut [name] x' := by
  refine ⟨h.model, ?_, ?_, fun n hn => h.slot? fun he => hn (he ▸ List.mem_singleton_self name)⟩
  · obtain rfl | ⟨s, -, rfl⟩ := h.eq_or_withSlot <;> rfl
  · obtain rfl | ⟨s, -, rfl⟩ := h.eq_or_withSlot
    · rfl
    · exact setSlot_names x.slots name s

variable {x x' : Instance ι} {l : List (FieldDef ι × Result Value)} {e : Error}

theorem fillAll_sameBut {r : Result Unit} (h : x.fillAll schema l = (x', r)) :
    x.SameBut (l.map (·.1.name)) x' := by
  induction l generalizing x with
  | nil =>
    cases h
    exact .refl ..
  | cons p rest ih =>
    obtain ⟨f, u | v⟩ := p
    · cases h
      exact .refl ..
    · rw [fillAll] at h
      have hwritten : ∀ y s, x.setValue schema f.name v = (y, s) →
          x.SameBut (f.name :: rest.map (·.1.name)) y := fun y s hy =>
        (setValueIn_assigned hy).sameBut.mono
          (List.cons_subset_cons _ (List.nil_subset _))
      split at h
      case h_1 y hy =>
        exact (hwritten y _ hy).trans ((ih h).mono (List.subset_cons_self _ _))
      case h_2 y e hy =>
        cases h
        exact hwritten _ _ hy

/-- Where the writing fails, all fields before the one that failed have been written. -/
theorem fillAll_failed (h : x.fillAll schema l = (x', .error e)) :
    ∃ before f r after y, l = before ++ (f, r) :: after ∧ x.fillAll schema before = (y, .ok ()) ∧
      (r = .error e ∧ x' = y ∨
        ∃ v, r = .ok v ∧ y.setValue schema f.name v = (x', .error e)) := by
  induction l generalizing x with
  | nil => cases h
  | cons p rest ih =>
    obtain ⟨f, u | v⟩ := p
    · cases h
      exact ⟨[], f, .error e, rest, _, rfl, rfl, .inl ⟨rfl, rfl⟩⟩
    · rw [fillAll] at h
      split at h
      case h_1 y hy =>
        obtain ⟨before, g, r, after, z, rfl, hz, hr⟩ := ih h
        refine ⟨(f, .ok v) :: before, g, r, after, z, rfl, ?_, hr⟩
        rw [fillAll, hy]
        exact hz
      case h_2 y e hy =>
        cases h
        exact ⟨[], f, .ok v, rest, x, rfl, rfl, .inr ⟨v, rfl, hy⟩⟩

/-! ## What is written -/

/-- A field has a slot. -/
theorem Typed.exists_slot (hx : x.Typed schema) {name : String} {f : FieldDef ι}
    (hf : (schema x.model).field? name = some f) : ∃ s, x.slot? name = some s := by
  have hname : name ∈ x.slots.map (·.1) := by
    rw [hx.names]
    exact List.mem_map.2 ⟨f, Model.field?_eq_some hf⟩
  obtain ⟨p, hp, rfl⟩ := List.mem_map.1 hname
  cases h : x.slot? p.1 with
  | some s => exact ⟨s, rfl⟩
  | none => simpa using List.lookup_eq_none_iff.1 h p hp

/-- A field that is written reads as the value does in it, whatever it held before. -/
theorem Assigned.coerced (hn : FieldNamesDistinct schema) {name : String} {v : Value}
    {result : Result Unit} (h : Assigned schema v x name x' result) (hok : result = .ok ())
    (hx : x.Typed schema) {f : FieldDef ι} (hf : (schema x.model).field? name = some f) :
    ∃ w, f.Coerces schema v w ∧ x'.value schema name = .ok w := by
  induction h generalizing f with
  | refused | keyless => cases hok
  | @scalar x name g w hg hr hw =>
    obtain rfl := Option.some.inj (hf.symm.trans hg)
    obtain ⟨s, hs⟩ := hx.exists_slot hf
    have hc : f.hasColumn = true := by rw [FieldDef.hasColumn, hr]
    exact ⟨w, .scalar hr hw, value_withSlot hf hc hs (by rw [slotValue])⟩
  | @cleared x name g r hg hr hown hnull =>
    obtain rfl := Option.some.inj (hf.symm.trans hg)
    obtain ⟨s, hs⟩ := hx.exists_slot hf
    have hc : f.hasColumn = true := by rwa [FieldDef.hasColumn, hr]
    rw [Value.eq_null hnull]
    exact ⟨.null, .null hr, value_withSlot hf hc hs (by rw [slotValue])⟩
  | @behind x y name g pk r result hg hr hown hnull hpk hy ih =>
    obtain rfl := Option.some.inj (hf.symm.trans hg)
    obtain ⟨s, hs⟩ := hx.exists_slot hf
    have hc : f.hasColumn = true := by rwa [FieldDef.hasColumn, hr]
    have hypk : (schema y.model).pk? = some pk := hy.model ▸ hpk
    -- the key goes to an instance of the relation's target, the one that is there or a new one
    have hrelation : x.relation? schema name false = some r := by
      rw [relation?, hf, Option.bind_some, hr, Option.filter_eq_some_iff,
        Relation.toMany_eq_false hown]
      exact ⟨rfl, rfl⟩
    obtain ⟨htyped, hmodel⟩ := hx.relatedOrNew hrelation
    have hfield := hn.field?_eq (List.mem_of_find?_eq_some hpk)
    obtain ⟨w, hw, hvalue⟩ := ih hok htyped hfield
    rw [hmodel] at hpk
    exact ⟨w, .key hr hnull hpk hw, value_withSlot hf hc hs (slotValue_one hypk hvalue)⟩

/-- Where all fields could be written, each holds its value. -/
theorem fillAll_holds (hn : FieldNamesDistinct schema) (hx : x.Typed schema)
    (hfields : ∀ p ∈ l, p.1 ∈ (schema x.model).columnFields)
    (hdistinct : (l.map (·.1.name)).Nodup) (h : x.fillAll schema l = (x', .ok ())) :
    ∀ p ∈ l, ∃ v w, p.2 = .ok v ∧ p.1.Coerces schema v w ∧ x'.value schema p.1.name = .ok w := by
  induction l generalizing x with
  | nil => exact fun p hp => absurd hp List.not_mem_nil
  | cons p rest ih =>
    obtain ⟨f, u | v⟩ := p
    · cases h
    · rw [fillAll] at h
      split at h
      case h_2 => cases h
      case h_1 y hy =>
        obtain ⟨hf, hfields⟩ := List.forall_mem_cons.1 hfields
        obtain ⟨hfirst, hdistinct⟩ := List.nodup_cons.1 hdistinct
        obtain ⟨hmem, hcol⟩ := List.mem_filter.1 hf
        have hassigned := setValueIn_assigned hy
        have htyped := (hx.setValue hn hmem hcol v).typed
        rw [hy] at htyped
        rw [← hassigned.model] at hfields
        refine List.forall_mem_cons.2 ⟨?_, ih htyped hfields hdistinct h⟩
        obtain ⟨w, hw, hvalue⟩ := hassigned.coerced hn rfl hx (hn.field?_eq hmem)
        exact ⟨v, w, rfl, hw, ((fillAll_sameBut h).value hfirst).trans hvalue⟩

end Instance

end

end Orm
