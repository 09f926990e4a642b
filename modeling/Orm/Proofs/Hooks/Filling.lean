import Orm.Proofs.Fault.Instance
import Orm.Proofs.Statement
import Orm.Verb.Writing

/-
An instance that the database has filled in: some of its fields were written, all others read as
before, and what could be read can be read still (`Instance.Filled`). A field that was written can be
read because a relation reads as the key to which the value went. So an instance of which a hook could
be told before its INSERT is one of which it can be told afterwards, and the two events differ only in
what was written (`WriteEvent.ofInstance_filled`).
-/

namespace Orm

variable {ι : Type} {schema : Schema ι}

namespace Instance

/-! ## Reading -/

theorem slotValueOf_eq (fault : Error) (name : String) (slots : List (String × Slot ι)) :
    slotValueOf schema fault name slots =
      match slots.lookup name with
      | none => .error fault
      | some s => slotValue schema fault s := by
  induction slots with
  | nil => rfl
  | cons p slots ih =>
    obtain ⟨n, s⟩ := p
    rw [slotValueOf, List.lookup_cons, ih]
    by_cases h : n = name
    · rw [if_pos h, beq_iff_eq.2 h.symm]
    · rw [if_neg h, beq_eq_false_iff_ne.2 (Ne.symm h)]

theorem value_eq (x : Instance ι) (name : String) :
    x.value schema name =
      match (schema x.model).field? name with
      | none => .error (unknown schema x name)
      | some f =>
        if f.hasColumn then
          match x.slot? name with
          | none => .error (unknown schema x name)
          | some s => slotValue schema (unknown schema x name) s
        else .error (unknown schema x name) := by
  obtain ⟨m, slots, annotations⟩ := x
  simp only [value, slotValueOf_eq]
  rfl

theorem key_eq (x : Instance ι) :
    x.key schema =
      match (schema x.model).pk? with
      | none => .ok .null
      | some pk => x.value schema pk.name := by
  obtain ⟨m, slots, annotations⟩ := x
  cases hpk : (schema m).pk? with
  | none => simp only [key, hpk]
  | some pk => simp only [key, value, hpk]

/-- The value of a field depends on its slot alone. -/
theorem value_congr {x x' : Instance ι} {name : String} (hm : x'.model = x.model)
    (hs : x'.slot? name = x.slot? name) : x'.value schema name = x.value schema name := by
  rw [value_eq, value_eq, unknown, unknown, hm, hs]

theorem value_eq_ok {x : Instance ι} {name : String} {v : Value} :
    x.value schema name = .ok v ↔
      ∃ f s, (schema x.model).field? name = some f ∧ f.hasColumn = true ∧ x.slot? name = some s ∧
        slotValue schema (unknown schema x name) s = .ok v := by
  rw [value_eq]
  constructor
  · intro h
    split at h
    · cases h
    · rename_i f hf
      split at h
      · rename_i hc
        split at h
        · cases h
        · rename_i s hs
          exact ⟨f, s, hf, hc, hs, h⟩
      · cases h
  · rintro ⟨f, s, hf, hc, hs, h⟩
    rw [hf, hs]
    exact (if_pos hc).trans h

/-! ## A field that is written -/

/-- The field has a slot, and an instance in it has a key. -/
def Fillable (schema : Schema ι) (x : Instance ι) (name : String) : Prop :=
  ∃ s, x.slot? name = some s ∧ ∀ y, s = .one (some y) → ∃ k, y.key schema = .ok k

theorem Fillable.of_value {x : Instance ι} {name : String} {v : Value}
    (h : x.value schema name = .ok v) : x.Fillable schema name := by
  obtain ⟨f, s, -, -, hs, hv⟩ := value_eq_ok.1 h
  refine ⟨s, hs, fun y hy => ⟨v, ?_⟩⟩
  rw [hy, slotValue] at hv
  exact hv

/-- The instance to which a relation's key is written has a slot for its own key. -/
theorem Fillable.relatedOrNew {x : Instance ι} {name : String} (h : x.Fillable schema name)
    (target : ι) {pk : FieldDef ι}
    (hpk : (schema (x.relatedOrNew schema name target).model).pk? = some pk) :
    (x.relatedOrNew schema name target).Fillable schema pk.name := by
  obtain ⟨s, hs, hkey⟩ := h
  unfold Instance.relatedOrNew at hpk ⊢
  split at hpk
  · rename_i y hy
    obtain ⟨k, hk⟩ := hkey y (Option.some.inj (hs.symm.trans hy))
    rw [key_eq, hpk] at hk
    exact .of_value hk
  · have hfound : ((schema target).field? pk.name).isSome := by
      rw [Model.field?, List.find?_isSome]
      exact ⟨pk, List.mem_of_find?_eq_some hpk, beq_self_eq_true _⟩
    obtain ⟨f, hf⟩ := Option.isSome_iff_exists.1 hfound
    refine ⟨Slot.empty f, ?_, fun y hy => absurd hy (Slot.empty_ne_one f y)⟩
    rw [slot?_new, hf, Option.map_some]

/-- A field reads as what is put into its slot. -/
theorem value_withSlot {x : Instance ι} {name : String} {f : FieldDef ι} {old s : Slot ι} {w : Value}
    (hf : (schema x.model).field? name = some f) (hc : f.hasColumn = true)
    (hold : x.slot? name = some old) (hs : slotValue schema (unknown schema x name) s = .ok w) :
    (x.withSlot name s).value schema name = .ok w := by
  refine value_eq_ok.2 ⟨f, s, hf, hc, ?_, hs⟩
  rw [slot?_withSlot, if_pos rfl, hold, Option.map_some]

/-- An instance behind a relation is read as its key. -/
theorem slotValue_one {y : Instance ι} {pk : FieldDef ι} {w : Value} {fault : Error}
    (hpk : (schema y.model).pk? = some pk) (hw : y.value schema pk.name = .ok w) :
    slotValue schema fault (.one (some y)) = .ok w := by
  rw [slotValue, key_eq, hpk]
  exact hw

/-- A field that has been written can be read. -/
theorem Assigned.readable {x x' : Instance ι} {name : String} {v : Value} {result : Result Unit}
    (h : Assigned schema v x name x' result) (hok : result = .ok ()) (hx : x.Fillable schema name) :
    ∃ w, x'.value schema name = .ok w := by
  have column {f : FieldDef ι} {r : Relation ι} (hr : f.relation = some r)
      (hown : r.ownsColumn = true) : f.hasColumn = true := by rwa [FieldDef.hasColumn, hr]
  induction h with
  | refused | keyless => cases hok
  | @scalar _ _ f w hf hr _ =>
    obtain ⟨old, hold, -⟩ := hx
    have hc : f.hasColumn = true := by rw [FieldDef.hasColumn, hr]
    exact ⟨w, value_withSlot hf hc hold (by rw [slotValue])⟩
  | cleared hf hr hown _ =>
    obtain ⟨old, hold, -⟩ := hx
    exact ⟨.null, value_withSlot hf (column hr hown) hold (by rw [slotValue])⟩
  | behind hf hr hown _ hpk hy ih =>
    obtain ⟨w, hw⟩ := ih hok (hx.relatedOrNew _ hpk)
    obtain ⟨old, hold, -⟩ := hx
    rw [← hy.model] at hpk
    exact ⟨w, value_withSlot hf (column hr hown) hold (slotValue_one hpk hw)⟩

/-! ## Several fields -/

/-- The second instance is the first one, but for the fields of these names. -/
structure Filled (schema : Schema ι) (names : List String) (x x' : Instance ι) : Prop where
  model : x'.model = x.model
  others : ∀ name ∉ names, x'.value schema name = x.value schema name
  readable : ∀ name v, x.value schema name = .ok v → ∃ w, x'.value schema name = .ok w

namespace Filled

variable {names : List String} {x y z : Instance ι}

theorem refl (names : List String) (x : Instance ι) : x.Filled schema names x :=
  ⟨rfl, fun _ _ => rfl, fun _ v h => ⟨v, h⟩⟩

theorem trans (h : x.Filled schema names y) (h' : y.Filled schema names z) :
    x.Filled schema names z where
  model := h'.model.trans h.model
  others name hn := (h'.others name hn).trans (h.others name hn)
  readable name v hv := by
    obtain ⟨w, hw⟩ := h.readable name v hv
    exact h'.readable name w hw

theorem setValue {name : String} {v w : Value} (hn : name ∈ names)
    (hx : x.value schema name = .ok w) (h : x.setValue schema name v = (y, .ok ())) :
    x.Filled schema names y := by
  have hy := setValueIn_assigned h
  have others (n : String) (hne : n ≠ name) : y.value schema n = x.value schema n :=
    value_congr hy.model (hy.slot? hne)
  refine ⟨hy.model, fun n hn' => others n fun he => hn' (he ▸ hn), fun n u hu => ?_⟩
  by_cases he : n = name
  · rw [he]
    exact hy.readable rfl (.of_value hx)
  · exact ⟨u, (others n he).trans hu⟩

end Filled

/-- A field that the database is left to fill in when the instance is inserted. -/
def Generated (schema : Schema ι) (x : Instance ι) (f : FieldDef ι) : Prop :=
  f ∈ (schema x.model).columnFields ∧
    ∃ v, x.value schema f.name = .ok v ∧ leftToDatabase f v = true

theorem generated_of_compileInsert {x : Instance ι} {c : Compiled ι}
    (h : compileInsert schema x.model x = .ok c) : ∀ f ∈ c.returning, x.Generated schema f := by
  obtain ⟨fields, hfields, rfl⟩ := compileInsert_cases h
  intro f hf
  obtain ⟨⟨f, v⟩, hmem, rfl⟩ := List.mem_map.1 hf
  obtain ⟨hmem, hleft⟩ := List.mem_filter.1 hmem
  obtain ⟨g, hg, hv⟩ := mem_of_mapM_eq_ok hfields _ hmem
  simp only [bind_eq_ok, pure_eq_ok, Prod.mk.injEq] at hv
  obtain ⟨w, hw, rfl, rfl⟩ := hv
  exact ⟨hg, w, hw, hleft⟩

end Instance

/-! ## Events -/

/-- The event of the same instance once the database has filled it in: it differs in the values of
the generated columns, and in the primary key if that is one of them. -/
structure WriteEvent.FilledIn (schema : Schema ι) (x : Instance ι) (e e' : WriteEvent) : Prop where
  rest : e' = { e with pk := e'.pk, values := e'.values }
  pk : e'.pk = e.pk ∨
    ∃ pk f, (schema x.model).pk? = some pk ∧ x.Generated schema f ∧ f.name = pk.name
  values : List.Forall₂ (fun old new =>
    new.1 = old.1 ∧ (new.2 = old.2 ∨ ∃ f, x.Generated schema f ∧ f.name = old.1)) e.values e'.values

theorem Instance.Filled.value_or {x x' : Instance ι} {fields : List (FieldDef ι)}
    (hg : ∀ f ∈ fields, x.Generated schema f) (h : x.Filled schema (fields.map (·.name)) x')
    {name : String} {v : Value} (hv : x.value schema name = .ok v) :
    ∃ w, x'.value schema name = .ok w ∧ (w = v ∨ ∃ f, x.Generated schema f ∧ f.name = name) := by
  by_cases hn : name ∈ fields.map (·.name)
  · obtain ⟨f, hf, hname⟩ := List.mem_map.1 hn
    obtain ⟨w, hw⟩ := h.readable name v hv
    exact ⟨w, hw, .inr ⟨f, hg f hf, hname⟩⟩
  · exact ⟨v, (h.others name hn).trans hv, .inl rfl⟩

theorem Instance.Filled.key_or {x x' : Instance ι} {fields : List (FieldDef ι)}
    (hg : ∀ f ∈ fields, x.Generated schema f) (h : x.Filled schema (fields.map (·.name)) x')
    {k : Value} (hk : x.key schema = .ok k) :
    ∃ k', x'.key schema = .ok k' ∧ (k' = k ∨
      ∃ pk f, (schema x.model).pk? = some pk ∧ x.Generated schema f ∧ f.name = pk.name) := by
  rw [key_eq] at hk
  rw [key_eq, h.model]
  cases hpk : (schema x.model).pk? with
  | none =>
    rw [hpk] at hk
    exact ⟨.null, rfl, .inl (Except.ok.inj hk)⟩
  | some pk =>
    rw [hpk] at hk
    obtain ⟨k', hk', hsame⟩ := h.value_or hg hk
    exact ⟨k', hk', hsame.imp_right fun ⟨f, hf, hname⟩ => ⟨pk, f, rfl, hf, hname⟩⟩

theorem Instance.Filled.values_or {x x' : Instance ι} {fields : List (FieldDef ι)}
    (hg : ∀ f ∈ fields, x.Generated schema f) (h : x.Filled schema (fields.map (·.name)) x')
    {values : List (String × Value)} (hv : x.values schema = .ok values) :
    ∃ values', x'.values schema = .ok values' ∧ List.Forall₂ (fun old new =>
      new.1 = old.1 ∧ (new.2 = old.2 ∨ ∃ f, x.Generated schema f ∧ f.name = old.1))
      values values' := by
  rw [Instance.values] at hv ⊢
  rw [h.model]
  generalize (schema x.model).columnFields = columns at hv ⊢
  induction columns generalizing values with
  | nil =>
    rw [List.mapM_nil, pure_eq_ok] at hv
    exact ⟨[], rfl, hv ▸ .nil⟩
  | cons f columns ih =>
    simp only [List.mapM_cons, bind_eq_ok, pure_eq_ok] at hv
    obtain ⟨_, ⟨v, hv, rfl⟩, rest, hrest, rfl⟩ := hv
    obtain ⟨w, hw, hsame⟩ := h.value_or hg hv
    obtain ⟨rest', hrest', hall⟩ := ih hrest
    refine ⟨(f.name, w) :: rest', ?_, .cons ⟨rfl, hsame⟩ hall⟩
    simp only [List.mapM_cons, bind_eq_ok, pure_eq_ok]
    exact ⟨_, ⟨w, hw, rfl⟩, rest', hrest', rfl⟩

/-- A hook can be told of the instance once it is filled in. -/
theorem WriteEvent.ofInstance_filled {x x' : Instance ι} {fields : List (FieldDef ι)}
    (hg : ∀ f ∈ fields, x.Generated schema f) (h : x.Filled schema (fields.map (·.name)) x')
    {driver : String} {created : Bool} {e : WriteEvent}
    (he : ofInstance schema driver x created = .ok e) :
    ∃ e', ofInstance schema driver x' created = .ok e' ∧ e.FilledIn schema x e' := by
  simp only [ofInstance, bind_eq_ok, pure_eq_ok] at he
  obtain ⟨k, hk, values, hvalues, rfl⟩ := he
  obtain ⟨k', hk', hkey⟩ := h.key_or hg hk
  obtain ⟨values', hvalues', hall⟩ := h.values_or hg hvalues
  refine ⟨{ table := (schema x'.model).table, modelName := (schema x'.model).modelName, driver,
            pk := k', values := values', created }, ?_, ?_, hkey, hall⟩
  · simp only [ofInstance, bind_eq_ok, pure_eq_ok]
    exact ⟨k', hk', values', hvalues', rfl⟩
  · rw [h.model]

end Orm
