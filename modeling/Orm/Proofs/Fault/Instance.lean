import Orm.Proofs.Fault.Basic
import Orm.Proofs.Instance
import Orm.Proofs.Path

/-
Instances of the shape that their models' fields have. Writing a value keeps the shape and fails only
if the value cannot be read (`Instance.Typed.setValue`); attaching an instance of the right model never
fails (`Instance.Typed.attached`).
-/

namespace Orm

variable {ι : Type} {schema : Schema ι}

/-- Whether the key of a model is kept in columns, behind fewer than so many relations. -/
def keyWithin (schema : Schema ι) : Nat → ι → Bool
  | 0, _ => false
  | depth + 1, i =>
    match (schema i).pk? with
    | none => false
    | some pk =>
      match pk.relation with
      | none => true
      | some r => r.ownsColumn && keyWithin schema depth r.target

/--
Every model has a key in a column of its own. A key may be a relation, so that the key of another model
stands for it, but not without end.
-/
def KeysGrounded (schema : Schema ι) : Prop :=
  ∀ i, keyWithin schema (Instance.maxKeyDepth - 1) i = true

/-- A field that has a column, and if it is a relation one to a model with such a key. -/
def FieldDef.Writable (schema : Schema ι) (depth : Nat) (f : FieldDef ι) : Prop :=
  ∀ r, f.relation = some r → r.ownsColumn = true ∧ keyWithin schema depth r.target = true

theorem keyWithin_cases {depth : Nat} {i : ι} (h : keyWithin schema depth i = true) :
    ∃ d pk, depth = d + 1 ∧ (schema i).pk? = some pk ∧ pk.Writable schema d := by
  cases depth with
  | zero => cases h
  | succ d =>
    rw [keyWithin] at h
    split at h
    · cases h
    · rename_i pk hpk
      refine ⟨d, pk, rfl, hpk, fun r hr => ?_⟩
      rw [hr] at h
      exact Bool.and_eq_true_iff.1 h

theorem KeysGrounded.hasColumn (h : KeysGrounded schema) {i : ι} {pk : FieldDef ι}
    (hpk : (schema i).pk? = some pk) : pk.hasColumn = true := by
  obtain ⟨_, pk', -, hpk', hw⟩ := keyWithin_cases (h i)
  obtain rfl := Option.some.inj (hpk.symm.trans hpk')
  unfold FieldDef.hasColumn
  split
  · rename_i r hr
    exact (hw r hr).1
  · rfl

theorem KeysGrounded.writable (h : KeysGrounded schema) {f : FieldDef ι} (hf : f.hasColumn = true) :
    f.Writable schema (Instance.maxKeyDepth - 1) := by
  intro r hr
  refine ⟨?_, h r.target⟩
  rw [FieldDef.hasColumn, hr] at hf
  exact hf

/-! ## Shapes -/

namespace Instance

/--
An instance with a slot for every field, a list in that of every collection, and behind each single
relation only an instance of the relation's target.
-/
inductive Typed (schema : Schema ι) : Instance ι → Prop
  | intro {x : Instance ι} : x.slots.map (·.1) = (schema x.model).fields.map (·.name) →
      (∀ name r, x.relation? schema name true = some r → ∃ rs, x.slot? name = some (.many rs)) →
      (∀ name r y, x.relation? schema name false = some r → x.slot? name = some (.one (some y)) →
        y.model = r.target) →
      (∀ name y, x.slot? name = some (.one (some y)) → Typed schema y) → Typed schema x

/-- What a slot of that name may hold. -/
structure Holds (schema : Schema ι) (x : Instance ι) (name : String) (s : Slot ι) : Prop where
  many : ∀ r, x.relation? schema name true = some r → ∃ rs, s = .many rs
  model : ∀ r y, x.relation? schema name false = some r → s = .one (some y) → y.model = r.target
  typed : ∀ y, s = .one (some y) → Typed schema y

/-- A slot without an instance of its own. -/
theorem Holds.of_empty {x : Instance ι} {name : String} {s : Slot ι}
    (hmany : ∀ r, x.relation? schema name true = some r → ∃ rs, s = .many rs)
    (hs : ∀ y, s ≠ .one (some y)) : x.Holds schema name s :=
  ⟨hmany, fun _ y _ h => absurd h (hs y), fun y h => absurd h (hs y)⟩

theorem relation?_eq (hn : FieldNamesDistinct schema) {x : Instance ι} {f : FieldDef ι}
    {r : Relation ι} (hf : f ∈ (schema x.model).fields) (hr : f.relation = some r) :
    x.relation? schema f.name r.toMany = some r := by
  rw [relation?, hn.field?_eq hf, Option.bind_some, hr, Option.filter_eq_some_iff]
  exact ⟨rfl, beq_self_eq_true _⟩

/-- A field is a relation to one or to many, not both. -/
theorem relation?_unique {x : Instance ι} {name : String} {f : FieldDef ι} {r r' : Relation ι}
    {toMany : Bool} (hf : (schema x.model).field? name = some f) (hr : f.relation = some r)
    (h : x.relation? schema name toMany = some r') : r' = r ∧ toMany = r.toMany := by
  rw [relation?, hf, Option.bind_some, hr, Option.filter_eq_some_iff] at h
  obtain ⟨hr', hmany⟩ := h
  obtain rfl := Option.some.inj hr'
  exact ⟨rfl, (beq_iff_eq.1 hmany).symm⟩

theorem relation?_none {x : Instance ι} {name : String} {f : FieldDef ι} {toMany : Bool}
    (hf : (schema x.model).field? name = some f) (hr : f.relation = none) :
    x.relation? schema name toMany = none := by
  rw [relation?, hf, Option.bind_some, hr]
  rfl

theorem slot?_new (schema : Schema ι) (m : ι) (name : String) :
    (new schema m).slot? name = ((schema m).field? name).map Slot.empty := by
  unfold slot? new Model.field?
  dsimp only
  induction (schema m).fields with
  | nil => rfl
  | cons f fields ih =>
    rw [List.map_cons, List.lookup_cons, List.find?_cons, ih]
    by_cases hf : f.name = name
    · rw [beq_iff_eq.2 hf, beq_iff_eq.2 hf.symm]
      rfl
    · rw [beq_eq_false_iff_ne.2 hf, beq_eq_false_iff_ne.2 (Ne.symm hf)]

namespace Typed

variable {x : Instance ι}

theorem names (h : x.Typed schema) : x.slots.map (·.1) = (schema x.model).fields.map (·.name) := by
  cases h with
  | intro names _ _ _ => exact names

theorem holds (h : x.Typed schema) {name : String} {s : Slot ι} (hs : x.slot? name = some s) :
    x.Holds schema name s := by
  cases h with
  | intro _ many model under =>
    refine ⟨fun r hr => ?_, fun r y hr hy => ?_, fun y hy => ?_⟩
    · obtain ⟨rs, hrs⟩ := many name r hr
      exact ⟨rs, Option.some.inj (hs.symm.trans hrs)⟩
    · exact model name r y hr (hs.trans (congrArg some hy))
    · exact under name y (hs.trans (congrArg some hy))

theorem of_holds (hn : x.slots.map (·.1) = (schema x.model).fields.map (·.name))
    (h : ∀ name s, x.slot? name = some s → x.Holds schema name s) : x.Typed schema := by
  refine .intro hn (fun name r hr => ?_) (fun name r y hr hy => ?_) fun name y hy => ?_
  · obtain ⟨s, hs⟩ := exists_slot hn hr
    obtain ⟨rs, rfl⟩ := (h name s hs).many r hr
    exact ⟨rs, hs⟩
  · exact (h name _ hy).model r y hr rfl
  · exact (h name _ hy).typed y rfl

theorem new (schema : Schema ι) (m : ι) : (new schema m).Typed schema := by
  refine of_holds (Bare.new schema m).names fun name s hs => ?_
  rw [slot?_new] at hs
  obtain ⟨f, hf, rfl⟩ := Option.map_eq_some_iff.1 hs
  unfold Slot.empty
  cases hr : f.relation with
  | none =>
    refine .of_empty (fun r h => ?_) fun _ => nofun
    have hnone : (Instance.new schema m).relation? schema name true = none := relation?_none hf hr
    exact nomatch hnone.symm.trans h
  | some r =>
    dsimp only
    cases hmany : r.toMany with
    | true =>
      rw [if_pos rfl]
      exact .of_empty (fun _ _ => ⟨[], rfl⟩) fun _ => nofun
    | false =>
      rw [if_neg Bool.false_ne_true]
      refine .of_empty (fun r' h => ?_) fun _ => nofun
      have hwidth := (relation?_unique (x := Instance.new schema m) hf hr h).2
      rw [hmany] at hwidth
      exact nomatch hwidth

/-- A slot may be given whatever it may hold. -/
theorem withSlot (h : x.Typed schema) {name : String} {s : Slot ι} (hs : x.Holds schema name s) :
    (x.withSlot name s).Typed schema := by
  refine of_holds ((setSlot_names x.slots name s).trans h.names) fun n t ht => ?_
  rw [slot?_withSlot] at ht
  by_cases hname : n = name
  · subst hname
    rw [if_pos rfl] at ht
    obtain ⟨-, -, rfl⟩ := Option.map_eq_some_iff.1 ht
    exact ⟨hs.many, hs.model, hs.typed⟩
  · rw [if_neg hname] at ht
    have hold := h.holds ht
    exact ⟨hold.many, hold.model, hold.typed⟩

/-- The instance to which a relation's key is written. -/
theorem relatedOrNew (h : x.Typed schema) {name : String} {r : Relation ι}
    (hr : x.relation? schema name false = some r) :
    (x.relatedOrNew schema name r.target).Typed schema ∧
      (x.relatedOrNew schema name r.target).model = r.target := by
  unfold Instance.relatedOrNew
  split
  · rename_i y hy
    have hold := h.holds hy
    exact ⟨hold.typed y rfl, hold.model r y hr rfl⟩
  · exact ⟨new schema r.target, rfl⟩

end Typed

/-! ## Writing values -/

/-- What writing a value leaves. Where `sound` holds, it fails on a value that cannot be read only. -/
structure Written (schema : Schema ι) (sound : Prop) (x : Instance ι) (out : Outcome ι Unit) :
    Prop where
  typed : out.1.Typed schema
  model : out.1.model = x.model
  ends : Ends (fun e => sound → Unread e) (fun _ => True) out.2

/-- A write that leaves the instance as it was, where nothing is sound. -/
theorem Written.of_unsound {sound : Prop} {x : Instance ι} (hx : x.Typed schema) (h : ¬sound)
    (e : Error) : Written schema sound x (x, .error e) :=
  ⟨hx, rfl, fun hs => absurd hs h⟩

section

variable {x : Instance ι} {name : String} {f : FieldDef ι} {r : Relation ι}

/-- Behind a single relation may stand an instance of its target, or none. -/
theorem Holds.one (hf : (schema x.model).field? name = some f) (hr : f.relation = some r)
    (hsingle : r.toMany = false) {y : Option (Instance ι)}
    (hy : ∀ z, y = some z → z.Typed schema ∧ z.model = r.target) :
    x.Holds schema name (.one y) := by
  refine ⟨fun r' h => ?_, fun r' z h hz => ?_, fun z hz => ?_⟩
  · have hwidth := (relation?_unique hf hr h).2
    rw [hsingle] at hwidth
    cases hwidth
  · rw [(relation?_unique hf hr h).1]
    exact (hy z (Slot.one.inj hz)).2
  · exact (hy z (Slot.one.inj hz)).1

/-- Whatever is written to the instance behind a relation, it stays there. -/
theorem Typed.behind (hx : x.Typed schema) (hf : (schema x.model).field? name = some f)
    (hr : f.relation = some r) (hsingle : r.toMany = false) {y : Instance ι}
    (hy : y.model = r.target) {sound sound' : Prop} {out : Outcome ι Unit}
    (hout : Written schema sound y out) (h : sound' → sound) :
    Written schema sound' x (x.withSlot name (.one (some out.1)), out.2) := by
  refine ⟨hx.withSlot (.one hf hr hsingle fun z hz => ?_), rfl, ?_⟩
  · obtain rfl := Option.some.inj hz
    exact ⟨hout.typed, hout.model.trans hy⟩
  · exact hout.ends.imp (fun _ he hs => he (h hs)) fun _ h => h

end

/-- A key that is written through a relation is written to the instance behind it. -/
theorem setValueIn_written (hn : FieldNamesDistinct schema) (depth : Nat) :
    ∀ {x : Instance ι} {name : String} {f : FieldDef ι} (v : Value), x.Typed schema →
      (schema x.model).field? name = some f →
      Written schema (f.Writable schema depth) x (setValueIn schema (depth + 1) x name v) := by
  induction depth using Nat.strongRecOn with
  | _ depth ih =>
    intro x name f v hx hf
    unfold setValueIn
    rw [hf]
    dsimp only
    cases hr : f.relation with
    | none =>
      dsimp only
      have hread := f.storage.read_ends v
      cases hv : f.storage.read v with
      | error e => exact ⟨hx, rfl, fun _ => hread.fault_of_error hv⟩
      | ok w =>
        refine ⟨hx.withSlot (.of_empty (fun r h => ?_) (by simp)), rfl, trivial⟩
        cases (relation?_none hf hr).symm.trans h
    | some r =>
      dsimp only
      by_cases hown : r.ownsColumn = true
      · have hsingle := Relation.toMany_eq_false hown
        have hrelation : x.relation? schema name false = some r := by
          rw [relation?, hf, Option.bind_some, hr, Option.filter_eq_some_iff, hsingle]
          exact ⟨rfl, rfl⟩
        rw [hown, Bool.not_true, if_neg Bool.false_ne_true]
        by_cases hnull : v.isNull = true
        · rw [if_pos hnull]
          exact ⟨hx.withSlot (.one hf hr hsingle (by simp)), rfl, trivial⟩
        · obtain ⟨htyped, hmodel⟩ := hx.relatedOrNew hrelation
          have hfails : ∀ e, Written schema False _ (x.relatedOrNew schema name r.target, .error e) :=
            Written.of_unsound htyped id
          rw [if_neg hnull, hmodel]
          cases hpk : (schema r.target).pk? with
          | none =>
            refine hx.behind hf hr hsingle hmodel (hfails _) fun hw => ?_
            obtain ⟨_, pk, -, hpk', -⟩ := keyWithin_cases (hw r hr).2
            cases hpk.symm.trans hpk'
          | some pk =>
            cases depth with
            | zero => exact hx.behind hf hr hsingle hmodel (hfails _) fun hw => by cases (hw r hr).2
            | succ depth =>
              have hfield := hn.field?_eq (Model.pk_mem (Model.pk_eq_ok.2 hpk))
              rw [← hmodel] at hfield
              refine hx.behind hf hr hsingle hmodel
                (ih depth (Nat.lt_succ_self depth) v htyped hfield) fun hw => ?_
              obtain ⟨_, pk', hdepth, hpk', hw'⟩ := keyWithin_cases (hw r hr).2
              obtain rfl := Nat.succ.inj hdepth
              obtain rfl := Option.some.inj (hpk.symm.trans hpk')
              exact hw'
      · rw [Bool.eq_false_iff.2 hown, Bool.not_false, if_pos rfl]
        exact .of_unsound hx (fun hw => hown (hw r hr).1) _

theorem Typed.setValue (hn : FieldNamesDistinct schema) {x : Instance ι} (h : x.Typed schema)
    {f : FieldDef ι} (hf : f ∈ (schema x.model).fields) (hcol : f.hasColumn = true) (v : Value) :
    Written schema (KeysGrounded schema) x (x.setValue schema f.name v) := by
  obtain ⟨htyped, hmodel, hends⟩ := setValueIn_written hn (maxKeyDepth - 1) v h (hn.field?_eq hf)
  exact ⟨htyped, hmodel, hends.imp (fun _ h hk => h (hk.writable hcol)) fun _ h => h⟩

/-! ## Attaching instances -/

variable [DecidableEq ι]

/-- An instance of a relation's target can be attached by it. -/
theorem Typed.attached (hn : FieldNamesDistinct schema) {x z : Instance ι} {f : FieldDef ι}
    {r : Relation ι} (hx : x.Typed schema) (hz : z.Typed schema) (hf : f ∈ (schema x.model).fields)
    (hr : f.relation = some r) (hmodel : z.model = r.target) :
    ∃ y, (if r.toMany then x.pushRelated schema f.name z else x.setRelated schema f.name (some z)) =
        (y, .ok ()) ∧ y.Typed schema ∧ y.model = x.model := by
  have hfield := hn.field?_eq hf
  have hrelation := relation?_eq hn hf hr
  have hof : z.ofModel schema r.target = .ok z := if_pos hmodel
  cases hmany : r.toMany with
  | true =>
    rw [hmany] at hrelation
    obtain ⟨s, hs⟩ := exists_slot hx.names hrelation
    obtain ⟨rs, rfl⟩ := (hx.holds hs).many r hrelation
    rw [if_pos rfl, pushRelated, hrelation, hs]
    dsimp only
    rw [hof]
    exact ⟨_, rfl, hx.withSlot (.of_empty (fun _ _ => ⟨_, rfl⟩) (by simp)), rfl⟩
  | false =>
    rw [hmany] at hrelation
    rw [if_neg Bool.false_ne_true, setRelated, hrelation]
    dsimp only
    rw [hof]
    refine ⟨_, rfl, hx.withSlot (.one hfield hr hmany fun y hy => ?_), rfl⟩
    obtain rfl := Option.some.inj hy
    exact ⟨hz, hmodel⟩

end Instance

end Orm
