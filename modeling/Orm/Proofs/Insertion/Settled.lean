import Orm.Proofs.Keys.Writing
import Orm.Proofs.Number.Single
import Orm.Proofs.Presence.Row
import Orm.Proofs.Tree.Attach
import Orm.Proofs.Tree.Marked

/-
Copying a column from an instance that a SELECT gave changes nothing about its value. What a type has
made of a value it leaves as it is (`Storage.read_self`, `FieldDef.Coerces.self`), and every column of
such an instance holds what its field once made of a value, or what the instance behind it has for a key
(`Instance.Settled`, `materialize_settled`).
-/

namespace Orm

variable {ι : Type} {schema : Schema ι} {scan : ScanPlan ι}

/-! ## Values that are kept -/

theorem Value.toNarrow_self {type : String} {range : Number.IntRange} {v : Value} {n : Int64}
    (h : v.toNarrow type range = .ok n) : (Value.int n).toNarrow type range = .ok n := by
  unfold Value.toNarrow at h
  obtain ⟨m, -, h⟩ := bind_eq_ok.1 h
  split at h
  case h_1 hfault =>
    obtain rfl := pure_eq_ok.1 h
    refine bind_eq_ok.2 ⟨m, rfl, ?_⟩
    rw [hfault]
    rfl
  case h_2 => cases h

/-- A type leaves what it has read as it is. -/
theorem ScalarType.read_self {type : ScalarType} {v w : Value} (h : type.read v = .ok w) :
    type.read w = .ok w := by
  cases type with
  | int32 | int16 | nat32 =>
    obtain ⟨n, hn, rfl⟩ := map_eq_ok.1 h
    rw [read, Value.toNarrow_self hn]
    rfl
  | float32 =>
    obtain ⟨y, hy, rfl⟩ := map_eq_ok.1 h
    obtain ⟨x, -, rfl⟩ := map_eq_ok.1 hy
    exact congrArg (fun y => Except.ok (Value.float y)) (Number.Binary64.toSingle_toSingle x)
  | _ =>
    obtain ⟨a, -, rfl⟩ := map_eq_ok.1 h
    rfl

theorem ScalarType.read_default (type : ScalarType) : type.read type.default = .ok type.default := by
  cases type <;> rfl

theorem Storage.read_self {s : Storage} {v w : Value} (h : s.read v = .ok w) : s.read w = .ok w := by
  unfold Storage.read at h ⊢
  cases hoptional : s.optional with
  | true =>
    simp only [hoptional, if_true, ScalarType.readOptional] at h ⊢
    split at h
    case isTrue =>
      obtain rfl := Except.ok.inj h
      rfl
    case isFalse =>
      rw [ScalarType.read_isNull h, if_neg Bool.false_ne_true]
      exact ScalarType.read_self h
  | false =>
    simp only [hoptional, Bool.false_eq_true, if_false, ScalarType.readOrDefault] at h ⊢
    have hread : s.type.read w = .ok w := by
      split at h
      case isTrue =>
        obtain rfl := Except.ok.inj h
        exact s.type.read_default
      case isFalse => exact ScalarType.read_self h
    rw [ScalarType.read_isNull hread, if_neg Bool.false_ne_true]
    exact hread

namespace FieldDef.Coerces

variable {f pk : FieldDef ι} {r : Relation ι} {v w : Value}

/-- A relation keeps what the key of its target keeps. -/
theorem through (hr : f.relation = some r) (hpk : (schema r.target).pk? = some pk)
    (h : pk.Coerces schema w w) : f.Coerces schema w w := by
  cases hnull : w.isNull with
  | true =>
    rw [Value.eq_null hnull]
    exact .null hr
  | false => exact .key hr hnull hpk h

/-- A field leaves what it holds as it is. -/
theorem self (h : f.Coerces schema v w) : f.Coerces schema w w := by
  induction h with
  | scalar hr hw => exact .scalar hr (Storage.read_self hw)
  | null hr => exact .null hr
  | key hr _ hpk _ ih => exact .through hr hpk ih

end FieldDef.Coerces

/-! ## Instances -/

/-- An instance whose columns would be kept as they are if they were written again. -/
structure Instance.Settled (schema : Schema ι) (x : Instance ι) : Prop where
  typed : x.Typed schema
  keeps : ∀ name f w, (schema x.model).field? name = some f → x.value schema name = .ok w →
    f.Coerces schema w w

namespace Instance.Settled

variable {x x' z : Instance ι} {name : String}

theorem new (m : ι) : (Instance.new schema m).Settled schema := by
  refine ⟨.new schema m, fun name f w hf hw => ?_⟩
  obtain ⟨f', s, hf', hcol, -, -⟩ := value_eq_ok.1 hw
  obtain rfl := Option.some.inj (hf.symm.trans hf')
  obtain ⟨-, rfl⟩ := Model.field?_eq_some hf
  have hempty : (Instance.new schema m).slot? f.name = some (.empty f) := by
    rw [slot?_new]
    exact congrArg _ hf
  obtain ⟨w', hcoerces, hw'⟩ := value_of_empty hf hcol hempty
  obtain rfl := Except.ok.inj (hw.symm.trans hw')
  exact hcoerces.self

theorem congr (h : x.Settled schema) (hm : x'.model = x.model) (hs : x'.slots = x.slots) :
    x'.Settled schema := by
  have hslot : ∀ name, x'.slot? name = x.slot? name := fun name => by
    rw [Instance.slot?, Instance.slot?, hs]
  have hrelation : ∀ name toMany, x'.relation? schema name toMany = x.relation? schema name toMany :=
    fun name toMany => by rw [relation?, relation?, hm]
  refine ⟨.of_holds (by rw [hs, hm]; exact h.typed.names) fun name s hs => ?_, fun name f w hf hw => ?_⟩
  · rw [hslot] at hs
    have hold := h.typed.holds hs
    exact ⟨hrelation name true ▸ hold.many, hrelation name false ▸ hold.model, hold.typed⟩
  · rw [hm] at hf
    rw [value_congr hm (hslot name)] at hw
    exact h.keeps name f w hf hw

theorem withSlot (h : x.Settled schema) {s : Slot ι} (ht : (x.withSlot name s).Typed schema)
    (hs : ∀ f w, (schema x.model).field? name = some f →
      (x.withSlot name s).value schema name = .ok w → f.Coerces schema w w) :
    (x.withSlot name s).Settled schema := by
  refine ⟨ht, fun n f w hf hw => ?_⟩
  by_cases hname : n = name
  · subst hname
    exact hs f w hf hw
  · refine h.keeps n f w hf ?_
    have hother : (x.withSlot name s).slot? n = x.slot? n := by
      rw [slot?_withSlot, if_neg hname]
    have hvalue : (x.withSlot name s).value schema n = x.value schema n := value_congr rfl hother
    rwa [hvalue] at hw

theorem setValue (hn : FieldNamesDistinct schema) (h : x.Settled schema) {v : Value}
    (hx : x.setValue schema name v = (x', .ok ())) : x'.Settled schema ∧ x'.model = x.model := by
  have hassigned := setValueIn_assigned hx
  obtain ⟨f, hf⟩ : ∃ f, (schema x.model).field? name = some f := by
    cases hassigned with
    | scalar hf | cleared hf | behind hf => exact ⟨_, hf⟩
  have htyped := (setValueIn_written hn (maxKeyDepth - 1) v h.typed hf).typed
  rw [show setValueIn schema (maxKeyDepth - 1 + 1) x name v = (x', .ok ()) from hx] at htyped
  refine ⟨⟨htyped, fun n g w hg hw => ?_⟩, hassigned.model⟩
  rw [hassigned.model] at hg
  by_cases hname : n = name
  · subst hname
    obtain ⟨w', hcoerces, hw'⟩ := hassigned.coerced hn rfl h.typed hg
    obtain rfl := Except.ok.inj (hw.symm.trans hw')
    exact hcoerces.self
  · rw [value_congr hassigned.model (hassigned.slot? hname)] at hw
    exact h.keeps n g w hg hw

/-- Where a relation's key is that of an instance which is settled. -/
theorem attached [DecidableEq ι] (hn : FieldNamesDistinct schema) (h : x.Settled schema)
    (hz : z.Settled schema) {toMany : Bool} {s : Slot ι}
    (hs : Tree.Attached schema x z name toMany s)
    (hmodel : ∀ r, x.relation? schema name toMany = some r → z.model = r.target) :
    (x.withSlot name s).Settled schema := by
  cases hs with
  | @pushed r rs hr hslot =>
    refine h.withSlot (h.typed.withSlot (.of_empty (fun _ _ => ⟨_, rfl⟩) (by simp)))
      fun f w hf hw => ?_
    -- a collection has no column to be read
    obtain ⟨f', s, -, -, hs, hread⟩ := value_eq_ok.1 hw
    rw [slot?_withSlot, if_pos rfl, hslot, Option.map_some] at hs
    obtain rfl := Option.some.inj hs
    rw [slotValue] at hread
    cases hread
  | @set r hr =>
    have hzmodel := hmodel r hr
    rw [relation?, Option.filter_eq_some_iff] at hr
    obtain ⟨hr, hmany⟩ := hr
    obtain ⟨f, hf, hrelation⟩ := Option.bind_eq_some_iff.1 hr
    have hholds : x.Holds schema name (.one (some z)) := by
      refine .one hf hrelation (by simpa using hmany) fun y hy => ?_
      obtain rfl := Option.some.inj hy
      exact ⟨hz.typed, hzmodel⟩
    refine h.withSlot (h.typed.withSlot hholds) fun g w hg hw => ?_
    obtain rfl := Option.some.inj (hf.symm.trans hg)
    obtain ⟨-, s, -, -, hs, hread⟩ := value_eq_ok.1 hw
    rw [slot?_withSlot, if_pos rfl] at hs
    obtain ⟨-, -, rfl⟩ := Option.map_eq_some_iff.1 hs
    rw [slotValue, key_eq] at hread
    cases hpk : (schema z.model).pk? with
    | none =>
      rw [hpk] at hread
      obtain rfl := Except.ok.inj hread
      exact .null hrelation
    | some pk =>
      rw [hpk] at hread
      have hkey := hz.keeps pk.name pk w (hn.field?_eq (List.mem_of_find?_eq_some hpk)) hread
      exact .through hrelation (hzmodel ▸ hpk) hkey

end Instance.Settled

/-! ## Rows -/

/-- What a row has brought to a node of that model so far is settled. -/
def NodeValues.Settled (schema : Schema ι) (model : ι) (v : NodeValues ι) : Prop :=
  ∀ x, v.instance_ = some x → x.Settled schema ∧ x.model = model

theorem NodeValues.Settled.instance {v : NodeValues ι} {model : ι} (h : v.Settled schema model) :
    (v.instance_.getD (.new schema model)).Settled schema ∧
      (v.instance_.getD (.new schema model)).model = model := by
  cases hx : v.instance_ with
  | none => exact ⟨.new model, rfl⟩
  | some x => exact h x hx

theorem NodeValues.Settled.take (hn : FieldNamesDistinct schema) {model : ι} {isRoot isKey : Bool}
    {f : FieldDef ι} {n n' : NodeValues ι} {v : Value} (h : n.Settled schema model)
    (ht : n.take schema model isRoot isKey f v = .ok n') : n'.Settled schema model := by
  simp only [NodeValues.take, bind_eq_ok] at ht
  obtain ⟨w, -, ht⟩ := ht
  split at ht
  case isTrue =>
    obtain rfl := pure_eq_ok.1 ht
    exact h
  case isFalse =>
    obtain ⟨⟨⟩, hset, ht⟩ := bind_eq_ok.1 ht
    obtain rfl := pure_eq_ok.1 ht
    intro x hx
    obtain rfl := Option.some.inj hx
    obtain ⟨hsettled, hmodel⟩ := h.instance
    obtain ⟨hsettled', hmodel'⟩ := hsettled.setValue hn (Prod.ext rfl hset)
    exact ⟨hsettled', hmodel'.trans hmodel⟩

def RowValues.Settled (schema : Schema ι) (scan : ScanPlan ι) (r : RowValues ι) : Prop :=
  ∀ (i : Nat) n v, scan.nodes[i]? = some n → r.nodes[i]? = some v → v.Settled schema n.model

/-- The instance of a tree is settled, and one of the model at the tree's node. -/
structure Tree.Settled (schema : Schema ι) (scan : ScanPlan ι) (u : Tree ι) : Prop where
  root : u.root.Settled schema
  model : ∀ n, scan.nodes[u.index]? = some n → u.root.model = n.model

variable [DecidableEq ι]

end Orm
