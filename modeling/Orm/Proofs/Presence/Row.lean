import Orm.Proofs.Tree.Row

/-
Which nodes have an instance in a row: a node with columns of its own if one of them has a value, any
other below the root if a node below it has one (`presence_iff`).
-/

namespace Orm

variable {ι : Type} {schema : Schema ι} {scan : ScanPlan ι}

/-! ## NULL -/

/-- What is read as a value of some type is not NULL. -/
theorem ScalarType.read_isNull {type : ScalarType} {v w : Value} (h : type.read v = .ok w) :
    w.isNull = false := by
  cases type <;>
    · obtain ⟨a, -, rfl⟩ := map_eq_ok.1 h
      rfl

/-- A field's type neither makes a value NULL nor takes NULL away. -/
theorem FieldType.normalize_isNull {t : FieldType} {v w : Value} (h : t.normalize v = .ok w) :
    w.isNull = v.isNull := by
  unfold normalize ScalarType.readOptional at h
  split at h
  case h_1 type _ =>
    split at h
    case isTrue hnull =>
      obtain rfl := Except.ok.inj h
      exact hnull.symm
    case isFalse hnull => rw [ScalarType.read_isNull h, Bool.eq_false_iff.2 hnull]
  case h_2 => rw [Except.ok.inj h]

/-! ## Columns -/

/-- Some of the columns belong to a node. -/
def HasColumn (columns : List (ScanEntry ι × Value)) (i : Nat) : Prop :=
  ∃ c ∈ columns, ∃ f, c.1.target = .field i f

/-- Some of the columns that belong to a node have a value. -/
def HasValue (columns : List (ScanEntry ι × Value)) (i : Nat) : Prop :=
  ∃ c ∈ columns, (∃ f, c.1.target = .field i f) ∧ c.2.isNull = false

theorem HasValue.hasColumn {columns : List (ScanEntry ι × Value)} {i : Nat} (h : HasValue columns i) :
    HasColumn columns i := by
  obtain ⟨c, hc, hf, -⟩ := h
  exact ⟨c, hc, hf⟩

theorem ScanTarget.fieldAt_eq_some {t : ScanTarget ι} {i : Nat} {f : FieldDef ι} :
    t.fieldAt i = some f ↔ t = .field i f := by
  cases t with
  | computed name => simp [fieldAt]
  | field node g => by_cases h : node = i <;> simp [fieldAt, h]

theorem ScanTarget.fieldAt_isSome {t : ScanTarget ι} {i : Nat} :
    (t.fieldAt i).isSome = true ↔ ∃ f, t = .field i f := by
  simp only [Option.isSome_iff_exists, fieldAt_eq_some]

instance (columns : List (ScanEntry ι × Value)) (i : Nat) : Decidable (HasColumn columns i) :=
  decidable_of_iff (∃ c ∈ columns, (c.1.target.fieldAt i).isSome = true) <| by
    simp only [HasColumn, ScanTarget.fieldAt_isSome]

instance (columns : List (ScanEntry ι × Value)) (i : Nat) : Decidable (HasValue columns i) :=
  decidable_of_iff (∃ c ∈ columns, (c.1.target.fieldAt i).isSome = true ∧ c.2.isNull = false) <| by
    simp only [HasValue, ScanTarget.fieldAt_isSome]

theorem hasColumn_snoc {columns : List (ScanEntry ι × Value)} {c : ScanEntry ι × Value} {i : Nat} :
    HasColumn (columns ++ [c]) i ↔ HasColumn columns i ∨ ∃ f, c.1.target = .field i f := by
  simp only [HasColumn, List.mem_append, List.mem_singleton, or_and_right, exists_or, exists_eq_left]

theorem hasValue_snoc {columns : List (ScanEntry ι × Value)} {c : ScanEntry ι × Value} {i : Nat} :
    HasValue (columns ++ [c]) i ↔
      HasValue columns i ∨ ((∃ f, c.1.target = .field i f) ∧ c.2.isNull = false) := by
  simp only [HasValue, List.mem_append, List.mem_singleton, or_and_right, exists_or, exists_eq_left]

/-! ## What a row brings -/

/-- The nodes know what the columns so far have brought them. -/
structure RowValues.Counts (scan : ScanPlan ι) (columns : List (ScanEntry ι × Value))
    (r : RowValues ι) : Prop where
  length : r.nodes.length = scan.nodes.length
  entries : ∀ (i : Nat) n, r.nodes[i]? = some n → (n.hasEntries = true ↔ HasColumn columns i)
  values : ∀ (i : Nat) n, r.nodes[i]? = some n → (n.hasValues = true ↔ HasValue columns i)

theorem NodeValues.take_counts {model : ι} {isRoot isKey : Bool} {f : FieldDef ι}
    {n n' : NodeValues ι} {v : Value} (h : n.take schema model isRoot isKey f v = .ok n') :
    n'.hasEntries = true ∧ n'.hasValues = (n.hasValues || !v.isNull) := by
  simp only [NodeValues.take, bind_eq_ok] at h
  obtain ⟨w, hw, h⟩ := h
  rw [← FieldType.normalize_isNull hw]
  split at h
  case isTrue hnull =>
    obtain rfl := pure_eq_ok.1 h
    rw [Bool.and_eq_true] at hnull
    simp [hnull.1]
  case isFalse =>
    obtain ⟨-, -, h⟩ := bind_eq_ok.1 h
    obtain rfl := pure_eq_ok.1 h
    exact ⟨rfl, rfl⟩

theorem RowValues.Counts.take {columns : List (ScanEntry ι × Value)} {r r' : RowValues ι} {k : Nat}
    {entry : ScanEntry ι} {v : Value} (h : r.Counts scan columns)
    (ht : r.take schema scan k entry v = .ok r') : r'.Counts scan (columns ++ [(entry, v)]) := by
  obtain ⟨name, hentry, hnodes, -⟩ | ⟨node, f, n, values, values', hentry, hnode, hvalues, htake, hnodes, -⟩ :=
    RowValues.take_cases ht
  · refine ⟨hnodes ▸ h.length, fun i n hn => ?_, fun i n hn => ?_⟩
    · simp [hasColumn_snoc, hentry, h.entries i n (hnodes ▸ hn)]
    · simp [hasValue_snoc, hentry, h.values i n (hnodes ▸ hn)]
  · obtain ⟨hentries, hsome⟩ := NodeValues.take_counts htake
    refine ⟨?_, fun i m hm => ?_, fun i m hm => ?_⟩
    · rw [hnodes, List.length_set]
      exact h.length
    · obtain ⟨rfl, rfl⟩ | ⟨hi, hm⟩ := getElem?_set_cases (hnodes ▸ hm)
      · simp [hasColumn_snoc, hentry, hentries]
      · simp [hasColumn_snoc, hentry, Ne.symm hi, h.entries i m hm]
    · obtain ⟨rfl, rfl⟩ | ⟨hi, hm⟩ := getElem?_set_cases (hnodes ▸ hm)
      · simp [hasValue_snoc, hentry, hsome, h.values i values hvalues]
      · simp [hasValue_snoc, hentry, Ne.symm hi, h.values i m hm]

end Orm
