import Orm.Proofs.Outcome
import Orm.Schema.FieldType

/-
How results fail. `Ends fault post` says that a result, if it is there, has `post`, and that its error
is a `fault` otherwise; reading a value as one of a wanted type fails by a mismatch only.
-/

namespace Orm

variable {α β γ : Type}

/-- The result has `post`, or the error is a `fault`. -/
def Ends (fault : Error → Prop) (post : α → Prop) : Result α → Prop
  | .ok a => post a
  | .error e => fault e

namespace Ends

variable {fault : Error → Prop} {post : α → Prop} {x : Result α}

theorem of_ok {a : α} (h : post a) : Ends fault post (.ok a) := h

theorem of_error {e : Error} (h : fault e) : Ends fault post (.error e) := h

theorem bind {post' : β → Prop} {f : α → Result β} (hx : Ends fault post x)
    (hf : ∀ a, post a → Ends fault post' (f a)) : Ends fault post' (x >>= f) := by
  cases x with
  | error e => exact hx
  | ok a => exact hf a hx

theorem map {post' : β → Prop} {f : α → β} (hx : Ends fault post x) (hf : ∀ a, post a → post' (f a)) :
    Ends fault post' (x.map f) := by
  cases x with
  | error e => exact hx
  | ok a => exact hf a hx

theorem imp {fault' : Error → Prop} {post' : α → Prop} (hx : Ends fault post x)
    (hfault : ∀ e, fault e → fault' e) (hpost : ∀ a, post a → post' a) : Ends fault' post' x := by
  cases x with
  | error e => exact hfault e hx
  | ok a => exact hpost a hx

/-- What is known of all results there are. -/
theorem and_ok {post' : α → Prop} (hx : Ends fault post x) (h : ∀ a, x = .ok a → post' a) :
    Ends fault (fun a => post a ∧ post' a) x := by
  cases x with
  | error e => exact hx
  | ok a => exact ⟨hx, h a rfl⟩

theorem fault_of_error {e : Error} (hx : Ends fault post x) (h : x = .error e) : fault e := by
  subst h
  exact hx

/-- What does not fail gives a result. -/
theorem exists_ok (hx : Ends (fun _ => False) post x) : ∃ a, x = .ok a ∧ post a := by
  cases x with
  | error e => exact hx.elim
  | ok a => exact ⟨a, rfl, hx⟩

theorem mapM {f : γ → Result α} {l : List γ} (h : ∀ c ∈ l, Ends fault post (f c)) :
    Ends fault (fun as => ∀ a ∈ as, post a) (l.mapM f) := by
  induction l with
  | nil =>
    rw [List.mapM_nil]
    exact of_ok fun a ha => absurd ha List.not_mem_nil
  | cons c l ih =>
    rw [List.mapM_cons]
    refine (h c List.mem_cons_self).bind fun a ha => ?_
    refine (ih fun d hd => h d (List.mem_cons_of_mem c hd)).bind fun as has => ?_
    exact of_ok (List.forall_mem_cons.2 ⟨ha, has⟩)

end Ends

/-! ## Reading values -/

/-- The error of a value that is none of the wanted type. -/
def Mismatched (e : Error) : Prop := ∃ what, e = .typeMismatch what

namespace Value

theorem required_ends (expected : String) (v : Value) (a : Option α) :
    Ends Mismatched (fun _ => True) (v.required expected a) := by
  cases a with
  | none => exact ⟨_, rfl⟩
  | some a => trivial

theorem toInt_ends (v : Value) : Ends Mismatched (fun _ => True) v.toInt := by
  unfold toInt
  split
  · trivial
  · trivial
  · exact required_ends _ _ _
  · exact required_ends _ _ _

theorem toNarrow_ends (type : String) (range : Number.IntRange) (v : Value) :
    Ends Mismatched (fun _ => True) (v.toNarrow type range) := by
  refine v.toInt_ends.bind fun n _ => ?_
  split
  · trivial
  · exact ⟨_, rfl⟩

theorem toFloat_ends (v : Value) : Ends Mismatched (fun _ => True) v.toFloat := by
  unfold toFloat
  split
  · trivial
  · trivial
  · exact required_ends _ _ _

theorem toBool_ends (v : Value) : Ends Mismatched (fun _ => True) v.toBool := by
  unfold toBool
  split
  · trivial
  · trivial
  · exact required_ends _ _ _

theorem toText_ends (v : Value) : Ends Mismatched (fun _ => True) v.toText := by
  unfold toText
  split
  · trivial
  · exact required_ends _ _ _
  · trivial
  · exact ⟨_, rfl⟩
  · exact ⟨_, rfl⟩
  · trivial

theorem toBytes_ends (v : Value) : Ends Mismatched (fun _ => True) v.toBytes := by
  unfold toBytes
  split
  · trivial
  · trivial
  · exact ⟨_, rfl⟩

theorem toUuid_ends (v : Value) : Ends Mismatched (fun _ => True) v.toUuid := by
  unfold toUuid
  split
  · trivial
  · split
    · exact required_ends _ _ _
    · exact required_ends _ _ _
  · exact required_ends _ _ _

theorem toDateTime_ends (v : Value) : Ends Mismatched (fun _ => True) v.toDateTime := by
  unfold toDateTime
  split
  · trivial
  · trivial
  · trivial
  · exact required_ends _ _ _

theorem toInstant_ends (v : Value) : Ends Mismatched (fun _ => True) v.toInstant := by
  unfold toInstant
  split
  · trivial
  · exact required_ends _ _ _
  · exact toDateTime_ends _

theorem toDate_ends (v : Value) : Ends Mismatched (fun _ => True) v.toDate := by
  unfold toDate
  split
  · trivial
  · trivial
  · trivial
  · exact required_ends _ _ _

theorem toTime_ends (v : Value) : Ends Mismatched (fun _ => True) v.toTime := by
  unfold toTime
  split
  · trivial
  · trivial
  · exact required_ends _ _ _

theorem toDuration_ends (v : Value) : Ends Mismatched (fun _ => True) v.toDuration := by
  unfold toDuration
  split
  · trivial
  · trivial
  · exact ⟨_, rfl⟩

theorem toJson_ends (v : Value) : Ends Mismatched (fun _ => True) v.toJson := by
  unfold toJson
  split
  all_goals first | trivial | exact required_ends _ _ _

end Value

/-- The error of a value that was to be read as one of some type. -/
def Unread (e : Error) : Prop := ∃ (type : ScalarType) (v : Value), type.read v = .error e

theorem ScalarType.read_ends (type : ScalarType) (v : Value) :
    Ends Unread (fun _ => True) (type.read v) := by
  cases h : type.read v with
  | ok w => trivial
  | error e => exact ⟨type, v, h⟩

/-- A value that is read fails by a mismatch. -/
theorem Unread.mismatched {e : Error} (h : Unread e) : Mismatched e := by
  obtain ⟨type, v, h⟩ := h
  have hread : Ends Mismatched (fun _ => True) (type.read v) := by
    cases type with
    | int64 => exact v.toInt_ends.map fun _ h => h
    | int32 => exact (v.toNarrow_ends _ _).map fun _ h => h
    | int16 => exact (v.toNarrow_ends _ _).map fun _ h => h
    | nat32 => exact (v.toNarrow_ends _ _).map fun _ h => h
    | float64 => exact v.toFloat_ends.map fun _ h => h
    | float32 => exact (v.toFloat_ends.map fun _ h => h).map fun _ h => h
    | bool => exact v.toBool_ends.map fun _ h => h
    | string => exact v.toText_ends.map fun _ h => h
    | bytes => exact v.toBytes_ends.map fun _ h => h
    | uuid => exact v.toUuid_ends.map fun _ h => h
    | dateTime => exact v.toDateTime_ends.map fun _ h => h
    | instant => exact v.toInstant_ends.map fun _ h => h
    | date => exact v.toDate_ends.map fun _ h => h
    | time => exact v.toTime_ends.map fun _ h => h
    | duration => exact v.toDuration_ends.map fun _ h => h
    | json => exact v.toJson_ends.map fun _ h => h
  exact hread.fault_of_error h

theorem ScalarType.readOptional_ends (type : ScalarType) (v : Value) :
    Ends Unread (fun _ => True) (type.readOptional v) := by
  unfold readOptional
  split
  · trivial
  · exact type.read_ends v

theorem Storage.read_ends (s : Storage) (v : Value) : Ends Unread (fun _ => True) (s.read v) := by
  unfold read ScalarType.readOrDefault
  split
  · exact s.type.readOptional_ends v
  · split
    · trivial
    · exact s.type.read_ends v

theorem FieldType.normalize_ends (t : FieldType) (v : Value) :
    Ends Unread (fun _ => True) (t.normalize v) := by
  unfold normalize
  split
  · rename_i type _
    exact type.readOptional_ends v
  · trivial

end Orm
