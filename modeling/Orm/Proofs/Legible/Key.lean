import Orm.Proofs.Legible.Calendar
import Orm.Proofs.Legible.Document
import Orm.Value.Text

/-
What the text of a key says of the key. Its characters other than hexadecimal digits say of what kind the
value is (`kindOfMarks_text`), and the values of one kind have different texts. So keys are known from
their texts (`Value.groupKey_inj`), all but bytes, of which only their number is written.
-/

namespace Orm

open Text (padded)

namespace Value

/-! ## Kinds -/

/-- A hexadecimal digit in lower case. -/
def isHex (c : Char) : Bool := c.isDigit || ('a' ≤ c && c ≤ 'f')

/-- The characters that are no hexadecimal digits. -/
def marks (cs : List Char) : List Char := cs.filter (!isHex ·)

@[simp] theorem marks_append (cs ds : List Char) : marks (cs ++ ds) = marks cs ++ marks ds :=
  List.filter_append ..

@[simp] theorem marks_cons (c : Char) (cs : List Char) :
    marks (c :: cs) = if isHex c then marks cs else c :: marks cs := by
  rw [marks, List.filter_cons]
  cases isHex c <;> rfl

@[simp] theorem marks_nil : marks [] = [] := rfl

theorem marks_of_digits {cs : List Char} (h : ∀ c ∈ cs, c.isDigit = true) : marks cs = [] :=
  List.filter_eq_nil_iff.2 fun c hc => by simp [isHex, h c hc]

@[simp] theorem marks_padded (w n : Nat) : marks (padded w n) = [] :=
  marks_of_digits fun _ => Text.isDigit_of_mem_padded

/-- The characters in the texts of plain values that are no hexadecimal digits. -/
def plainMarks : List Char :=
  ['<', ' ', 'y', 't', 's', '>', 'r', 'u', 'l', '-', '+', ':', '.', 'T', 'P', 'S', 'D']

/-- The kind of value whose text has such characters. -/
def kindOfMarks (ms : List Char) : Nat :=
  if ms.all (plainMarks.contains ·) = false then 9
  else if '<' ∈ ms then 0
  else if 'u' ∈ ms ∨ 'l' ∈ ms then 1
  else if 'P' ∈ ms then 2
  else if 'T' ∈ ms then 3
  else if ' ' ∈ ms then 4
  else if ':' ∈ ms then 5
  else if ms.length = 4 then 6
  else if 2 ≤ ms.length then 7
  else 8

/-- A value that is neither NULL nor a float, a document or a list. -/
def isPlain : Value → Bool
  | .null | .float _ | .json _ | .list _ => false
  | _ => true

def kind : Value → Nat
  | .bytes _ => 0
  | .bool _ => 1
  | .duration _ => 2
  | .instant _ => 3
  | .dateTime _ => 4
  | .time _ => 5
  | .uuid _ => 6
  | .date _ => 7
  | .int _ => 8
  | .null | .float _ | .string _ | .json _ | .list _ => 9

theorem marks_fraction (n : Nat) : marks (Calendar.fractionText n).toList = [] ∨
    marks (Calendar.fractionText n).toList = ['.'] := by
  rw [Calendar.toList_fractionText]
  split
  · exact .inl rfl
  · right
    rw [marks_cons, marks_of_digits fun _ => Calendar.isDigit_of_mem_places]
    rfl

theorem marks_date (d : Calendar.Date) :
    ∃ sign ∈ [[], ['-'], ['+']], marks d.text.toList = sign ++ ['-', '-'] := by
  refine ⟨Calendar.yearSign d.year, ?_, ?_⟩
  · unfold Calendar.yearSign
    split <;> (try split) <;> simp
  · rw [Calendar.Date.toList_text, Calendar.toList_yearText]
    have hsign : marks (Calendar.yearSign d.year) = Calendar.yearSign d.year := by
      unfold Calendar.yearSign
      split <;> (try split) <;> rfl
    have hhyphen : isHex '-' = false := rfl
    simp [hsign, hhyphen]

theorem marks_time (t : Calendar.Time) :
    ∃ places ∈ [[], ['.']], marks t.text.toList = [':', ':'] ++ places := by
  refine ⟨_, by simpa using marks_fraction (t.nanos % Calendar.second), ?_⟩
  rw [Calendar.Time.toList_text]
  have hcolon : isHex ':' = false := rfl
  simp [hcolon]

theorem marks_duration (d : Calendar.Duration) : (marks d.text.toList).contains 'P' = true ∧
    (marks d.text.toList).all (['-', 'P', 'T', '.', 'S', 'D'].contains ·) = true := by
  rw [Calendar.Duration.toList_text]
  have htrimmed : ∀ n, marks (Calendar.trimmed n) = [] := fun n =>
    marks_of_digits fun _ => Calendar.isDigit_of_mem_trimmed
  split
  · exact ⟨rfl, rfl⟩
  · unfold Calendar.secondsEnd
    split <;> split
    all_goals
      simp only [marks_append, marks_cons, marks_nil, marks_padded, htrimmed]
      exact ⟨rfl, rfl⟩

theorem marks_uuid (u : Uuid) : marks u.text.toList = ['-', '-', '-', '-'] := by
  have hdigits : ∀ l, List.Sublist l u.digits → marks l = [] := fun l hl => by
    refine List.filter_eq_nil_iff.2 fun c hc => ?_
    obtain ⟨d, hd, rfl⟩ := Text.mem_hexFixed (hl.subset hc)
    have hall : ∀ i < 16, isHex (Text.hexDigit i) = true := by decide
    simp [hall d hd]
  have hgroup : ∀ m n, ((u.digits.drop m).take n).Sublist u.digits := fun m n =>
    (List.take_sublist _ _).trans (List.drop_sublist _ _)
  have hhyphen : marks ['-'] = ['-'] := rfl
  rw [Uuid.text, String.toList_ofList]
  simp only [marks_append, hhyphen, hdigits _ (hgroup _ _), hdigits _ (List.take_sublist _ _),
    hdigits _ (List.drop_sublist _ _), List.nil_append, List.append_nil]
  rfl

/-- The characters of the text of a plain value say of what kind it is. -/
theorem kindOfMarks_text {v : Value} (h : v.isPlain = true) (hs : v.string? = none) :
    kindOfMarks (marks v.text.toList) = v.kind := by
  cases v with
  | null | float _ | json _ | list _ => cases h
  | string s => cases hs
  | bool b => cases b <;> rfl
  | int n =>
    rw [text, Text.toList_int_toString]
    split <;> simp only [marks_append, marks_cons, marks_nil, marks_padded] <;> rfl
  | bytes b =>
    rw [text, String.toList_append, String.toList_append, Text.toList_toString]
    simp only [marks_append, marks_padded]
    rfl
  | date d =>
    obtain ⟨sign, hsign, hmarks⟩ := marks_date d
    rw [text, kind, hmarks]
    clear hmarks
    revert sign
    decide
  | dateTime t =>
    obtain ⟨sign, hsign, hdate⟩ := marks_date t.date
    obtain ⟨places, hplaces, htime⟩ := marks_time t.time
    rw [text, kind, Calendar.DateTime.text, String.toList_append, String.toList_append, marks_append,
      marks_append, hdate, htime]
    clear hdate htime
    revert sign places
    decide
  | instant t =>
    obtain ⟨sign, hsign, hdate⟩ := marks_date t.date
    obtain ⟨places, hplaces, htime⟩ := marks_time t.time
    rw [text, kind, Calendar.DateTime.text, String.toList_append, String.toList_append,
      String.toList_append, marks_append, marks_append, marks_append, hdate, htime]
    clear hdate htime
    revert sign places
    decide
  | time t =>
    obtain ⟨places, hplaces, htime⟩ := marks_time t
    rw [text, kind, htime]
    clear htime
    revert places
    decide
  | duration d =>
    obtain ⟨hp, honly⟩ := marks_duration d
    rw [List.contains_iff_mem] at hp
    rw [List.all_eq_true] at honly
    have hnone : ∀ c, ['-', 'P', 'T', '.', 'S', 'D'].contains c = false → c ∉ marks d.text.toList :=
      fun c hc hmem => Bool.false_ne_true (hc.symm.trans (honly c hmem))
    have hall : (marks d.text.toList).all (plainMarks.contains ·) = true := by
      have hplain : ['-', 'P', 'T', '.', 'S', 'D'].all (plainMarks.contains ·) = true := rfl
      exact List.all_eq_true.2 fun c hc =>
        List.all_eq_true.1 hplain c (List.contains_iff_mem.1 (honly c hc))
    rw [text, kindOfMarks, hall]
    simp [kind, hp, hnone '<' rfl, hnone 'u' rfl, hnone 'l' rfl]
  | uuid u =>
    rw [text, marks_uuid]
    rfl

theorem kind_lt {v : Value} (h : v.isPlain = true) (hs : v.string? = none) : v.kind < 9 := by
  cases v with
  | null | float _ | json _ | list _ => cases h
  | string s => cases hs
  | _ => simp [kind]

/-! ## Documents -/

/-- A character in the text of a plain value is a hexadecimal digit or one of few others. -/
theorem isHex_or_mem_plainMarks {v : Value} (h : v.isPlain = true) (hs : v.string? = none) {c : Char}
    (hc : c ∈ v.text.toList) : isHex c = true ∨ c ∈ plainMarks := by
  by_cases hhex : isHex c = true
  · exact .inl hhex
  · have hmark : c ∈ marks v.text.toList := List.mem_filter.2 ⟨hc, by simpa using hhex⟩
    cases hall : (marks v.text.toList).all (plainMarks.contains ·) with
    | true => exact .inr (List.contains_iff_mem.1 (List.all_eq_true.1 hall c hmark))
    | false =>
      have hkind := kindOfMarks_text h hs
      have hlt := kind_lt h hs
      rw [kindOfMarks, if_pos hall] at hkind
      omega

/-- Whether a document is written as a value of another kind is. -/
def sharesText : Json → Value → Bool
  | .bool a, .bool b => a == b
  | .number (.integer n), .int m => n == m.toInt
  | _, _ => false

/-- Documents that begin with a character of a plain text are truth values and numbers. -/
theorem kindOfChar_of_plain {c : Char} (h : isHex c = true ∨ c ∈ plainMarks) :
    Json.kindOfChar c ∈ [1, 5, 6] := by
  have hne : ∀ d, ¬(isHex d = true ∨ d ∈ plainMarks) → c ≠ d := fun d hd heq => hd (heq ▸ h)
  unfold Json.kindOfChar
  rw [if_neg (hne 'n' (by decide)), if_neg (hne '\x22' (by decide)), if_neg (hne '[' (by decide)),
    if_neg (hne '\x7b' (by decide))]
  split
  · simp
  · split <;> simp

theorem sharesText_of_text {j : Json} {v : Value} (hj : j.floatless = true) (h : v.isPlain = true)
    (hs : v.string? = none) (htext : j.text = v.text) : sharesText j v = true := by
  obtain ⟨c, cs, hc, hkind⟩ := Json.text_head hj
  have hmem : c ∈ v.text.toList := htext ▸ hc ▸ List.mem_cons_self
  have hplain := kindOfChar_of_plain (isHex_or_mem_plainMarks h hs hmem)
  rw [hkind] at hplain
  have hmarks := kindOfMarks_text h hs
  rw [← htext] at hmarks
  cases j with
  | null | string _ | array _ | object _ => simp [Json.kind] at hplain
  | bool a =>
    have hone : v.kind = 1 := by
      rw [← hmarks]
      cases a <;> rfl
    cases v <;> cases hone
    rename_i b
    cases a <;> cases b <;> first | rfl | exact absurd htext (by decide)
  | number n =>
    cases n with
    | float x => simp [Json.floatless] at hj
    | integer n =>
      have height : v.kind = 8 := by
        rw [← hmarks, Json.text, JsonNumber.text, Text.toList_int_toString]
        split <;> simp only [marks_append, marks_cons, marks_nil, marks_padded] <;> rfl
      cases v <;> cases height
      obtain ⟨hn, -⟩ := Text.int_toString_append_inj Text.stops_nil Text.stops_nil
        (congrArg (String.toList · ++ []) htext)
      simp [sharesText, hn]

/-! ## Keys -/

theorem bytes_text_inj {a b : List UInt8} (h : text (.bytes a) = text (.bytes b)) :
    a.length = b.length := by
  have h := congrArg String.toList h
  simp only [text, String.toList_append, Text.toList_toString, List.append_assoc] at h
  refine (Text.padded_append_inj ?_ ?_ (List.append_cancel_left h)).1 <;> exact Text.stops_cons.2 rfl

/-- Whether two keys are told apart by their texts if they are different. Of bytes only their number is
written, and a document may be written as a value of another kind is. -/
def toldApart : Value → Value → Bool
  | .bytes a, .bytes b => a.length != b.length
  | .json a, .json b => a.floatless && b.floatless
  | .string _, _ | _, .string _ => true
  | .json j, v | v, .json j => j.floatless && v.isPlain && !sharesText j v
  | v, w => v.isPlain && w.isPlain

/-- Plain values of one text are the same, but for bytes. -/
theorem text_inj {v w : Value} (hv : v.isPlain = true) (hw : w.isPlain = true)
    (hsv : v.string? = none) (hsw : w.string? = none) (h : v.text = w.text) :
    v = w ∨ ∃ a b, v = .bytes a ∧ w = .bytes b ∧ a.length = b.length := by
  have hkind : v.kind = w.kind := by
    rw [← kindOfMarks_text hv hsv, h, kindOfMarks_text hw hsw]
  cases v with
  | null | float _ | json _ | list _ => cases hv
  | string s => cases hsv
  | bytes a =>
    cases w <;> cases hkind
    exact .inr ⟨a, _, rfl, rfl, bytes_text_inj h⟩
  | bool a =>
    left
    cases w <;> cases hkind
    rename_i b
    have hab : a = b := by cases a <;> cases b <;> first | rfl | exact absurd h (by decide)
    rw [hab]
  | int a =>
    left
    cases w <;> cases hkind
    obtain ⟨hab, -⟩ := Text.int_toString_append_inj Text.stops_nil Text.stops_nil
      (congrArg (String.toList · ++ []) h)
    rw [Int64.toInt_inj.1 hab]
  | date a =>
    left
    cases w <;> cases hkind
    rw [Calendar.Date.text_injective h]
  | dateTime a =>
    left
    cases w <;> cases hkind
    rw [Calendar.DateTime.text_append_inj (c := ' ') rfl Calendar.stopsPlaces_nil
      (congrArg (String.toList · ++ []) h)]
  | instant a =>
    left
    cases w <;> cases hkind
    rw [text, text] at h
    have hzone : Calendar.StopsPlaces "+00:00".toList := ⟨Text.stops_cons.2 rfl, by simp⟩
    have h := congrArg String.toList h
    rw [String.toList_append, String.toList_append] at h
    rw [Calendar.DateTime.text_append_inj (c := 'T') rfl hzone h]
  | time a =>
    left
    cases w <;> cases hkind
    rw [Calendar.Time.text_injective h]
  | duration a =>
    left
    cases w <;> cases hkind
    rw [Calendar.Duration.text_injective h]
  | uuid a =>
    left
    cases w <;> cases hkind
    rw [Uuid.text_injective h]

theorem groupKey_eq (v : Value) :
    v.groupKey = match v.string? with
      | some s => "s:" ++ s
      | none => "v:" ++ v.text := by
  cases v <;> rfl

theorem eq_string_of_string? {v : Value} {s : String} (h : v.string? = some s) : v = .string s := by
  cases v <;> cases h
  rfl

/-- Keys that are told apart are known from the texts by which rows of one key are recognised. -/
theorem groupKey_inj {v w : Value} (h : v.toldApart w = true) (hkey : v.groupKey = w.groupKey) :
    v = w := by
  have hmark : ∀ a b : String, "s:" ++ a ≠ "v:" ++ b := fun a b heq => by
    have hhead := congrArg (fun s : String => s.toList.head?) heq
    simp at hhead
  rw [groupKey_eq, groupKey_eq] at hkey
  cases hv : v.string? with
  | some s =>
    cases hw : w.string? with
    | some t =>
      rw [hv, hw] at hkey
      rw [eq_string_of_string? hv, eq_string_of_string? hw, (String.append_right_inj _).1 hkey]
    | none =>
      rw [hv, hw] at hkey
      exact absurd hkey (hmark _ _)
  | none =>
    cases hw : w.string? with
    | some t =>
      rw [hv, hw] at hkey
      exact absurd hkey.symm (hmark _ _)
    | none =>
      rw [hv, hw] at hkey
      have htext := (String.append_right_inj _).1 hkey
      unfold toldApart at h
      split at h
      case h_1 => exact absurd (bytes_text_inj htext) (by simpa using h)
      case h_2 =>
        rw [Bool.and_eq_true] at h
        rw [text, text] at htext
        rw [Json.text_injective h.1 h.2 htext]
      case h_3 => cases hv
      case h_4 => cases hw
      case h_5 =>
        rw [Bool.and_eq_true, Bool.and_eq_true, Bool.not_eq_true'] at h
        exact absurd (sharesText_of_text h.1.1 h.1.2 hw htext) (by simp [h.2])
      case h_6 =>
        rw [Bool.and_eq_true, Bool.and_eq_true, Bool.not_eq_true'] at h
        exact absurd (sharesText_of_text h.1.1 h.1.2 hv htext.symm) (by simp [h.2])
      case h_7 =>
        have hbytes : ∀ a b : List UInt8, v = .bytes a → w = .bytes b → False := by assumption
        rw [Bool.and_eq_true] at h
        obtain heq | ⟨a, b, rfl, rfl, -⟩ := text_inj h.1 h.2 hv hw htext
        · exact heq
        · exact (hbytes a b rfl rfl).elim

end Value

end Orm
