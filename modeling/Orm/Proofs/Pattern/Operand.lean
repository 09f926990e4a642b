import Orm.Proofs.Legible.Document
import Orm.Proofs.Pattern.Literal

/-
What the lookups by pattern make of an operand. They write it as it is shown (`Value.text`), where other
parts read it as a text (`Value.toText`), and for a value that stands for no text, for bytes and for a
document these differ (`Value.toText_eq_text_iff`).
-/

namespace Orm

/-! ## Sizes -/

namespace Text

theorem utf8ByteSize_ofList {cs : List Char} (h : ∀ c ∈ cs, c.utf8Size = 1) :
    (String.ofList cs).utf8ByteSize = cs.length := by
  induction cs with
  | nil => rfl
  | cons c cs ih =>
    obtain ⟨hc, hcs⟩ := List.forall_mem_cons.1 h
    rw [String.ofList_cons, String.utf8ByteSize_append, String.utf8ByteSize_singleton, hc, ih hcs,
      List.length_cons, Nat.add_comm]

theorem utf8Size_of_isDigit {c : Char} (h : c.isDigit = true) : c.utf8Size = 1 := by
  obtain ⟨-, hhigh⟩ := Bool.and_eq_true_iff.1 h
  exact Char.utf8Size_eq_one_iff.2 (UInt32.le_trans (of_decide_eq_true hhigh) (by decide))

theorem utf8ByteSize_toString (n : Nat) :
    (toString n).utf8ByteSize = (Nat.toDigits 10 n).length := by
  rw [Nat.toString_eq_ofList_toDigits]
  exact utf8ByteSize_ofList fun c hc =>
    utf8Size_of_isDigit (Nat.isDigit_of_mem_toDigits (by decide) (by decide) hc)

theorem length_of_ofUtf8? {b : List UInt8} {t : String} (h : ofUtf8? b = some t) :
    t.utf8ByteSize = b.length := by
  unfold ofUtf8? String.fromUTF8? at h
  split at h
  · cases h
    rfl
  · cases h

/-- A number with eight more than it has digits. -/
theorem eq_nine_or_ten {n : Nat} (h : n = 8 + (Nat.toDigits 10 n).length) : n = 9 ∨ n = 10 := by
  have hpos := Nat.length_toDigits_pos (b := 10) (n := n)
  have hsmall : n < 10 ^ 2 := by
    by_contra hbig
    obtain ⟨m, rfl⟩ : ∃ m, n = m + 10 := ⟨n - 10, by omega⟩
    have hgrow : m < 10 ^ m := Nat.lt_pow_self (by decide)
    have hlt : m + 10 < 10 ^ (m + 1) := by
      rw [Nat.pow_succ]
      omega
    have := (Nat.length_toDigits_le_iff (by decide : 1 < 10) m.succ_pos).2 hlt
    omega
  have hdigits := (Nat.length_toDigits_le_iff (by decide : 1 < 10) (by decide : 0 < 2)).2 hsmall
  omega

end Text

/-! ## Values -/

namespace Value

/-- Whether a value that is read as a text gives the one that it is shown as. The bytes of only two texts
say how many bytes these have. -/
def readsAsShown : Value → Bool
  | .null | .list _ | .json (.string _) => false
  | .bytes b => Text.ofUtf8? b == some "<9 bytes>" || Text.ofUtf8? b == some "<10 bytes>"
  | _ => true

theorem toText_bytes {b : List UInt8} {t : String} :
    (Value.bytes b).toText = .ok t ↔ Text.ofUtf8? b = some t := by
  cases h : Text.ofUtf8? b <;> simp [toText, Value.required, h]

theorem bytes_text_iff {b : List UInt8} : Text.ofUtf8? b = some (Value.bytes b).text ↔
    (Value.bytes b).readsAsShown = true := by
  rw [readsAsShown, Bool.or_eq_true, beq_iff_eq, beq_iff_eq]
  have hshown : ∀ {n : Nat}, b.length = n →
      (Value.bytes b).text = "<" ++ toString n ++ " bytes>" := by
    rintro n rfl
    simp [text]
  constructor
  · intro h
    have hsize := Text.length_of_ofUtf8? h
    -- The text around the number has eight characters.
    have hnum : b.length = 8 + (Nat.toDigits 10 b.length).length := by
      rw [hshown rfl, String.utf8ByteSize_append, String.utf8ByteSize_append,
        Text.utf8ByteSize_toString] at hsize
      have hopen : "<".utf8ByteSize = 1 := rfl
      have hclose : " bytes>".utf8ByteSize = 7 := rfl
      omega
    rcases Text.eq_nine_or_ten hnum with hn | hn
    · exact .inl (h.trans (congrArg some (hshown hn)))
    · exact .inr (h.trans (congrArg some (hshown hn)))
  · rintro (h | h)
    · exact h.trans (congrArg some (hshown (Text.length_of_ofUtf8? h).symm).symm)
    · exact h.trans (congrArg some (hshown (Text.length_of_ofUtf8? h).symm).symm)

end Value

namespace Json

theorem Escapes.ne_nil {c : Char} {cs : List Char} (h : Escapes c cs) : cs ≠ [] := by
  cases h <;> exact List.cons_ne_nil _ _

theorem length_le_flatMap_escapeChar (cs : List Char) :
    cs.length ≤ (cs.flatMap escapeChar).length := by
  induction cs with
  | nil => exact Nat.le_refl _
  | cons c cs ih =>
    have hc := List.length_pos_iff.2 (escapes c).ne_nil
    rw [List.flatMap_cons, List.length_append, List.length_cons]
    omega

/-- In quotes a text is longer. -/
theorem quote_ne (s : String) : quote s ≠ s := by
  intro h
  have hle := length_le_flatMap_escapeChar s.toList
  have hlength := congrArg List.length (congrArg String.toList h)
  rw [toList_quote, List.length_cons, List.length_append] at hlength
  omega

end Json

/-- A value is read as the text that it is shown as, but for lists and for what is no text, and for bytes
and texts in documents. -/
theorem Value.toText_eq_text_iff (v : Value) : v.toText = .ok v.text ↔ v.readsAsShown = true := by
  cases v with
  | bytes b => exact toText_bytes.trans bytes_text_iff
  | json j =>
    cases j with
    | string s =>
      refine iff_of_false (fun h => ?_) nofun
      exact Json.quote_ne s (Except.ok.inj h).symm
    | _ => exact iff_of_true rfl rfl
  | null | list _ => exact iff_of_false nofun nofun
  | _ => exact iff_of_true rfl rfl

/-! ## Lookups -/

namespace Lookup

/-- Whether a comparison takes its operand for the text that it is read as, and refuses it if it is read
as none. -/
def TakesText (l : Lookup) (column : Sql) (v : Value) (args : List Value) : Prop :=
  match v.toText with
  | .ok t => outcome (l.write column [v]) args = outcome (l.write column [.string t]) args
  | .error _ => ∃ e, (outcome (l.write column [v]) args).1 = .error e

theorem patternText_injective (p : Pattern) {s t : String}
    (h : p.text (.string s) = p.text (.string t)) : s = t := by
  rw [Pattern.text, Pattern.text, String.ofList_inj, List.append_left_inj, List.append_right_inj] at h
  exact String.toList_injective (escapeLike_injective h)

/-- A lookup by pattern never refuses an operand other than a list. It looks for the text that the operand
is shown as, and this is the text that the operand is read as for every value but NULL, texts in documents
and bytes, two texts apart. -/
theorem write_shown {l : Lookup} {p : Pattern} (hp : l.pattern? = some p) {v : Value}
    (hv : v.isList = false) (column : Sql) (args : List Value) :
    outcome (l.write column [v]) args = (.ok (p.write column (.param (args.length + 1))),
      args ++ [.string (p.text (.string v.text))]) ∧
    (l.TakesText column v args ↔ v.readsAsShown = true) := by
  have hwrite := write_of_pattern hp hv column args
  refine ⟨hwrite, ?_⟩
  rw [← v.toText_eq_text_iff, TakesText]
  split
  · next t ht =>
    rw [ht, hwrite, write_of_pattern hp rfl column args]
    constructor
    · intro h
      simp only [Prod.mk.injEq, true_and, List.append_cancel_left_eq, List.cons.injEq,
        Value.string.injEq, and_true] at h
      exact congrArg Except.ok (patternText_injective p h).symm
    · intro h
      rw [Except.ok.inj h]
      rfl
  · next e he =>
    rw [he, hwrite]
    exact iff_of_false nofun nofun

/-- A number is looked for as it is read; bytes are not. -/
theorem endsInFifty_shown :
    outcome (endswith.write (.name "title") [.int 50]) [.bool true] =
      (.ok [.ident ["title"], .text " LIKE ", .param 2, .text " ESCAPE '!'"],
        [.bool true, .string "%50"]) ∧
    endswith.TakesText (.name "title") (.int 50) [.bool true] ∧
    ¬endswith.TakesText (.name "title") (.bytes [53, 48]) [.bool true] := by
  obtain ⟨hwrite, htakes⟩ :=
    write_shown (l := .endswith) rfl (v := .int 50) rfl (.name "title") [.bool true]
  obtain ⟨-, hbytes⟩ :=
    write_shown (l := .endswith) rfl (v := .bytes [53, 48]) rfl (.name "title") [.bool true]
  exact ⟨hwrite, htakes.2 rfl, fun h => absurd (hbytes.1 h) (by decide)⟩

/-- Two bytes are looked for as their number, and NULL as four letters. -/
theorem twoBytes_mistaken :
    (Value.bytes [97, 98]).toText = .ok "ab" ∧
    (outcome (contains.write (.name "title") [.bytes [97, 98]]) []).2 = [.string "%<2 bytes>%"] ∧
    ¬contains.TakesText (.name "title") (.bytes [97, 98]) [] ∧
    (∃ e, Value.null.toText = .error e) ∧
    (outcome (contains.write (.name "title") [.null]) []).2 = [.string "%NULL%"] ∧
    ¬contains.TakesText (.name "title") .null [] := by
  have hread : (Value.bytes [97, 98]).toText = .ok "ab" := rfl
  refine ⟨hread, rfl, fun h => ?_, ⟨_, rfl⟩, rfl, fun ⟨e, he⟩ => nomatch he⟩
  rw [TakesText, hread] at h
  have hargs : [Value.string "%<2 bytes>%"] = [.string "%ab%"] := congrArg Prod.snd h
  exact absurd (Value.string.inj (List.cons.inj hargs).1) (by decide)

end Lookup

end Orm
