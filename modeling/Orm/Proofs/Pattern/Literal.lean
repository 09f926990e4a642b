import Mathlib.Data.List.Infix
import Orm.Proofs.Placeholder.Reading

/-
What the comparisons with LIKE find. Escaping makes literal items of the characters of an operand and of
nothing else (`items?_escapeLike`), so the only wildcards of a pattern are those that the lookup adds;
and a LOWER that goes by the character commutes with escaping (`Lowering.escapeLike_flatMap`).
-/

namespace Orm

/-! ## LIKE -/

namespace Like

/-- What stands at a place of a pattern. -/
inductive Item where
  | anyText
  | anyChar
  | literal (c : Char)
  deriving DecidableEq, Repr

/-- What a character means that no `!` stands before. -/
def Item.ofChar (c : Char) : Item :=
  if c = '%' then .anyText else if c = '_' then .anyChar else .literal c

/-- The items of a pattern. What follows `!` is meant literally, and no pattern ends in it. -/
def items? : List Char → Option (List Item)
  | [] => some []
  | ['!'] => none
  | '!' :: c :: p => (items? p).map (.literal c :: ·)
  | c :: p => (items? p).map (.ofChar c :: ·)

/-- Whether a text is made of such items; for `%` any beginning of it may go. -/
def accepts : List Item → List Char → Bool
  | [], s => s.isEmpty
  | .anyText :: items, s => s.tails.any (accepts items)
  | .anyChar :: _, [] => false
  | .anyChar :: items, _ :: s => accepts items s
  | .literal _ :: _, [] => false
  | .literal c :: items, d :: s => c == d && accepts items s

theorem accepts_anyText {items : List Item} {s : List Char} :
    accepts (.anyText :: items) s = true ↔ ∃ before rest, s = before ++ rest ∧ accepts items rest := by
  rw [accepts, List.any_eq_true]
  constructor
  · rintro ⟨rest, hrest, h⟩
    obtain ⟨before, hs⟩ := (List.mem_tails _ _).1 hrest
    exact ⟨before, rest, hs.symm, h⟩
  · rintro ⟨before, rest, hs, h⟩
    exact ⟨rest, (List.mem_tails _ _).2 ⟨before, hs.symm⟩, h⟩

theorem accepts_literals {items : List Item} {t s : List Char} :
    accepts (t.map .literal ++ items) s = true ↔ ∃ rest, s = t ++ rest ∧ accepts items rest := by
  induction t generalizing s with
  | nil => simp
  | cons c t ih =>
    cases s with
    | nil => simp [accepts]
    | cons d s =>
      simp only [List.map_cons, List.cons_append, accepts, Bool.and_eq_true, beq_iff_eq, ih,
        List.cons.injEq]
      constructor
      · rintro ⟨rfl, rest, rfl, h⟩
        exact ⟨rest, ⟨rfl, rfl⟩, h⟩
      · rintro ⟨rest, ⟨rfl, rfl⟩, h⟩
        exact ⟨rfl, rest, rfl, h⟩

/-- A wildcard for any text, where there is one. -/
def wildcard (there : Bool) : List Item := if there then [.anyText] else []

theorem accepts_wildcard {there : Bool} {items : List Item} {s : List Char} :
    accepts (wildcard there ++ items) s = true ↔ ∃ before rest, s = before ++ rest ∧
      (there = false → before = []) ∧ accepts items rest := by
  cases there with
  | true =>
    simp only [reduceCtorEq, false_implies, true_and]
    exact accepts_anyText
  | false =>
    constructor
    · exact fun h => ⟨[], s, rfl, fun _ => rfl, h⟩
    · rintro ⟨before, rest, rfl, hbefore, h⟩
      rw [hbefore rfl]
      exact h

end Like

/-- Whether a text matches a pattern, as LIKE with the escape `!` has it. -/
def like (pattern s : String) : Bool := (Like.items? pattern.toList).any (Like.accepts · s.toList)

namespace Lookup

/-! ## Escaping -/

/-- A character that means something in a pattern. -/
abbrev Special (c : Char) : Prop := c = '!' ∨ c = '%' ∨ c = '_'

def escapeChar (c : Char) : List Char := if Special c then ['!', c] else [c]

theorem escapeChar_special {c : Char} (h : Special c) : escapeChar c = ['!', c] := if_pos h

theorem escapeChar_plain {c : Char} (h : ¬ Special c) : escapeChar c = [c] := if_neg h

theorem escapeLike_eq (t : List Char) : escapeLike t = t.flatMap escapeChar := by
  induction t with
  | nil => rfl
  | cons c t ih =>
    rw [escapeLike, List.flatMap_cons, escapeChar, ih]
    split <;> rfl

/-- An escaped character is meant literally. -/
theorem items?_escapeChar (c : Char) (p : List Char) :
    Like.items? (escapeChar c ++ p) = (Like.items? p).map (.literal c :: ·) := by
  by_cases h : Special c
  · rw [escapeChar_special h]
    rfl
  · obtain ⟨hescape, hany, hone⟩ := not_or.1 h |>.imp_right not_or.1
    have hliteral : Like.Item.ofChar c = .literal c := by
      rw [Like.Item.ofChar, if_neg hany, if_neg hone]
    rw [escapeChar_plain h, List.singleton_append, Like.items?, hliteral]
    · exact fun hc _ => hescape hc
    · exact fun _ _ hc _ => hescape hc

theorem items?_escapeLike (t p : List Char) :
    Like.items? (escapeLike t ++ p) = (Like.items? p).map (t.map .literal ++ ·) := by
  rw [escapeLike_eq]
  induction t with
  | nil => simp
  | cons c t ih =>
    rw [List.flatMap_cons, List.append_assoc, items?_escapeChar, ih, Option.map_map]
    rfl

theorem escapeLike_injective {t u : List Char} (h : escapeLike t = escapeLike u) : t = u := by
  have ht := items?_escapeLike t []
  rw [h, items?_escapeLike u []] at ht
  have hitems : u.map Like.Item.literal = t.map .literal := by simpa [Like.items?] using ht
  exact (List.map_injective_iff.2 (fun _ _ => Like.Item.literal.inj) hitems).symm

end Lookup

/-! ## Lower case -/

/-- Lower case makes a character that is no letter of that character only. -/
theorem toLower_eq_iff {c d : Char} (hd : d.isAlpha = false) : c.toLower = d ↔ c = d := by
  obtain ⟨hupper, hlower⟩ := Bool.or_eq_false_iff.1 hd
  have hupper : ¬(65 ≤ d.toNat ∧ d.toNat ≤ 90) := of_decide_eq_false hupper
  have hlower : ¬97 ≤ d.toNat ∨ ¬d.toNat ≤ 122 :=
    (Bool.and_eq_false_iff.1 hlower).imp of_decide_eq_false of_decide_eq_false
  have hchar : ∀ e : Char, e = d ↔ e.toNat = d.toNat := fun e =>
    ⟨congrArg Char.toNat, fun h => Char.ext (UInt32.toNat_inj.1 h)⟩
  rw [hchar, hchar]
  delta Char.toLower
  split
  · next h =>
    have hlow : 65 ≤ c.toNat := h.1
    have hhigh : c.toNat ≤ 90 := h.2
    have hnat : (c.val + 32).toNat = c.toNat + 32 := by
      rw [UInt32.toNat_add]
      exact Nat.mod_eq_of_lt (by omega : c.toNat + 32 < 2 ^ 32)
    change (c.val + 32).toNat = d.toNat ↔ c.toNat = d.toNat
    omega
  · exact Iff.rfl

/-- A LOWER that goes by the character: it leaves alone what means something in a pattern, and makes it of
nothing else. -/
structure Lowering where
  char : Char → List Char
  special : ∀ c, Lookup.Special c → char c = [c]
  plain : ∀ c, ¬ Lookup.Special c → ∀ d ∈ char c, ¬ Lookup.Special d

namespace Lowering

variable (lowering : Lowering)

def text (s : String) : String := String.ofList (s.toList.flatMap lowering.char)

theorem toList_text (s : String) : (lowering.text s).toList = s.toList.flatMap lowering.char := by
  simp [text]

theorem escapeChar_flatMap (c : Char) :
    (Lookup.escapeChar c).flatMap lowering.char = (lowering.char c).flatMap Lookup.escapeChar := by
  by_cases h : Lookup.Special c
  · have hescape : lowering.char '!' = ['!'] := lowering.special '!' (.inl rfl)
    simp [Lookup.escapeChar_special h, lowering.special c h, hescape]
  · have hplain : ∀ d ∈ lowering.char c, Lookup.escapeChar d = [d] := fun d hd =>
      Lookup.escapeChar_plain (lowering.plain c h d hd)
    rw [Lookup.escapeChar_plain h, List.flatMap_singleton, List.flatMap_congr hplain,
      List.flatMap_singleton']

theorem escapeLike_flatMap (t : List Char) :
    (Lookup.escapeLike t).flatMap lowering.char = Lookup.escapeLike (t.flatMap lowering.char) := by
  rw [Lookup.escapeLike_eq, Lookup.escapeLike_eq, List.flatMap_assoc, List.flatMap_assoc]
  exact List.flatMap_congr fun c _ => lowering.escapeChar_flatMap c

/-- Lower case for the letters of English and for no other character. -/
def ascii : Lowering where
  char c := [c.toLower]
  special := by
    rintro c (rfl | rfl | rfl) <;> rfl
  plain c hc d hd := by
    obtain rfl := List.mem_singleton.1 hd
    simpa only [Lookup.Special, toLower_eq_iff (d := '!') rfl, toLower_eq_iff (d := '%') rfl,
      toLower_eq_iff (d := '_') rfl] using hc

end Lowering

/-! ## Patterns -/

namespace Lookup

/-- Where a pattern finds an escaped text: anywhere behind what a wildcard in front of it may take, and in
front of what one behind it may take. -/
theorem like_patternText (p : Pattern) (t s : String) :
    like (p.text (.string t)) s = true ↔ ∃ before after, s.toList = before ++ t.toList ++ after ∧
      (p.before = false → before = []) ∧ (p.after = false → after = []) := by
  have hitems : Like.items? (p.text (.string t)).toList =
      some (Like.wildcard p.before ++ (t.toList.map .literal ++ (Like.wildcard p.after ++ []))) := by
    have hafter : Like.items? (if p.after then ['%'] else []) = some (Like.wildcard p.after) := by
      cases p.after <;> rfl
    have hbefore : ∀ q, Like.items? ((if p.before then ['%'] else []) ++ q) =
        (Like.items? q).map (Like.wildcard p.before ++ ·) := by
      intro q
      cases p.before with
      | true => rfl
      | false => exact Option.map_id'.symm
    rw [Pattern.text, String.toList_ofList, List.append_assoc, hbefore, items?_escapeLike, hafter]
    simp [Value.text]
  have hend : ∀ {r : List Char}, Like.accepts [] r = true ↔ r = [] := by simp [Like.accepts]
  rw [like, hitems, Option.any_some, Like.accepts_wildcard]
  constructor
  · rintro ⟨before, behind, hs, hbefore, hbehind⟩
    obtain ⟨rest, rfl, hrest⟩ := Like.accepts_literals.1 hbehind
    obtain ⟨after, none, rfl, hafter, hnone⟩ := Like.accepts_wildcard.1 hrest
    obtain rfl := hend.1 hnone
    exact ⟨before, after, by simp [hs], hbefore, hafter⟩
  · rintro ⟨before, after, hs, hbefore, hafter⟩
    have h : Like.accepts (Like.wildcard p.after ++ []) after = true :=
      Like.accepts_wildcard.2 ⟨after, [], by simp, hafter, rfl⟩
    exact ⟨before, t.toList ++ after, by simp [hs], hbefore, Like.accepts_literals.2 ⟨after, rfl, h⟩⟩

theorem like_anywhere (ignoreCase : Bool) (t s : String) :
    like (Pattern.text ⟨true, true, ignoreCase⟩ (.string t)) s = true ↔ t.toList <:+: s.toList := by
  rw [like_patternText]
  constructor
  · rintro ⟨before, after, hs, -, -⟩
    exact ⟨before, after, hs.symm⟩
  · rintro ⟨before, after, hs⟩
    exact ⟨before, after, hs.symm, nofun, nofun⟩

example : like "%50!%%" "now 50% off" = true ∧ like "%50!%%" "now 500 off" = false := by decide

theorem like_start (ignoreCase : Bool) (t s : String) :
    like (Pattern.text ⟨false, true, ignoreCase⟩ (.string t)) s = true ↔ t.toList <+: s.toList := by
  rw [like_patternText]
  constructor
  · rintro ⟨before, after, hs, hbefore, -⟩
    rw [hbefore rfl] at hs
    exact ⟨after, hs.symm⟩
  · rintro ⟨after, hs⟩
    exact ⟨[], after, hs.symm, fun _ => rfl, nofun⟩

theorem like_end (ignoreCase : Bool) (t s : String) :
    like (Pattern.text ⟨true, false, ignoreCase⟩ (.string t)) s = true ↔ t.toList <:+ s.toList := by
  rw [like_patternText]
  constructor
  · rintro ⟨before, after, hs, -, hafter⟩
    rw [hafter rfl, List.append_nil] at hs
    exact ⟨before, hs.symm⟩
  · rintro ⟨before, hs⟩
    exact ⟨before, [], by simp [hs], nofun, fun _ => rfl⟩

theorem patternText_lower (lowering : Lowering) (p : Pattern) (t : String) :
    lowering.text (p.text (.string t)) = p.text (.string (lowering.text t)) := by
  have hwild : ∀ there : Bool, (if there then ['%'] else []).flatMap lowering.char =
      if there then ['%'] else [] := by
    have hpercent : lowering.char '%' = ['%'] := lowering.special '%' (.inr (.inl rfl))
    intro there
    cases there <;> simp [hpercent]
  rw [Lowering.text, Pattern.text, String.toList_ofList, List.flatMap_append, List.flatMap_append,
    hwild, hwild, lowering.escapeLike_flatMap, ← lowering.toList_text]
  rfl

/-- A lookup by pattern binds the pattern of its operand and nothing else. -/
theorem write_of_pattern {l : Lookup} {p : Pattern} (hp : l.pattern? = some p) {v : Value}
    (hv : v.isList = false) (column : Sql) (args : List Value) :
    outcome (l.write column [v]) args =
      (.ok (p.write column (.param (args.length + 1))), args ++ [.string (p.text v)]) := by
  have hne : l ≠ .inList := by
    rintro rfl
    cases hp
  have hoperand : l.operand [v] = .ok v := by
    cases v <;> first | rfl | cases hv
  rw [write, if_neg hne, outcome_bind, hoperand, outcome_mk_pure]
  simp only [hp]
  rw [outcome_bind, outcome_bindValue]
  rfl

end Lookup

/-! ## Comparisons -/

/-- A text that a comparison names: the column, a parameter, or one of them in lower case. -/
inductive TextTerm where
  | column
  | param (n : Nat)
  | lowered (t : TextTerm)
  deriving DecidableEq, Repr

namespace TextTerm

def sql (column : Sql) : TextTerm → Sql
  | .column => column
  | .param n => [.param n]
  | .lowered t => .text "LOWER(" :: t.sql column ++ [.text ")"]

/-- Its value in a row whose column holds that text. Parameters are counted from one. -/
def value? (lowering : Lowering) (s : String) (args : List Value) : TextTerm → Option String
  | .column => some s
  | .param n => args[n - 1]?.bind Value.string?
  | .lowered t => (t.value? lowering s args).map lowering.text

end TextTerm

/-- The comparison `text LIKE pattern ESCAPE '!'`. -/
structure LikeTest where
  text : TextTerm
  pattern : TextTerm
  deriving DecidableEq, Repr

namespace LikeTest

def sql (column : Sql) (t : LikeTest) : Sql :=
  t.text.sql column ++ .text " LIKE " :: t.pattern.sql column ++ [.text " ESCAPE '!'"]

/-- Whether the comparison holds of a row whose column holds that text. -/
def holds (lowering : Lowering) (s : String) (args : List Value) (t : LikeTest) : Bool :=
  match t.text.value? lowering s args, t.pattern.value? lowering s args with
  | some text, some pattern => like pattern text
  | _, _ => false

end LikeTest

namespace Lookup

/-- The comparison that a lookup by pattern stands for, with its pattern as that parameter. -/
def likeTest? (n : Nat) : Lookup → Option LikeTest
  | .contains | .startswith | .endswith => some ⟨.column, .param n⟩
  | .icontains | .istartswith | .iendswith => some ⟨.lowered .column, .lowered (.param n)⟩
  | _ => none

/-- What a lookup by pattern looks for in a text. -/
def Finds (lowering : Lowering) (t s : String) : Lookup → Prop
  | .contains => t.toList <:+: s.toList
  | .startswith => t.toList <+: s.toList
  | .endswith => t.toList <:+ s.toList
  | .icontains => (lowering.text t).toList <:+: (lowering.text s).toList
  | .istartswith => (lowering.text t).toList <+: (lowering.text s).toList
  | .iendswith => (lowering.text t).toList <:+ (lowering.text s).toList
  | _ => False

/-- The pattern of a lookup finds what the lookup looks for. -/
theorem holds_iff_finds (lowering : Lowering) {l : Lookup} {p : Pattern} (hp : l.pattern? = some p)
    {n : Nat} {test : LikeTest} (hl : l.likeTest? n = some test) (t s : String) (args : List Value)
    (hargs : args[n - 1]? = some (.string (p.text (.string t)))) :
    test.holds lowering s args = true ↔ l.Finds lowering t s := by
  have hplain : LikeTest.holds lowering s args ⟨.column, .param n⟩ = like (p.text (.string t)) s := by
    simp [LikeTest.holds, TextTerm.value?, hargs, Value.string?]
  have hlowered : LikeTest.holds lowering s args ⟨.lowered .column, .lowered (.param n)⟩ =
      like (p.text (.string (lowering.text t))) (lowering.text s) := by
    simp [LikeTest.holds, TextTerm.value?, hargs, Value.string?, patternText_lower]
  cases l with
  | contains =>
    cases hp
    cases hl
    rw [hplain]
    exact like_anywhere false t s
  | startswith =>
    cases hp
    cases hl
    rw [hplain]
    exact like_start false t s
  | endswith =>
    cases hp
    cases hl
    rw [hplain]
    exact like_end false t s
  | icontains =>
    cases hp
    cases hl
    rw [hlowered]
    exact like_anywhere true (lowering.text t) (lowering.text s)
  | istartswith =>
    cases hp
    cases hl
    rw [hlowered]
    exact like_start true (lowering.text t) (lowering.text s)
  | iendswith =>
    cases hp
    cases hl
    rw [hlowered]
    exact like_end true (lowering.text t) (lowering.text s)
  | _ => cases hl

theorem print_pattern {l : Lookup} {p : Pattern} (hp : l.pattern? = some p) {n : Nat}
    {test : LikeTest} (hl : l.likeTest? n = some test) (column : Sql) (d : Dialect) :
    (p.write column (.param n)).print d = (test.sql column).print d := by
  have hprint : (p.write column (.param n)).print d = (LikeTest.sql column
      (if p.ignoreCase then ⟨.lowered .column, .lowered (.param n)⟩
        else ⟨.column, .param n⟩)).print d := by
    apply String.toList_injective
    unfold Pattern.write LikeTest.sql
    split
    · simp [TextTerm.sql, Sql.toList_print_append, Sql.toList_print_cons, Piece.print]
    · simp [TextTerm.sql, Sql.toList_print_append, Sql.toList_print_cons, Piece.print]
  rw [hprint]
  cases l <;> cases hl <;> cases hp <;> rfl

/-- What a lookup by pattern binds for a text is found where the text itself stands, whatever characters
the text has: anywhere, at the start or at the end, in the letters as they are or in lower case. -/
theorem write_finds {l : Lookup} (column : Sql) (t : String) (args : List Value) {test : LikeTest}
    (hl : l.likeTest? (args.length + 1) = some test) :
    ∃ sql pattern, outcome (l.write column [.string t]) args =
        (.ok sql, args ++ [.string pattern]) ∧
      (∀ d, sql.print d = (test.sql column).print d) ∧
      ∀ lowering s,
        test.holds lowering s (args ++ [.string pattern]) = true ↔ l.Finds lowering t s := by
  obtain ⟨p, hp⟩ : ∃ p, l.pattern? = some p := by
    cases l <;> first | exact ⟨_, rfl⟩ | cases hl
  refine ⟨_, _, write_of_pattern hp rfl column args, fun d => print_pattern hp hl column d,
    fun lowering s => holds_iff_finds lowering hp hl t s _ ?_⟩
  simp

/-- An operand with every special character, among texts that have it and that only look like it. -/
theorem fiftyPercentOff_found :
    ∃ sql pattern,
      outcome (Lookup.icontains.write (.name "title") [.string "50%_Off!"]) [.int 7] =
        (.ok sql, [.int 7, .string pattern]) ∧
      sql.print .postgres = "LOWER(\"title\") LIKE LOWER($2) ESCAPE '!'" ∧
      LikeTest.holds .ascii "SALE: 50%_OFF!!" [.int 7, .string pattern]
        ⟨.lowered .column, .lowered (.param 2)⟩ = true ∧
      ¬LikeTest.holds .ascii "50 percent_off!" [.int 7, .string pattern]
        ⟨.lowered .column, .lowered (.param 2)⟩ = true := by
  obtain ⟨sql, pattern, hrun, hprint, hfinds⟩ :=
    write_finds (l := .icontains) (.name "title") "50%_Off!" [.int 7] rfl
  refine ⟨sql, pattern, hrun, hprint .postgres, (hfinds .ascii _).2 ?_, fun h => ?_⟩
  · exact ⟨"sale: ".toList, ['!'], by decide⟩
  · have hinfix : (Lowering.ascii.text "50%_Off!").toList <:+:
        (Lowering.ascii.text "50 percent_off!").toList := (hfinds .ascii _).1 h
    exact absurd hinfix (by decide)

end Lookup

end Orm
