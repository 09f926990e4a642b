import Orm.Json.Writing
import Orm.Proofs.Legible.Digits

/-
Documents without floats are known from their texts (`text_injective`): a text is read from its first
character on, which says of what kind the document is, and each part of it ends where its own reading does.
-/

namespace Orm.Json

open Text (Stops stops_cons)

mutual
/-- Whether no number in a document is a float. -/
def floatless : Json → Bool
  | .number (.float _) => false
  | .array items => floatlessItems items
  | .object members => floatlessMembers members
  | _ => true

def floatlessItems : List Json → Bool
  | [] => true
  | j :: rest => floatless j && floatlessItems rest

def floatlessMembers : List (String × Json) → Bool
  | [] => true
  | (_, j) :: rest => floatless j && floatlessMembers rest
end

/-! ## Strings -/

/-- The character that a short escape stands for. -/
def shortEscape? (x : Char) : Option Char :=
  if x = '\x22' then some '\x22'
  else if x = '\\' then some '\\'
  else if x = 'b' then some '\x08'
  else if x = 't' then some '\t'
  else if x = 'n' then some '\n'
  else if x = 'f' then some '\x0c'
  else if x = 'r' then some '\r'
  else none

/-- The three ways in which a character is written. -/
inductive Escapes (c : Char) : List Char → Prop
  | itself : c ≠ '\\' → c ≠ '\x22' → Escapes c [c]
  | short {x : Char} : shortEscape? x = some c → Escapes c ['\\', x]
  | hex : c.toNat < 32 → Escapes c ('\\' :: 'u' :: Text.hexFixed 4 c.toNat)

theorem escapes (c : Char) : Escapes c (escapeChar c) := by
  unfold escapeChar
  split
  · exact .short (by simp [shortEscape?, *])
  split
  · exact .short (by simp [shortEscape?, *])
  split
  · exact .short (by simp [shortEscape?, *])
  split
  · exact .short (by simp [shortEscape?, *])
  split
  · exact .short (by simp [shortEscape?, *])
  split
  · exact .short (by simp [shortEscape?, *])
  split
  · exact .short (by simp [shortEscape?, *])
  split
  · exact .hex ‹_›
  · exact .itself ‹_› ‹_›

/-- A character is known from the text that it begins. -/
theorem Escapes.append_inj {c d : Char} {xs ys r s : List Char} (hc : Escapes c xs)
    (hd : Escapes d ys) (h : xs ++ r = ys ++ s) : c = d ∧ r = s := by
  have hu : shortEscape? 'u' = none := rfl
  cases hc with
  | itself hc _ =>
    cases hd with
    | itself _ _ => exact List.cons.inj h
    | short _ => exact absurd (List.cons.inj h).1 hc
    | hex _ => exact absurd (List.cons.inj h).1 hc
  | @short x hx =>
    cases hd with
    | itself hd _ => exact absurd (List.cons.inj h).1.symm hd
    | @short y hy =>
      obtain ⟨rfl, hrest⟩ := List.cons.inj (List.cons.inj h).2
      exact ⟨Option.some.inj (hx.symm.trans hy), hrest⟩
    | hex _ =>
      obtain ⟨rfl, -⟩ := List.cons.inj (List.cons.inj h).2
      cases hu.symm.trans hx
  | hex hc =>
    cases hd with
    | itself hd _ => exact absurd (List.cons.inj h).1.symm hd
    | short hy =>
      obtain ⟨rfl, -⟩ := List.cons.inj (List.cons.inj h).2
      cases hu.symm.trans hy
    | hex hd =>
      obtain ⟨hhex, hrest⟩ := List.append_inj (List.cons.inj (List.cons.inj h).2).2
        ((Text.length_hexFixed _ _).trans (Text.length_hexFixed _ _).symm)
      have hnat := Text.hexFixed_injective (by omega) (by omega) hhex
      exact ⟨Char.toNat_inj.1 hnat, hrest⟩

/-- No character is written with a quotation mark in front. -/
theorem Escapes.append_ne_quote {c : Char} {xs : List Char} (h : Escapes c xs) (r s : List Char) :
    xs ++ r ≠ '\x22' :: s := by
  intro heq
  cases h with
  | itself _ hquote => exact hquote (List.cons.inj heq).1
  | short _ => exact absurd (List.cons.inj heq).1 (by decide)
  | hex _ => exact absurd (List.cons.inj heq).1 (by decide)

theorem flatMap_escapeChar_inj {cs ds r s : List Char}
    (h : cs.flatMap escapeChar ++ '\x22' :: r = ds.flatMap escapeChar ++ '\x22' :: s) :
    cs = ds ∧ r = s := by
  induction cs generalizing ds with
  | nil =>
    cases ds with
    | nil => exact ⟨rfl, (List.cons.inj h).2⟩
    | cons d ds =>
      rw [List.flatMap_cons, List.append_assoc] at h
      exact absurd h.symm ((escapes d).append_ne_quote _ _)
  | cons c cs ih =>
    rw [List.flatMap_cons, List.append_assoc] at h
    cases ds with
    | nil => exact absurd h ((escapes c).append_ne_quote _ _)
    | cons d ds =>
      rw [List.flatMap_cons, List.append_assoc] at h
      obtain ⟨rfl, hrest⟩ := (escapes c).append_inj (escapes d) h
      obtain ⟨rfl, hrs⟩ := ih hrest
      exact ⟨rfl, hrs⟩

theorem toList_quote (s : String) :
    (quote s).toList = '\x22' :: (s.toList.flatMap escapeChar ++ ['\x22']) := by
  simp [quote]

theorem quote_append_inj {a b : String} {r s : List Char}
    (h : (quote a).toList ++ r = (quote b).toList ++ s) : a = b ∧ r = s := by
  rw [toList_quote, toList_quote] at h
  simp only [List.cons_append, List.append_assoc, List.nil_append] at h
  obtain ⟨hab, hrest⟩ := flatMap_escapeChar_inj (List.cons.inj h).2
  exact ⟨String.toList_inj.1 hab, hrest⟩

/-! ## Documents -/

/-- The kind of document that begins with a character. -/
def kindOfChar (c : Char) : Nat :=
  if c = 'n' then 0
  else if c = 't' ∨ c = 'f' then 1
  else if c = '\x22' then 2
  else if c = '[' then 3
  else if c = '\x7b' then 4
  else if c.isDigit ∨ c = '-' then 5
  else 6

def kind : Json → Nat
  | .null => 0
  | .bool _ => 1
  | .string _ => 2
  | .array _ => 3
  | .object _ => 4
  | .number _ => 5

theorem kindOfChar_of_isDigit {c : Char} (h : c.isDigit = true) : kindOfChar c = 5 := by
  have hne : ∀ d : Char, d.isDigit = false → c ≠ d := fun d hd he =>
    Bool.false_ne_true (hd.symm.trans (he ▸ h))
  simp [kindOfChar, hne 'n' rfl, hne 't' rfl, hne 'f' rfl, hne '\x22' rfl, hne '[' rfl,
    hne '\x7b' rfl, h]

/-- The first character of a text says of what kind the document is. -/
theorem text_head {j : Json} (h : j.floatless = true) :
    ∃ c cs, j.text.toList = c :: cs ∧ kindOfChar c = j.kind := by
  cases j with
  | null => exact ⟨_, _, rfl, rfl⟩
  | bool b => cases b <;> exact ⟨_, _, rfl, rfl⟩
  | number n =>
    cases n with
    | float x => simp [floatless] at h
    | integer n =>
      obtain ⟨d, ds, hd⟩ := List.exists_cons_of_ne_nil (Text.padded_ne_nil 0 n.natAbs)
      have htext : (text (.number (.integer n))).toList =
          (if n < 0 then ['-'] else []) ++ Text.padded 0 n.natAbs := by
        rw [text]
        exact Text.toList_int_toString n
      rw [htext, hd]
      split
      · exact ⟨_, _, rfl, rfl⟩
      · have hmem : d ∈ Text.padded 0 n.natAbs := hd ▸ List.mem_cons_self
        exact ⟨d, ds, rfl, kindOfChar_of_isDigit (Text.isDigit_of_mem_padded hmem)⟩
  | string s =>
    rw [text, toList_quote]
    exact ⟨_, _, rfl, rfl⟩
  | array items =>
    exact ⟨'[', (Text.join "," (itemTexts items)).toList ++ [']'], by simp [text], rfl⟩
  | object members =>
    exact ⟨'\x7b', (Text.join "," (memberTexts members)).toList ++ ['\x7d'], by simp [text], rfl⟩

/-- What a list of texts adds behind the first of them. -/
def behind (parts : List String) : List Char := parts.flatMap fun p => ',' :: p.toList

theorem toList_join_cons (p : String) (parts : List String) :
    (Text.join "," (p :: parts)).toList = p.toList ++ behind parts := by
  induction parts generalizing p with
  | nil => simp [Text.join, behind]
  | cons q parts ih =>
    rw [Text.join, String.intercalate_cons_cons, String.toList_append, String.toList_append]
    have := ih q
    rw [Text.join] at this
    rw [this]
    simp [behind]

theorem stops_behind {parts : List String} {c : Char} (h : c.isDigit = false) (r : List Char) :
    Stops (behind parts ++ c :: r) := by
  cases parts with
  | nil => exact stops_cons.2 h
  | cons p parts => exact stops_cons.2 rfl

/-- Texts that begin with the same character are of documents of one kind. -/
theorem kind_eq {a b : Json} (ha : a.floatless = true) (hb : b.floatless = true) {r s : List Char}
    (h : a.text.toList ++ r = b.text.toList ++ s) : a.kind = b.kind := by
  obtain ⟨c, cs, hc, hkind⟩ := text_head ha
  obtain ⟨d, ds, hd, hkind'⟩ := text_head hb
  rw [hc, hd] at h
  rw [← hkind, ← hkind', (List.cons.inj h).1]

/-- No document begins as another text ends. -/
theorem text_append_ne_cons {j : Json} (hj : j.floatless = true) {c : Char}
    (hc : kindOfChar c = 6) (r s : List Char) : j.text.toList ++ r ≠ c :: s := by
  intro h
  obtain ⟨d, ds, hd, hkind⟩ := text_head hj
  rw [hd] at h
  rw [(List.cons.inj h).1, hc] at hkind
  cases j <;> cases hkind

theorem behind_cons (p : String) (parts : List String) (r : List Char) :
    behind (p :: parts) ++ r = ',' :: (p.toList ++ (behind parts ++ r)) := by
  simp [behind]

theorem toList_bool (b : Bool) :
    (text (.bool b)).toList = if b then ['t', 'r', 'u', 'e'] else ['f', 'a', 'l', 's', 'e'] := by
  cases b <;> rfl

theorem toList_array (items : List Json) (r : List Char) : (text (.array items)).toList ++ r =
    '[' :: ((Text.join "," (itemTexts items)).toList ++ ']' :: r) := by
  simp [text]

theorem toList_object (members : List (String × Json)) (r : List Char) :
    (text (.object members)).toList ++ r =
      '\x7b' :: ((Text.join "," (memberTexts members)).toList ++ '\x7d' :: r) := by
  simp [text]

/-- Lists of texts in brackets that are the same are the same behind their first texts too. -/
theorem behind_of_join {ps qs : List String} {c : Char} {r s : List Char}
    (hp : ∀ p ∈ ps, ∀ r s, p.toList ++ r ≠ c :: s) (hq : ∀ q ∈ qs, ∀ r s, q.toList ++ r ≠ c :: s)
    (h : (Text.join "," ps).toList ++ c :: r = (Text.join "," qs).toList ++ c :: s) :
    behind ps ++ c :: r = behind qs ++ c :: s := by
  cases ps with
  | nil =>
    cases qs with
    | nil => exact h
    | cons q qs =>
      rw [toList_join_cons, List.append_assoc] at h
      exact absurd h.symm (hq q List.mem_cons_self _ _)
  | cons p ps =>
    rw [toList_join_cons, List.append_assoc] at h
    cases qs with
    | nil => exact absurd h (hp p List.mem_cons_self _ _)
    | cons q qs =>
      rw [toList_join_cons, List.append_assoc] at h
      rw [behind_cons, behind_cons, h]

theorem itemTexts_ne : ∀ {items : List Json}, floatlessItems items = true →
    ∀ p ∈ itemTexts items, ∀ r s, p.toList ++ r ≠ ']' :: s
  | [], _ => by
    rw [itemTexts]
    exact nofun
  | j :: rest, h => by
    rw [floatlessItems, Bool.and_eq_true] at h
    rw [itemTexts]
    exact List.forall_mem_cons.2 ⟨text_append_ne_cons h.1 rfl, itemTexts_ne h.2⟩

theorem toList_member (name : String) (j : Json) (r : List Char) :
    (quote name ++ ":" ++ text j).toList ++ r = (quote name).toList ++ ':' :: (j.text.toList ++ r) := by
  simp

theorem memberTexts_ne : ∀ members : List (String × Json),
    ∀ p ∈ memberTexts members, ∀ r s, p.toList ++ r ≠ '\x7d' :: s
  | [] => by
    rw [memberTexts]
    exact nofun
  | (name, j) :: rest => by
    rw [memberTexts]
    refine List.forall_mem_cons.2 ⟨fun r s h => ?_, memberTexts_ne rest⟩
    rw [toList_member, toList_quote] at h
    exact absurd (List.cons.inj h).1 (by decide)

mutual
/-- A document is known from the text that it begins. -/
theorem text_append_inj : ∀ {a b : Json} {r s : List Char}, a.floatless = true →
    b.floatless = true → Stops r → Stops s → a.text.toList ++ r = b.text.toList ++ s →
    a = b ∧ r = s
  | .null, b, r, s, ha, hb, _, _, h => by
    have hkind := kind_eq ha hb h
    cases b <;> cases hkind
    exact ⟨rfl, List.append_cancel_left h⟩
  | .bool x, b, r, s, ha, hb, _, _, h => by
    have hkind := kind_eq ha hb h
    cases b <;> cases hkind
    rename_i y
    rw [toList_bool, toList_bool] at h
    have hxy : x = y := by cases x <;> cases y <;> first | rfl | simp at h
    subst hxy
    exact ⟨rfl, List.append_cancel_left h⟩
  | .number (.float x), _, _, _, ha, _, _, _, _ => by
    rw [floatless] at ha
    cases ha
  | .number (.integer n), b, r, s, ha, hb, hr, hs, h => by
    have hkind := kind_eq ha hb h
    cases b <;> cases hkind
    rename_i m
    cases m with
    | float x =>
      rw [floatless] at hb
      cases hb
    | integer m =>
      rw [text, text] at h
      obtain ⟨rfl, hrest⟩ := Text.int_toString_append_inj hr hs h
      exact ⟨rfl, hrest⟩
  | .string x, b, r, s, ha, hb, _, _, h => by
    have hkind := kind_eq ha hb h
    cases b <;> cases hkind
    rw [text, text] at h
    obtain ⟨rfl, hrest⟩ := quote_append_inj h
    exact ⟨rfl, hrest⟩
  | .array items, b, r, s, ha, hb, _, _, h => by
    have hkind := kind_eq ha hb h
    cases b <;> cases hkind
    rw [toList_array, toList_array] at h
    rw [floatless] at ha hb
    obtain ⟨rfl, hrest⟩ := items_append_inj ha hb
      (behind_of_join (itemTexts_ne ha) (itemTexts_ne hb) (List.cons.inj h).2)
    exact ⟨rfl, hrest⟩
  | .object members, b, r, s, ha, hb, _, _, h => by
    have hkind := kind_eq ha hb h
    cases b <;> cases hkind
    rw [toList_object, toList_object] at h
    rw [floatless] at ha hb
    obtain ⟨rfl, hrest⟩ := members_append_inj ha hb
      (behind_of_join (memberTexts_ne _) (memberTexts_ne _) (List.cons.inj h).2)
    exact ⟨rfl, hrest⟩

theorem items_append_inj : ∀ {as bs : List Json} {r s : List Char}, floatlessItems as = true →
    floatlessItems bs = true →
    behind (itemTexts as) ++ ']' :: r = behind (itemTexts bs) ++ ']' :: s → as = bs ∧ r = s
  | [], [], _, _, _, _, h => ⟨rfl, (List.cons.inj h).2⟩
  | [], b :: bs, _, _, _, _, h => by
    rw [itemTexts, itemTexts, behind_cons] at h
    exact absurd (List.cons.inj h).1 (by decide)
  | a :: as, [], _, _, _, _, h => by
    rw [itemTexts, itemTexts, behind_cons] at h
    exact absurd (List.cons.inj h).1 (by decide)
  | a :: as, b :: bs, r, s, ha, hb, h => by
    rw [itemTexts, itemTexts, behind_cons, behind_cons] at h
    rw [floatlessItems, Bool.and_eq_true] at ha hb
    obtain ⟨rfl, hitems⟩ := text_append_inj ha.1 hb.1 (stops_behind rfl r) (stops_behind rfl s)
      (List.cons.inj h).2
    obtain ⟨rfl, hrest⟩ := items_append_inj ha.2 hb.2 hitems
    exact ⟨rfl, hrest⟩

theorem members_append_inj : ∀ {as bs : List (String × Json)} {r s : List Char},
    floatlessMembers as = true → floatlessMembers bs = true →
    behind (memberTexts as) ++ '\x7d' :: r = behind (memberTexts bs) ++ '\x7d' :: s →
    as = bs ∧ r = s
  | [], [], _, _, _, _, h => ⟨rfl, (List.cons.inj h).2⟩
  | [], (n, b) :: bs, _, _, _, _, h => by
    rw [memberTexts, memberTexts, behind_cons] at h
    exact absurd (List.cons.inj h).1 (by decide)
  | (m, a) :: as, [], _, _, _, _, h => by
    rw [memberTexts, memberTexts, behind_cons] at h
    exact absurd (List.cons.inj h).1 (by decide)
  | (m, a) :: as, (n, b) :: bs, r, s, ha, hb, h => by
    rw [memberTexts, memberTexts, behind_cons, behind_cons, toList_member, toList_member] at h
    rw [floatlessMembers, Bool.and_eq_true] at ha hb
    obtain ⟨rfl, hvalue⟩ := quote_append_inj (List.cons.inj h).2
    obtain ⟨rfl, hmembers⟩ := text_append_inj ha.1 hb.1 (stops_behind rfl r) (stops_behind rfl s)
      (List.cons.inj hvalue).2
    obtain ⟨rfl, hrest⟩ := members_append_inj ha.2 hb.2 hmembers
    exact ⟨rfl, hrest⟩
end

theorem text_injective {a b : Json} (ha : a.floatless = true) (hb : b.floatless = true)
    (h : a.text = b.text) : a = b :=
  (text_append_inj ha hb Text.stops_nil Text.stops_nil (by rw [h])).1

end Orm.Json
