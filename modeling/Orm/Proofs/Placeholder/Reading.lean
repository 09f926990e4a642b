import Orm.Proofs.Placeholder.Numbering
import Orm.Proofs.Spelling.Text

/-
Placeholders as the reader of a text finds them.

A database that numbers placeholders reads `$` with all digits that follow, so a text says which
values it takes only if nothing else begins with `$` and no digit follows a placeholder by chance.
-/

namespace Orm

/-- The placeholders `$…` of a text, from left to right. -/
def placeholders : List Char → List String
  | [] => []
  | c :: rest =>
    if c = '$' then String.ofList (c :: rest.takeWhile Char.isDigit) :: placeholders rest
    else placeholders rest

/-- Text in which no placeholder begins. -/
def Text.Plain (s : String) : Prop := ∀ c ∈ s.toList, c ≠ '?' ∧ c ≠ '$'

instance (s : String) : Decidable (Text.Plain s) :=
  List.decidableBAll (fun c => c ≠ '?' ∧ c ≠ '$') s.toList

/-- A character with which no placeholder begins. -/
abbrev Unmarked (c : Char) : Prop := c ≠ '?' ∧ c ≠ '$'

instance : Spells Unmarked := ⟨fun _ h => ⟨h.1, h.2.1⟩⟩

abbrev Alphabet.unmarked : Alphabet := ⟨Unmarked, Unmarked, True⟩

/-- Text that does not begin with a digit. -/
def Text.Opens (cs : List Char) : Prop := ∀ c, cs.head? = some c → c.isDigit = false

namespace Text

theorem Plain.append {a b : String} (ha : Plain a) (hb : Plain b) : Plain (a ++ b) :=
  Only.append ha hb

theorem Plain.join {sep : String} (hs : Plain sep) {parts : List String}
    (h : ∀ part ∈ parts, Plain part) : Plain (Text.join sep parts) :=
  Only.join hs h

theorem plain_toString (n : Nat) : Plain (toString n) := number n

end Text

/-! ## Reading -/

theorem placeholders_append {a : List Char} (h : '$' ∉ a) (b : List Char) :
    placeholders (a ++ b) = placeholders b := by
  induction a with
  | nil => rfl
  | cons c a ih =>
    have hc : c ≠ '$' := fun he => h (he ▸ List.mem_cons_self)
    rw [List.cons_append, placeholders, if_neg hc]
    exact ih fun hm => h (List.mem_cons_of_mem c hm)

/-- The number of a placeholder ends where its digits end. -/
theorem placeholders_number (n : Nat) {rest : List Char} (h : Text.Opens rest) :
    placeholders (("$" ++ toString n).toList ++ rest) = ("$" ++ toString n) :: placeholders rest := by
  have htake : ((toString n).toList ++ rest).takeWhile Char.isDigit = (toString n).toList := by
    rw [List.takeWhile_append_of_pos fun c hc => Text.isDigit_of_mem_toString hc]
    cases rest with
    | nil => simp
    | cons c rest => simp [h c rfl]
  have hno : '$' ∉ (toString n).toList := fun hc => (Text.plain_toString n _ hc).2 rfl
  rw [String.toList_append]
  change placeholders ('$' :: ((toString n).toList ++ rest)) = _
  rw [placeholders, if_pos rfl, htake, placeholders_append hno]
  have hname : String.ofList ('$' :: (toString n).toList) = "$" ++ toString n := by
    rw [← String.toList_inj, String.toList_ofList, String.toList_append]
    rfl
  rw [hname]

/-! ## Dialects and pieces -/

/-- A dialect whose own words begin no placeholder. -/
structure Dialect.Plain (d : Dialect) : Prop where
  quote : d.quote ≠ '?' ∧ d.quote ≠ '$'
  unboundedLimit : ∀ s, d.unboundedLimit = some s → Text.Plain s
  emptyInsert : Text.Plain d.emptyInsert

namespace Dialect

variable {d : Dialect}

theorem Plain.quoteIdent (hd : d.Plain) {s : String} (h : Text.Plain s) :
    Text.Plain (d.quoteIdent s) := by
  have escaped : ∀ cs : List Char, (∀ c ∈ cs, c ≠ '?' ∧ c ≠ '$') →
      ∀ c ∈ escapeQuote d.quote cs, c ≠ '?' ∧ c ≠ '$' := by
    intro cs
    induction cs with
    | nil => simp [escapeQuote]
    | cons c cs ih =>
      intro hcs c' hc'
      have ih := ih fun x hx => hcs x (List.mem_cons_of_mem c hx)
      unfold escapeQuote at hc'
      split at hc'
      · rcases List.mem_cons.1 hc' with rfl | hc'
        · exact hd.quote
        · rcases List.mem_cons.1 hc' with rfl | hc'
          · exact hd.quote
          · exact ih c' hc'
      · rcases List.mem_cons.1 hc' with rfl | hc'
        · exact hcs _ List.mem_cons_self
        · exact ih c' hc'
  intro c hc
  simp only [Dialect.quoteIdent, String.toList_ofList, List.cons_append, List.mem_cons,
    List.mem_append, List.not_mem_nil, or_false] at hc
  rcases hc with rfl | hc | rfl
  · exact hd.quote
  · exact escaped _ h c hc
  · exact hd.quote

theorem Plain.quotePath (hd : d.Plain) {parts : List String} (h : ∀ p ∈ parts, Text.Plain p) :
    Text.Plain (d.quotePath parts) := by
  refine Text.Plain.join (by decide) fun part hp => ?_
  obtain ⟨p, hmem, rfl⟩ := List.mem_map.1 hp
  exact hd.quoteIdent (h p hmem)

/-- A name begins with the quote. -/
theorem head?_quotePath (d : Dialect) {parts : List String} (h : parts ≠ []) :
    (d.quotePath parts).toList.head? = some d.quote := by
  cases parts with
  | nil => exact absurd rfl h
  | cons p rest =>
    unfold Dialect.quotePath Text.join
    cases rest <;> simp [Dialect.quoteIdent, String.intercalate_cons_cons]

end Dialect

theorem Piece.param?_eq_some {p : Piece} {n : Nat} (h : p.param? = some n) : p = .param n := by
  cases p <;> simp_all [Piece.param?]

theorem Piece.Only.print {d : Dialect} (hd : d.Plain) {p : Piece} (hp : p.Only .unmarked)
    (h : p.param? = none) : Text.Plain (p.print d) := by
  cases p with
  | text s => exact hp
  | ident parts => exact hd.quotePath hp
  | param n => simp [Piece.param?] at h
  | offset n =>
    unfold Piece.print
    dsimp only
    split
    · rename_i all hall
      exact ((Text.Plain.append (by decide) (hd.unboundedLimit all hall)).append (by decide)).append
        (Text.plain_toString n)
    · exact Text.Plain.append (by decide) (Text.plain_toString n)
  | emptyInsert => exact hd.emptyInsert
  | returning columns =>
    unfold Piece.print
    dsimp only
    split
    · refine Text.Plain.append (by decide) (Text.Plain.join (by decide) fun part hc => ?_)
      obtain ⟨c, hmem, rfl⟩ := List.mem_map.1 hc
      exact hd.quoteIdent (hp.2 c hmem)
    · decide

/-! ## Statements -/

namespace Sql

variable {d : Dialect}

def Opens (d : Dialect) (sql : Sql) : Prop := Text.Opens (sql.print d).toList

/-- No placeholder is directly followed by a digit. -/
def Apart (d : Dialect) : Sql → Prop
  | [] => True
  | p :: rest => (p.param? ≠ none → Opens d rest) ∧ Apart d rest

theorem params_cons (p : Piece) (sql : Sql) :
    params (p :: sql) = p.param?.toList ++ sql.params := by
  cases p <;> rfl

theorem toList_print_cons (p : Piece) (sql : Sql) :
    (print d (p :: sql)).toList = (p.print d).toList ++ (print d sql).toList := by
  simp [print, String.toList_join]

theorem toList_print_append (a b : Sql) :
    (print d (a ++ b)).toList = (print d a).toList ++ (print d b).toList := by
  simp [print, String.toList_join]

theorem Opens.append {a b : Sql} (ha : Opens d a) (hb : Opens d b) : Opens d (a ++ b) := by
  intro c hc
  rw [toList_print_append] at hc
  cases he : (print d a).toList with
  | nil => exact hb c (by simpa [he] using hc)
  | cons x xs => exact ha c (by simpa [he] using hc)

theorem opens_text {s : String} (h : s.toList.head?.any (!·.isDigit) = true) (rest : Sql) :
    Opens d (.text s :: rest) := by
  intro c hc
  rw [toList_print_cons] at hc
  cases he : s.toList with
  | nil => simp [he] at h
  | cons x xs =>
    have hx : (Piece.print d (.text s)).toList = x :: xs := he
    simp only [hx, List.cons_append, List.head?_cons, Option.some.injEq] at hc
    simpa [he, hc] using h

theorem Apart.append : ∀ {a b : Sql}, Apart d a → Apart d b → Opens d b → Apart d (a ++ b)
  | [], _, _, hb, _ => hb
  | _ :: _, _, ha, hb, ho => ⟨fun hp => (ha.1 hp).append ho, ha.2.append hb ho⟩

theorem apart_of_params_eq_nil : ∀ {sql : Sql}, sql.params = [] → Apart d sql
  | [], _ => trivial
  | p :: rest, h => by
    rw [params_cons, List.append_eq_nil_iff, Option.toList_eq_nil_iff] at h
    exact ⟨fun hne => absurd h.1 hne, apart_of_params_eq_nil h.2⟩

/-- Questions in a text are its placeholders. -/
theorem count_print (hd : d.Plain) (hq : d.placeholder = .question) : ∀ {sql : Sql},
    sql.Only .unmarked → (sql.print d).toList.count '?' = sql.params.length
  | [], _ => by rfl
  | p :: rest, h => by
    have ih : (print d rest).toList.count '?' = (params rest).length :=
      count_print hd hq fun q hq => h q (List.mem_cons_of_mem p hq)
    rw [toList_print_cons, List.count_append, ih, params_cons, List.length_append]
    cases hp : p.param? with
    | none =>
      have := (h p List.mem_cons_self).print hd hp
      rw [List.count_eq_zero.2 fun hm => (this _ hm).1 rfl]
      rfl
    | some n =>
      obtain rfl := Piece.param?_eq_some hp
      have : (Piece.print d (.param n)).toList = ['?'] := by
        simp [Piece.print, Dialect.placeholderText, hq, Placeholder.text]
      rw [this]
      rfl

/-- Numbered placeholders are read as they are written. -/
theorem placeholders_print (hd : d.Plain) (hq : d.placeholder = .dollar) : ∀ {sql : Sql},
    sql.Only .unmarked → sql.Apart d →
    placeholders (sql.print d).toList = sql.params.map fun n => "$" ++ toString n
  | [], _, _ => by rfl
  | p :: rest, h, ha => by
    have ih : placeholders (print d rest).toList = (params rest).map fun n => "$" ++ toString n :=
      placeholders_print hd hq (fun q hq => h q (List.mem_cons_of_mem p hq)) ha.2
    rw [toList_print_cons, params_cons, List.map_append]
    cases hp : p.param? with
    | none =>
      have := (h p List.mem_cons_self).print hd hp
      rw [placeholders_append fun hm => (this _ hm).2 rfl, ih]
      rfl
    | some n =>
      obtain rfl := Piece.param?_eq_some hp
      have : Piece.print d (.param n) = "$" ++ toString n := by
        simp [Piece.print, Dialect.placeholderText, hq, Placeholder.text]
      rw [this, placeholders_number n (ha.1 (by simp [Piece.param?])), ih]
      rfl

end Sql

/-- The placeholders of a text, read from left to right, are those of its values in their order. -/
structure Statement.InOrder (d : Dialect) (s : Statement) : Prop where
  numbered : s.Numbered
  question : d.placeholder = .question → (s.sql.print d).toList.count '?' = s.args.length
  dollar : d.placeholder = .dollar → placeholders (s.sql.print d).toList =
    (List.range' 1 s.args.length).map fun n => "$" ++ toString n

/-- A text of such characters, with no digit behind a placeholder where that would matter. -/
structure Sql.Fragment (A : Alphabet) (d : Dialect) (sql : Sql) : Prop where
  only : sql.Only A
  apart : d.placeholder = .dollar → sql.Apart d

theorem Statement.Numbered.inOrder {d : Dialect} {s : Statement} (h : s.Numbered) (hd : d.Plain)
    (hs : s.sql.Fragment .unmarked d) : s.InOrder d where
  numbered := h
  question hq := by rw [Sql.count_print hd hq hs.only, h, List.length_range']
  dollar hq := by rw [Sql.placeholders_print hd hq hs.only (hs.apart hq), h]

end Orm
