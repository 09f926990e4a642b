import Mathlib.Logic.Function.Basic
import Orm.Dialect

/-
Quoted names. A quote that stands twice is one quote of the name, and the first that stands alone ends the
name; read by that rule, every quoted name is the one that was quoted, and it ends where it ends
(`readName?_quoteIdent`). So the parts of a path are known from its text (`quotePath_injective`): the point
behind a part is no quote, and ends the part in front of it.
-/

namespace Orm.Dialect

variable {quote : Char} {d : Dialect}

/-! ## Reading -/

/-- The inside of a quoted name, from behind the quote that opens it, and what is behind the quote that
closes it. -/
def readBody? (quote : Char) : List Char → Option (List Char × List Char)
  | [] => none
  | [c] => if c = quote then some ([], []) else none
  | c :: next :: rest =>
    if c ≠ quote then (readBody? quote (next :: rest)).map fun (name, rest) => (c :: name, rest)
    else if next = quote then (readBody? quote rest).map fun (name, rest) => (quote :: name, rest)
    else some ([], next :: rest)

/-- A quoted name and what is behind it. -/
def readName? (quote : Char) : List Char → Option (String × List Char)
  | [] => none
  | c :: cs =>
    if c = quote then (readBody? quote cs).map fun (name, rest) => (String.ofList name, rest) else none

theorem readBody?_cons_of_ne {c : Char} (h : c ≠ quote) (cs : List Char) :
    readBody? quote (c :: cs) = (readBody? quote cs).map fun (name, rest) => (c :: name, rest) := by
  cases cs with
  | nil => simp [readBody?, h]
  | cons next rest => rw [readBody?, if_pos h]

theorem readBody?_twice (cs : List Char) : readBody? quote (quote :: quote :: cs) =
    (readBody? quote cs).map fun (name, rest) => (quote :: name, rest) := by
  rw [readBody?, if_neg (not_not_intro rfl), if_pos rfl]

/-- A quote with none behind it closes the name. -/
theorem readBody?_close {rest : List Char} (h : rest.head? ≠ some quote) :
    readBody? quote (quote :: rest) = some ([], rest) := by
  cases rest with
  | nil => rw [readBody?, if_pos rfl]
  | cons c rest =>
    have hc : c ≠ quote := fun hc => h (congrArg some hc)
    rw [readBody?, if_neg (not_not_intro rfl), if_neg hc]

theorem readBody?_escapeQuote {rest : List Char} (h : rest.head? ≠ some quote) (cs : List Char) :
    readBody? quote (escapeQuote quote cs ++ quote :: rest) = some (cs, rest) := by
  induction cs with
  | nil => exact readBody?_close h
  | cons c cs ih =>
    by_cases hc : c = quote
    · subst hc
      rw [escapeQuote, if_pos rfl, List.cons_append, List.cons_append, readBody?_twice, ih]
      rfl
    · rw [escapeQuote, if_neg hc, List.cons_append, readBody?_cons_of_ne hc, ih]
      rfl

/-- A quoted name is read as itself, whatever is behind it but a quote. -/
theorem readName?_quoteIdent (d : Dialect) (ident : String) {rest : List Char}
    (h : rest.head? ≠ some d.quote) :
    readName? d.quote ((d.quoteIdent ident).toList ++ rest) = some (ident, rest) := by
  have htext : (d.quoteIdent ident).toList ++ rest =
      d.quote :: (escapeQuote d.quote ident.toList ++ d.quote :: rest) := by
    simp [quoteIdent]
  rw [htext, readName?, if_pos rfl, readBody?_escapeQuote h]
  exact congrArg (fun name => some (name, rest)) String.ofList_toList

theorem quoteIdent_append_inj {a b : String} {r s : List Char} (hr : r.head? ≠ some d.quote)
    (hs : s.head? ≠ some d.quote)
    (h : (d.quoteIdent a).toList ++ r = (d.quoteIdent b).toList ++ s) : a = b ∧ r = s := by
  have hread := readName?_quoteIdent d a hr
  rw [h, readName?_quoteIdent d b hs] at hread
  cases hread
  exact ⟨rfl, rfl⟩

/-! ## Paths -/

/-- What the parts of a path add behind the first of them. -/
def pathTail (d : Dialect) (parts : List String) : List Char :=
  parts.flatMap fun part => '.' :: (d.quoteIdent part).toList

theorem toList_quotePath_cons (d : Dialect) (part : String) (parts : List String) :
    (d.quotePath (part :: parts)).toList = (d.quoteIdent part).toList ++ d.pathTail parts := by
  induction parts generalizing part with
  | nil => simp [quotePath, Text.join, pathTail]
  | cons next parts ih =>
    have hnext := ih next
    rw [quotePath, Text.join, List.map_cons] at hnext
    rw [quotePath, Text.join, List.map_cons, List.map_cons, String.intercalate_cons_cons,
      String.toList_append, String.toList_append, hnext]
    simp [pathTail]

/-- No quote follows a part. -/
theorem head?_pathTail (h : d.quote ≠ '.') (parts : List String) :
    (d.pathTail parts).head? ≠ some d.quote := by
  cases parts with
  | nil => exact nofun
  | cons part parts =>
    intro hhead
    exact h (Option.some.inj hhead).symm

theorem pathTail_injective (h : d.quote ≠ '.') : Function.Injective d.pathTail := by
  intro parts
  induction parts with
  | nil =>
    rintro (_ | ⟨part, parts⟩) heq
    · rfl
    · cases heq
  | cons part parts ih =>
    rintro (_ | ⟨part', parts'⟩) heq
    · cases heq
    · have hcons := (List.cons.inj heq).2
      obtain ⟨rfl, htail⟩ :=
        quoteIdent_append_inj (head?_pathTail h parts) (head?_pathTail h parts') hcons
      exact congrArg (part :: ·) (ih htail)

/-- A path is known from its text, unless points are the quotes. -/
theorem quotePath_injective (h : d.quote ≠ '.') : Function.Injective d.quotePath := by
  have hempty : ∀ (part : String) (parts : List String), d.quotePath [] ≠ d.quotePath (part :: parts) := by
    intro part parts heq
    have hlist := congrArg String.toList heq
    rw [toList_quotePath_cons] at hlist
    simp [quotePath, Text.join, quoteIdent] at hlist
  rintro (_ | ⟨part, parts⟩) (_ | ⟨part', parts'⟩) heq
  · rfl
  · exact absurd heq (hempty part' parts')
  · exact absurd heq.symm (hempty part parts)
  · have hlist := congrArg String.toList heq
    rw [toList_quotePath_cons, toList_quotePath_cons] at hlist
    obtain ⟨rfl, htail⟩ :=
      quoteIdent_append_inj (head?_pathTail h parts) (head?_pathTail h parts') hlist
    rw [pathTail_injective h htail]

/-- With points for quotes a quote that ends one part cannot be told from the point behind it. -/
example : Dialect.qualify ⟨"points", '.', .question, .nothing, none, ""⟩ "." "" =
    Dialect.qualify ⟨"points", '.', .question, .nothing, none, ""⟩ "" "." := by
  decide

/-- No name gets out of its quotes. Whatever the quote, a quoted name is read to its end and no further, and
as the name that was quoted; and where the quote is no point, a column is known from its qualified text. -/
theorem quoteIdent_confines (d : Dialect) :
    (∀ ident, readName? d.quote (d.quoteIdent ident).toList = some (ident, [])) ∧
    (d.quote ≠ '.' → ∀ tableAlias column tableAlias' column',
      d.qualify tableAlias column = d.qualify tableAlias' column' →
      tableAlias = tableAlias' ∧ column = column') := by
  constructor
  · intro ident
    have hend : ([] : List Char).head? ≠ some d.quote := nofun
    have hread := readName?_quoteIdent d ident hend
    rwa [List.append_nil] at hread
  · intro h tableAlias column tableAlias' column' heq
    have hparts := quotePath_injective h heq
    cases hparts
    exact ⟨rfl, rfl⟩

/-- A name that would close its quotes, and two columns whose texts differ in nothing but which quotes stand
twice. -/
theorem closingNames_confined :
    readName? '\x22' "\"x\"\" OR 1=1 --\"".toList = some ("x\" OR 1=1 --", []) ∧
    sqlite.quote ≠ '.' ∧
    sqlite.qualify "a" "b\".\"c" = "\"a\".\"b\"\".\"\"c\"" ∧
    sqlite.qualify "a\".\"b" "c" = "\"a\"\".\"\"b\".\"c\"" ∧
    sqlite.qualify "a" "b\".\"c" ≠ sqlite.qualify "a\".\"b" "c" := by
  obtain ⟨hread, hcolumns⟩ := quoteIdent_confines sqlite
  have hpoint : sqlite.quote ≠ '.' := by decide
  refine ⟨hread "x\" OR 1=1 --", hpoint, by decide, by decide, fun h => ?_⟩
  obtain ⟨hsame, -⟩ := hcolumns hpoint _ _ _ _ h
  exact absurd hsame (by decide)

end Orm.Dialect
