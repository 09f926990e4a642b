import Orm.Sql

/-
Texts that are made of certain characters only. Statements are put together from names, the texts of
templates and words of their own, none of which has a character that a dialect may give a meaning to
(`Spells`): so what holds of the characters of the names and the texts holds of all.
-/

namespace Orm

variable {ok : Char → Prop}

/-- A character that means nothing to a dialect: no quote, and no beginning of a placeholder. -/
def Common (c : Char) : Prop := c ≠ '?' ∧ c ≠ '$' ∧ c ≠ '\x22' ∧ c ≠ '\x60'

instance : DecidablePred Common := fun _ => instDecidableAnd

/-- The words of statements are made of such characters. -/
class Spells (ok : Char → Prop) : Prop where
  common : ∀ c, Common c → ok c

instance : Spells Common := ⟨fun _ h => h⟩

namespace Text

/-- All characters of a text are such. -/
def Only (ok : Char → Prop) (s : String) : Prop := ∀ c ∈ s.toList, ok c

instance [DecidablePred ok] (s : String) : Decidable (Only ok s) :=
  List.decidableBAll ok s.toList

theorem Only.append {a b : String} (ha : Only ok a) (hb : Only ok b) : Only ok (a ++ b) := by
  intro c hc
  rw [String.toList_append, List.mem_append] at hc
  exact hc.elim (ha c) (hb c)

theorem Only.join {sep : String} (hs : Only ok sep) : ∀ {parts : List String},
    (∀ part ∈ parts, Only ok part) → Only ok (Text.join sep parts)
  | [], _ => by
    rw [Text.join, String.intercalate_nil]
    exact nofun
  | [part], hp => by
    rw [Text.join, String.intercalate_singleton]
    exact hp part List.mem_cons_self
  | part :: next :: rest, hp => by
    rw [Text.join, String.intercalate_cons_cons]
    exact ((hp part List.mem_cons_self).append hs).append
      (Only.join hs fun p hm => hp p (List.mem_cons_of_mem _ hm))

theorem only_singleton {c : Char} (h : ok c) : Only ok (String.singleton c) := by
  intro c' hc'
  rw [String.toList_singleton, List.mem_singleton] at hc'
  exact hc' ▸ h

/-- The parts of a text are made of its characters. -/
theorem mem_of_mem_pieces {sep : Char} : ∀ {cs part : List Char} {c : Char},
    part ∈ pieces sep cs → c ∈ part → c ∈ cs
  | [], part, c, hp, hc => by
    rw [pieces, List.mem_singleton] at hp
    exact hp ▸ hc
  | d :: ds, part, c, hp, hc => by
    unfold pieces at hp
    split at hp
    · rcases List.mem_cons.1 hp with rfl | hp
      · exact absurd hc List.not_mem_nil
      · exact List.mem_cons_of_mem _ (mem_of_mem_pieces hp hc)
    · split at hp
      · rw [List.mem_singleton] at hp
        subst hp
        rw [List.mem_singleton] at hc
        exact hc ▸ List.mem_cons_self
      · rename_i p ps hps
        rcases List.mem_cons.1 hp with rfl | hp
        · rcases List.mem_cons.1 hc with rfl | hc
          · exact List.mem_cons_self
          · exact List.mem_cons_of_mem _ (mem_of_mem_pieces (hps ▸ List.mem_cons_self) hc)
        · exact List.mem_cons_of_mem _
            (mem_of_mem_pieces (hps ▸ List.mem_cons_of_mem _ hp) hc)

theorem Only.split {sep : Char} {s : String} (h : Only ok s) :
    ∀ part ∈ Text.split sep s, Only ok part := by
  intro part hp c hc
  obtain ⟨cs, hcs, rfl⟩ := List.mem_map.1 hp
  rw [String.toList_ofList] at hc
  exact h c (mem_of_mem_pieces hcs hc)

theorem isDigit_of_mem_toString {n : Nat} {c : Char} (hc : c ∈ (toString n).toList) :
    c.isDigit = true := by
  rw [Nat.toString_eq_ofList_toDigits, String.toList_ofList] at hc
  exact Nat.isDigit_of_mem_toDigits (by decide) (by decide) hc

theorem common_of_isDigit {c : Char} (h : c.isDigit = true) : Common c := by
  refine ⟨?_, ?_, ?_, ?_⟩
  all_goals
    rintro rfl
    exact absurd h (by decide)

theorem word [Spells ok] {s : String} (h : Only Common s) : Only ok s :=
  fun c hc => Spells.common c (h c hc)

theorem number [Spells ok] (n : Nat) : Only ok (toString n) :=
  word fun _ hc => common_of_isDigit (isDigit_of_mem_toString hc)

end Text

/-! ## Pieces of statements -/

/-- A name of one part or several that are made of such characters. -/
def Column.Only (ok : Char → Prop) (c : Column) : Prop := ∀ part ∈ c, Text.Only ok part

theorem Column.only_one {a : String} (ha : Text.Only ok a) : Column.Only ok [a] :=
  List.forall_mem_singleton.2 ha

theorem Column.only_two {a b : String} (ha : Text.Only ok a) (hb : Text.Only ok b) :
    Column.Only ok [a, b] :=
  List.forall_mem_cons.2 ⟨ha, Column.only_one hb⟩

/-- What statements are written with. -/
structure Alphabet where
  /-- The characters of names. -/
  name : Char → Prop
  /-- The characters of all other text. -/
  text : Char → Prop
  /-- Whether what only an INSERT has may stand in a statement. -/
  insert : Prop

/-- What a piece brings with it is of an alphabet; what a dialect adds to it need not be. -/
def Piece.Only (A : Alphabet) : Piece → Prop
  | .text s => Text.Only A.text s
  | .ident parts => Column.Only A.name parts
  | .emptyInsert => A.insert
  | .returning columns => A.insert ∧ Column.Only A.name columns
  | .param _ | .offset _ => True

def Sql.Only (A : Alphabet) (sql : Sql) : Prop := ∀ p ∈ sql, p.Only A

end Orm
