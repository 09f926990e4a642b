import Orm.Sql

/-
How a database reads the text of a predicate.

A text is cut into words, signs, quoted texts and slots; what stands in brackets, or from `CASE` to
`END`, is one item. Of the connectives outside brackets `NOT` binds tighter than `AND` and `AND`
tighter than `OR`. What has no connective outside brackets is a comparison, and a row says whether
it holds.

Only the text is read: a name or a parameter is a slot whatever it is called. Marks that standard SQL
does not have (dollar quotes, `#`) are signs like any other.

Some texts stand for themselves: whatever is read before such a text, reading it adds its own items
and leaves nothing open (`Sql.Passage`). They are put together like the texts of predicates are, by what
separates two of them and by brackets around one.
-/

namespace Orm

section

/-! ## Truth -/

/-- What a predicate comes to for a row. -/
inductive Truth where
  | no
  | unknown
  | yes
  deriving DecidableEq, Repr

namespace Truth

def both : Truth → Truth → Truth
  | .yes, t => t
  | .no, _ => .no
  | .unknown, .no => .no
  | .unknown, _ => .unknown

def either : Truth → Truth → Truth
  | .no, t => t
  | .yes, _ => .yes
  | .unknown, .yes => .yes
  | .unknown, _ => .unknown

def negate : Truth → Truth
  | .yes => .no
  | .unknown => .unknown
  | .no => .yes

def all (ts : List Truth) : Truth := ts.foldr both .yes

def any (ts : List Truth) : Truth := ts.foldr either .no

@[simp] theorem all_nil : all [] = .yes := rfl

@[simp] theorem any_nil : any [] = .no := rfl

@[simp] theorem all_cons (t : Truth) (ts : List Truth) : all (t :: ts) = both t (all ts) := rfl

@[simp] theorem any_cons (t : Truth) (ts : List Truth) : any (t :: ts) = either t (any ts) := rfl

@[simp] theorem both_yes (t : Truth) : both t .yes = t := by cases t <;> rfl

@[simp] theorem either_no (t : Truth) : either t .no = t := by cases t <;> rfl

theorem both_assoc (a b c : Truth) : both (both a b) c = both a (both b c) := by
  cases a <;> cases b <;> cases c <;> rfl

theorem either_assoc (a b c : Truth) : either (either a b) c = either a (either b c) := by
  cases a <;> cases b <;> cases c <;> rfl

theorem all_append (ts us : List Truth) : all (ts ++ us) = both (all ts) (all us) := by
  induction ts with
  | nil => rfl
  | cons t ts ih => rw [List.cons_append, all_cons, ih, all_cons, both_assoc]

theorem any_append (ts us : List Truth) : any (ts ++ us) = either (any ts) (any us) := by
  induction ts with
  | nil => rfl
  | cons t ts ih => rw [List.cons_append, any_cons, ih, any_cons, either_assoc]

theorem both_eq_yes {a b : Truth} : both a b = .yes ↔ a = .yes ∧ b = .yes := by
  cases a <;> cases b <;> decide

/-- A row is kept by a conjunction if every part keeps it. -/
theorem all_eq_yes {ts : List Truth} : all ts = .yes ↔ ∀ t ∈ ts, t = .yes := by
  induction ts with
  | nil => simp
  | cons t ts ih => rw [all_cons, both_eq_yes, ih, List.forall_mem_cons]

end Truth

namespace Reading

/-! ## Items -/

inductive Bracket where
  | round
  | case
  deriving DecidableEq, Repr

/-- A part of a text; words are in upper case. -/
inductive Item where
  | word (w : List Char)
  | sign (c : Char)
  | quoted (mark : Char) (content : List Char)
  | slot (p : Piece)
  | nested (b : Bracket) (items : List Item)

def Item.isWord (s : String) : Item → Bool
  | .word w => w == s.toList
  | _ => false

/-- A character of plain text, or a piece that is more than text. -/
inductive Glyph where
  | char (c : Char)
  | slot (p : Piece)

end Reading

def Piece.glyphs : Piece → List Reading.Glyph
  | .text s => s.toList.map .char
  | p => [.slot p]

def Sql.glyphs (sql : Sql) : List Reading.Glyph := sql.flatMap Piece.glyphs

namespace Reading

/-- What has been begun and not yet ended. -/
inductive Mode where
  | plain
  | word (w : List Char)
  /-- A sign with which a comment may begin. -/
  | sign (c : Char)
  | quoted (mark : Char) (content : List Char)
  | line
  /-- Inside a comment between `/*` and `*/`, directly behind a star or not. -/
  | block (star : Bool)
  deriving DecidableEq, Repr

/-- The items read so far, those before each open bracket kept apart. -/
structure Reader where
  mode : Mode := .plain
  items : List Item := []
  outer : List (Bracket × List Item) := []

def wordChar (c : Char) : Bool := c.isAlphanum || c == '_' || 128 ≤ c.toNat

def quoteMark (c : Char) : Bool := c == '\'' || c == '"' || c == '`'

namespace Reader

def put (r : Reader) (i : Item) : Reader := { r with items := r.items ++ [i] }

def enter (r : Reader) (b : Bracket) : Reader :=
  { r with items := [], outer := (b, r.items) :: r.outer }

def leave (r : Reader) (b : Bracket) : Option Reader :=
  match r.outer with
  | [] => none
  | (opened, before) :: outer =>
    if opened = b then some { r with items := before ++ [.nested b r.items], outer } else none

def endWord (r : Reader) (w : List Char) : Option Reader :=
  if w = "CASE".toList then some (r.enter .case)
  else if w = "END".toList then r.leave .case
  else some (r.put (.word w))

/-- Ends what may end here; a quote or a comment may not. -/
def settle (r : Reader) : Option Reader :=
  match r.mode with
  | .plain => some r
  | .word w => { r with mode := .plain }.endWord w
  | .sign c => some ({ r with mode := .plain }.put (.sign c))
  | .quoted _ _ | .line | .block _ => none

/-- Reads a glyph of which nothing has been begun. -/
def start (r : Reader) : Glyph → Option Reader
  | .slot p => some (r.put (.slot p))
  | .char c =>
    if c = '(' then some (r.enter .round)
    else if c = ')' then r.leave .round
    else if quoteMark c then some { r with mode := .quoted c [] }
    else if c = '-' ∨ c = '/' then some { r with mode := .sign c }
    else if wordChar c then some { r with mode := .word [c.toUpper] }
    else if c.isWhitespace then some r
    else some (r.put (.sign c))

def step (r : Reader) (g : Glyph) : Option Reader :=
  match r.mode, g with
  | .word w, .char c =>
    if wordChar c then some { r with mode := .word (w ++ [c.toUpper]) }
    else r.settle.bind (·.start g)
  | .sign s, .char c =>
    if s = '-' ∧ c = '-' then some { r with mode := .line }
    else if s = '/' ∧ c = '*' then some { r with mode := .block false }
    else r.settle.bind (·.start g)
  | .quoted mark content, .char c =>
    if c = mark then some ({ r with mode := .plain }.put (.quoted mark content))
    else some { r with mode := .quoted mark (content ++ [c]) }
  | .line, .char c => some { r with mode := if c = '\n' then .plain else .line }
  | .block star, .char c =>
    some { r with mode := if star && c = '/' then .plain else .block (c = '*') }
  | _, g => r.settle.bind (·.start g)

def run (r : Reader) (gs : List Glyph) : Option Reader := gs.foldlM step r

end Reader

/-! ## Precedence -/

/-- A nested query, which is a value rather than a predicate in brackets. -/
def isQuery (items : List Item) : Bool :=
  items.head?.any fun i => i.isWord "SELECT" || i.isWord "WITH" || i.isWord "VALUES"

/-- A connective, or an item with what it says as a predicate in brackets. -/
inductive Cell where
  | and
  | or
  | operand (i : Item) (inside : Truth)

def Cell.isAnd : Cell → Bool
  | .and => true
  | _ => false

def Cell.isOr : Cell → Bool
  | .or => true
  | _ => false

def Cell.item? : Cell → Option Item
  | .operand i _ => some i
  | _ => none

/-- What a row says of comparisons. -/
structure Valuation where
  holds : List Item → Truth
  always : holds [.word ['1'], .sign '=', .word ['1']] = .yes
  never : holds [.word ['1'], .sign '=', .word ['0']] = .no

/-- An operand of `AND`: a comparison or a predicate in brackets, behind any number of `NOT`. -/
def Valuation.operand (ρ : Valuation) : List Cell → Truth
  | [] => ρ.holds []
  | .operand i inside :: rest =>
    if i.isWord "NOT" then (ρ.operand rest).negate
    else
      match i, rest with
      | .nested .round items, [] => if isQuery items then ρ.holds [i] else inside
      | _, _ => ρ.holds (i :: rest.filterMap Cell.item?)
  | _ :: rest => ρ.holds (rest.filterMap Cell.item?)

def Valuation.disjunct (ρ : Valuation) (cells : List Cell) : Truth :=
  .all ((cells.splitOnP Cell.isAnd).map ρ.operand)

def Valuation.sentence (ρ : Valuation) (cells : List Cell) : Truth :=
  .any ((cells.splitOnP Cell.isOr).map ρ.disjunct)

/-- Whether a `BETWEEN` behind the items still has its `AND` to come. -/
def ranging (due : Bool) : List Item → Bool
  | [] => due
  | i :: rest => ranging (i.isWord "BETWEEN" || due && !i.isWord "AND") rest

mutual
/-- What an item says as a predicate in brackets. -/
def Valuation.inside (ρ : Valuation) : Item → Truth
  | .nested .round items => ρ.sentence (ρ.cells false items)
  | _ => .unknown

/-- The items with their connectives; the `AND` of a `BETWEEN` is none. -/
def Valuation.cells (ρ : Valuation) (due : Bool) : List Item → List Cell
  | [] => []
  | i :: rest =>
    let cell : Cell :=
      if i.isWord "OR" then .or
      else if i.isWord "AND" && !due then .and
      else .operand i (ρ.inside i)
    cell :: ρ.cells (i.isWord "BETWEEN" || due && !i.isWord "AND") rest
end

/-- What a predicate says of a row. -/
def Valuation.truth (ρ : Valuation) (items : List Item) : Truth := ρ.sentence (ρ.cells false items)

end Reading

/-! ## Texts -/

/-- The items of a text all of whose brackets, quotes and comments are closed. -/
def Sql.items (sql : Sql) : Option (List Reading.Item) :=
  match (({} : Reading.Reader).run sql.glyphs).bind (·.settle) with
  | some { items, outer := [], .. } => some items
  | _ => none

/-- What a text says of a row; a text with something left open says nothing. -/
def Sql.truth (ρ : Reading.Valuation) (sql : Sql) : Truth := (sql.items.map ρ.truth).getD .unknown

end

section

namespace Reading

/-- A glyph that ends what stands before it, if that is no quote and no comment. -/
def Glyph.ends : Glyph → Bool
  | .slot _ => true
  | .char c => !wordChar c && c != '-' && c != '*'

theorem wordChar_of_isDigit {c : Char} (h : c.isDigit = true) : wordChar c = true := by
  simp [wordChar, Char.isAlphanum, h]

namespace Reader

variable {r r' : Reader} {g : Glyph}

theorem settle_of_plain (h : r.mode = .plain) : r.settle = some r := by
  rw [settle, h]

theorem leave_mode {b : Bracket} (h : r.leave b = some r') : r'.mode = r.mode := by
  unfold leave at h
  split at h
  · cases h
  · split at h
    · cases h
      rfl
    · cases h

theorem settle_mode (h : r.settle = some r') : r'.mode = .plain := by
  unfold settle at h
  split at h
  · cases h
    assumption
  · unfold endWord at h
    split at h
    · cases h
      rfl
    · split at h
      · exact leave_mode h
      · cases h
        rfl
  · cases h
    rfl
  all_goals cases h

theorem step_of_plain (h : r.mode = .plain) (g : Glyph) : r.step g = r.start g := by
  unfold step
  rw [settle_of_plain h, h]
  rfl

/-- What is not yet ended is ended by such a glyph. -/
theorem step_of_settle (h : r.settle = some r') (hg : g.ends = true) : r.step g = r'.step g := by
  rw [step_of_plain (settle_mode h)]
  have hsettle : r.settle.bind (·.start g) = r'.start g := by rw [h]; rfl
  rw [← hsettle]
  rcases r with ⟨mode, items, outer⟩
  cases mode with
  | plain => rfl
  | word w =>
    cases g with
    | slot p => rfl
    | char c =>
      simp only [Glyph.ends, Bool.and_eq_true, Bool.not_eq_true'] at hg
      simp only [step, hg.1.1, Bool.false_eq_true, if_false]
  | sign c =>
    cases g with
    | slot p => rfl
    | char d =>
      simp only [Glyph.ends, Bool.and_eq_true, bne_iff_ne] at hg
      simp only [step, hg.1.2, hg.2, and_false, if_false]
  | quoted | line | block => cases h

theorem run_nil (r : Reader) : r.run [] = some r := rfl

theorem run_cons (r : Reader) (g : Glyph) (gs : List Glyph) :
    r.run (g :: gs) = (r.step g).bind (·.run gs) := by
  rw [run, List.foldlM_cons]
  rfl

theorem run_append (r : Reader) (gs hs : List Glyph) :
    r.run (gs ++ hs) = (r.run gs).bind (·.run hs) := by
  rw [run, List.foldlM_append]
  rfl

/-- Reading on from where a text has ended is reading on from where nothing is left begun. -/
theorem run_of_settle {gs : List Glyph} (h : r.settle = some r')
    (hg : gs.head?.all Glyph.ends = true) :
    (r.run gs).bind settle = (r'.run gs).bind settle := by
  cases gs with
  | nil =>
    rw [run_nil, run_nil, Option.bind_some, Option.bind_some, h,
      settle_of_plain (settle_mode h)]
  | cons g gs => rw [run_cons, run_cons, step_of_settle h (by simpa using hg)]

/-! ## Words -/

theorem run_word : ∀ {cs : List Char} {r : Reader} {w : List Char}, r.mode = .word w →
    (∀ c ∈ cs, wordChar c = true) →
    r.run (cs.map .char) = some { r with mode := .word (w ++ cs.map Char.toUpper) }
  | [], r, w, hr, _ => by
    rw [List.map_nil, List.map_nil, List.append_nil, ← hr]
    rfl
  | c :: cs, r, w, hr, hcs => by
    rw [List.forall_mem_cons] at hcs
    have hstep : r.step (.char c) = some { r with mode := .word (w ++ [c.toUpper]) } := by
      rcases r with ⟨mode, items, outer⟩
      dsimp only at hr
      subst hr
      exact if_pos hcs.1
    rw [List.map_cons, run_cons, hstep, Option.bind_some,
      run_word (w := w ++ [c.toUpper]) rfl hcs.2, List.map_cons, List.append_assoc]
    rfl

theorem start_digit (r : Reader) {c : Char} (h : c.isDigit = true) :
    r.start (.char c) = some { r with mode := .word [c.toUpper] } := by
  have hne : ∀ d : Char, d.isDigit = false → c ≠ d := by
    rintro d hd rfl
    simp [hd] at h
  have hquote : quoteMark c = false := by
    simp [quoteMark, hne '\'' (by decide), hne '"' (by decide), hne '`' (by decide)]
  unfold start
  simp only [hquote, wordChar_of_isDigit h, hne '(' (by decide), hne ')' (by decide),
    hne '-' (by decide), hne '/' (by decide), if_false, if_true, or_self, Bool.false_eq_true]

/-- A word that begins with a digit is no keyword. -/
theorem endWord_digit (r : Reader) {c : Char} (h : c.isDigit = true) (w : List Char) :
    r.endWord (c.toUpper :: w) = some (r.put (.word (c.toUpper :: w))) := by
  have hupper : c.toUpper.isDigit = true := by
    have hlow : ¬ 'a'.val ≤ c.val := by
      simp only [Char.isDigit, Bool.and_eq_true, decide_eq_true_eq] at h
      exact fun hle => absurd (UInt32.le_trans hle h.2) (by decide)
    delta Char.toUpper
    rwa [dif_neg fun hc => hlow hc.1]
  have hne : ∀ d : Char, d.isDigit = false → c.toUpper ≠ d := by
    rintro d hd rfl
    simp [hd] at hupper
  have hcase : c.toUpper :: w ≠ "CASE".toList := fun he => hne 'C' (by decide) (List.cons.inj he).1
  have hend : c.toUpper :: w ≠ "END".toList := fun he => hne 'E' (by decide) (List.cons.inj he).1
  rw [endWord, if_neg hcase, if_neg hend]

end Reader

end Reading

open Reading

namespace Sql

/-! ## Passages -/

theorem glyphs_append (a b : Sql) : (a ++ b).glyphs = a.glyphs ++ b.glyphs :=
  List.flatMap_append

/-- Reading the text adds these items, whatever has been read before. -/
def Reads (sql : Sql) (items : List Item) : Prop :=
  ∀ r : Reader, r.mode = .plain →
    (r.run sql.glyphs).bind Reader.settle = some { r with items := r.items ++ items }

/-- Text that ends what stands before it. -/
def Separate (sql : Sql) : Prop := sql.glyphs.head?.all Glyph.ends = true

/-- The text opens a bracket behind some items. -/
def OpensWith (sql : Sql) (before : List Item) : Prop :=
  ∀ r : Reader, r.mode = .plain →
    r.run sql.glyphs = some ({ r with items := r.items ++ before }.enter .round)

namespace Reads

variable {a b : Sql} {is js : List Item}

theorem items_eq (h : Reads a is) : a.items = some is := by
  rw [Sql.items, h {} rfl]
  rfl

theorem truth_eq (h : Reads a is) (ρ : Valuation) : a.truth ρ = ρ.truth is := by
  rw [Sql.truth, h.items_eq]
  rfl

theorem unique (h : Reads a is) (h' : Reads a js) : is = js :=
  Option.some.inj (h.items_eq.symm.trans h'.items_eq)

theorem congr (h : Reads a is) (hg : b.glyphs = a.glyphs) : Reads b is := by
  intro r hr
  rw [hg]
  exact h r hr

theorem nil : Reads [] [] := by
  intro r hr
  change r.settle = _
  rw [Reader.settle_of_plain hr, List.append_nil]

theorem slot {p : Piece} (hp : p.glyphs = [.slot p]) : Reads [p] [.slot p] := by
  intro r hr
  have : Sql.glyphs [p] = [.slot p] := by simp [glyphs, hp]
  rw [this, Reader.run_cons, Reader.step_of_plain hr]
  exact Reader.settle_of_plain hr

theorem append (ha : Reads a is) (hb : Reads b js) (ho : Separate b) :
    Reads (a ++ b) (is ++ js) := by
  intro r hr
  have h := ha r hr
  obtain ⟨r₁, h₁, hs⟩ := Option.bind_eq_some_iff.1 h
  rw [glyphs_append, Reader.run_append, h₁, Option.bind_some, Reader.run_of_settle hs ho,
    ← List.append_assoc]
  exact hb { r with items := r.items ++ is } hr

/-- A passage in brackets, behind what stands before the opening one. -/
theorem bracket {s : Sql} {before : List Item} (hs : OpensWith s before) (ha : Reads a is) :
    Reads (s ++ a ++ [.text ")"]) (before ++ [.nested .round is]) := by
  intro r hr
  have hentered : ({ r with items := r.items ++ before }.enter .round).mode = .plain := hr
  obtain ⟨r₁, h₁, hset⟩ := Option.bind_eq_some_iff.1 (ha _ hentered)
  have hclose : Sql.glyphs [.text ")"] = [.char ')'] := rfl
  rw [glyphs_append, glyphs_append, Reader.run_append, Reader.run_append, hs r hr,
    Option.bind_some, h₁, Option.bind_some, hclose, Reader.run_of_settle hset rfl,
    Reader.run_cons, Reader.step_of_plain (Reader.settle_mode hset), ← List.append_assoc]
  exact Reader.settle_of_plain hr

end Reads

/-- Text that ends what stands before it, adds some items and leaves nothing begun. -/
structure Divides (s : Sql) (between : List Item) : Prop where
  ends : s.glyphs.head?.any Glyph.ends = true
  run : ∀ r : Reader, r.mode = .plain →
    r.run s.glyphs = some { r with items := r.items ++ between }

theorem Separate.of_head {s : Sql} (h : s.glyphs.head?.any Glyph.ends = true) (b : Sql) :
    Separate (s ++ b) := by
  rw [Separate, glyphs_append]
  cases hs : s.glyphs with
  | nil => simp [hs] at h
  | cons g gs => simpa [hs] using h

theorem Reads.divided {a s b : Sql} {is between js : List Item} (ha : Reads a is)
    (hs : Divides s between) (hb : Reads b js) : Reads (a ++ s ++ b) (is ++ (between ++ js)) := by
  rw [List.append_assoc]
  refine ha.append (fun r hr => ?_) (.of_head hs.ends b)
  rw [glyphs_append, Reader.run_append, hs.run r hr, ← List.append_assoc]
  exact hb { r with items := r.items ++ between } hr

end Sql

end

end Orm
