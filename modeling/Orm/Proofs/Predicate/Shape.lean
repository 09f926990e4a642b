import Orm.Proofs.Predicate.Reading

/-
A text all of whose brackets, quotes and comments are closed when it is read alone is a passage
(`Sql.Reads.of_items`), and so is every text that differs from it in its slots only
(`Sql.Reads.of_shape`).

A reader that starts with the text is compared, glyph by glyph, with one that has read something
before: the brackets that the text has opened are the innermost ones of the other (`Behind`).

A text keeps its meaning between two `AND`s if it has no `OR` outside brackets, and between two `OR`s
whatever it has. In both places a `BETWEEN` must not lack its own `AND`, and in brackets the text must
not be a query.
-/

namespace Orm

namespace Reading

variable {f : Piece → Piece}

mutual
/-- Other pieces in the slots. -/
def Item.refill (f : Piece → Piece) : Item → Item
  | .slot p => .slot (f p)
  | .nested b items => .nested b (refillAll f items)
  | .word w => .word w
  | .sign c => .sign c
  | .quoted mark content => .quoted mark content

def refillAll (f : Piece → Piece) : List Item → List Item
  | [] => []
  | i :: rest => i.refill f :: refillAll f rest
end

def Glyph.refill (f : Piece → Piece) : Glyph → Glyph
  | .slot p => .slot (f p)
  | .char c => .char c

mutual
theorem Item.refill_id : ∀ i : Item, i.refill id = i
  | .slot _ | .word _ | .sign _ | .quoted _ _ => by simp [Item.refill]
  | .nested b items => by rw [Item.refill, refillAll_id items]

theorem refillAll_id : ∀ items : List Item, refillAll id items = items
  | [] => by rw [refillAll]
  | i :: rest => by rw [refillAll, i.refill_id, refillAll_id rest]
end

theorem Glyph.refill_id (g : Glyph) : g.refill id = g := by cases g <;> rfl

theorem refillAll_append : ∀ a b : List Item,
    refillAll f (a ++ b) = refillAll f a ++ refillAll f b
  | [], b => by rw [refillAll, List.nil_append, List.nil_append]
  | i :: a, b => by rw [List.cons_append, refillAll, refillAll_append a b, refillAll, List.cons_append]

theorem isWord_refill (s : String) (i : Item) : (i.refill f).isWord s = i.isWord s := by
  cases i <;> simp [Item.refill, Item.isWord]

theorem any_isWord_refillAll (s : String) : ∀ items : List Item,
    (refillAll f items).any (Item.isWord s) = items.any (Item.isWord s)
  | [] => rfl
  | i :: rest => by
    rw [refillAll, List.any_cons, List.any_cons, isWord_refill, any_isWord_refillAll s rest]

theorem ranging_refillAll : ∀ (due : Bool) (items : List Item),
    ranging due (refillAll f items) = ranging due items
  | _, [] => rfl
  | due, i :: rest => by
    rw [refillAll, ranging, ranging, isWord_refill, isWord_refill, ranging_refillAll _ rest]

theorem isQuery_refillAll (items : List Item) : isQuery (refillAll f items) = isQuery items := by
  cases items with
  | nil => rfl
  | cons i rest => simp [isQuery, refillAll, isWord_refill]

/-! ## Reading behind another text -/

/--
Items and open brackets of one reader, and those of another that had read what `o` has before it read
the same text up to its slots.
-/
inductive Behind (f : Piece → Piece) (o : Reader) : List Item → List (Bracket × List Item) →
    List Item → List (Bracket × List Item) → Prop
  | base {is js : List Item} (h : refillAll f is = refillAll f js) :
    Behind f o is [] (o.items ++ js) o.outer
  | opened {is js before before' : List Item} {outer outer' : List (Bracket × List Item)}
    (b : Bracket) (h : refillAll f is = refillAll f js)
    (hb : Behind f o before outer before' outer') :
    Behind f o is ((b, before) :: outer) js ((b, before') :: outer')

theorem Behind.put {o : Reader} {is js : List Item} {outer outer' : List (Bracket × List Item)}
    {i j : Item} (h : Behind f o is outer js outer') (hi : i.refill f = j.refill f) :
    Behind f o (is ++ [i]) outer (js ++ [j]) outer' := by
  have snoc : ∀ {as bs : List Item}, refillAll f as = refillAll f bs →
      refillAll f (as ++ [i]) = refillAll f (bs ++ [j]) := by
    intro as bs hs
    simp only [refillAll_append, refillAll, hs, hi]
  cases h with
  | base h =>
    rw [List.append_assoc]
    exact .base (snoc h)
  | opened b h hb => exact .opened b (snoc h) hb

structure Follows (f : Piece → Piece) (o r r' : Reader) : Prop where
  mode : r'.mode = r.mode
  behind : Behind f o r.items r.outer r'.items r'.outer

/-- Where the one reads on, so does the other. -/
def Carries (f : Piece → Piece) (o : Reader) (a b : Option Reader) : Prop :=
  ∀ x, a = some x → ∃ y, b = some y ∧ Follows f o x y

namespace Carries

variable {o r r' : Reader} {a b a' b' : Option Reader}

theorem of_some (h : Follows f o r r') : Carries f o (some r) (some r') := by
  intro x hx
  cases hx
  exact ⟨r', rfl, h⟩

theorem of_none : Carries f o none b := nofun

theorem ite {c : Prop} [Decidable c] (h : Carries f o a b) (h' : Carries f o a' b') :
    Carries f o (if c then a else a') (if c then b else b') := by
  split
  · exact h
  · exact h'

theorem bind {k l : Reader → Option Reader} (h : Carries f o a b)
    (hk : ∀ x y, Follows f o x y → Carries f o (k x) (l y)) : Carries f o (a.bind k) (b.bind l) := by
  intro z hz
  obtain ⟨x, hx, hz⟩ := Option.bind_eq_some_iff.1 hz
  obtain ⟨y, hy, hxy⟩ := h x hx
  obtain ⟨z', hz', hf'⟩ := hk x y hxy z hz
  exact ⟨z', by rw [hy, Option.bind_some, hz'], hf'⟩

end Carries

namespace Follows

variable {o r r' : Reader} {g g' : Glyph}

theorem withMode (h : Follows f o r r') (m : Mode) :
    Follows f o { r with mode := m } { r' with mode := m } :=
  ⟨rfl, h.behind⟩

theorem put (h : Follows f o r r') {i j : Item} (hi : i.refill f = j.refill f) :
    Follows f o (r.put i) (r'.put j) :=
  ⟨h.mode, h.behind.put hi⟩

theorem enter (h : Follows f o r r') (b : Bracket) : Follows f o (r.enter b) (r'.enter b) :=
  ⟨h.mode, .opened b rfl h.behind⟩

theorem leave (h : Follows f o r r') (b : Bracket) : Carries f o (r.leave b) (r'.leave b) := by
  obtain ⟨mode, items, outer⟩ := r
  obtain ⟨mode', items', outer'⟩ := r'
  obtain ⟨hm, hb⟩ := h
  cases hb with
  | base _ => exact .of_none
  | opened _ his hbefore =>
    refine .ite (.of_some ⟨hm, hbefore.put ?_⟩) .of_none
    simp only [Item.refill, his]

theorem endWord (h : Follows f o r r') (w : List Char) : Carries f o (r.endWord w) (r'.endWord w) :=
  .ite (.of_some (h.enter .case)) (.ite (h.leave .case) (.of_some (h.put rfl)))

theorem settle (h : Follows f o r r') : Carries f o r.settle r'.settle := by
  have hplain := h.withMode .plain
  unfold Reader.settle
  rw [h.mode]
  cases r.mode with
  | plain => exact .of_some h
  | word w => exact hplain.endWord w
  | sign c => exact .of_some (hplain.put rfl)
  | quoted | line | block => exact .of_none

theorem start (h : Follows f o r r') (hg : g.refill f = g'.refill f) :
    Carries f o (r.start g) (r'.start g') := by
  cases g with
  | slot p =>
    cases g' with
    | char c => cases hg
    | slot q =>
      refine .of_some (h.put ?_)
      simpa [Glyph.refill, Item.refill] using hg
  | char c =>
    cases g' with
    | slot q => cases hg
    | char d =>
      obtain rfl : c = d := by simpa [Glyph.refill] using hg
      exact .ite (.of_some (h.enter .round)) (.ite (h.leave .round)
        (.ite (.of_some (h.withMode _)) (.ite (.of_some (h.withMode _))
          (.ite (.of_some (h.withMode _)) (.ite (.of_some h) (.of_some (h.put rfl)))))))

theorem step (h : Follows f o r r') (hg : g.refill f = g'.refill f) :
    Carries f o (r.step g) (r'.step g') := by
  have on : Carries f o (r.settle.bind (·.start g)) (r'.settle.bind (·.start g')) :=
    h.settle.bind fun x y hxy => hxy.start hg
  unfold Reader.step
  rw [h.mode]
  cases g with
  | slot p =>
    cases g' with
    | char c => cases hg
    | slot q => cases r.mode <;> exact on
  | char c =>
    cases g' with
    | slot q => cases hg
    | char d =>
      obtain rfl : c = d := by simpa [Glyph.refill] using hg
      split
      · exact .ite (.of_some (h.withMode _)) on
      · exact .ite (.of_some (h.withMode _)) (.ite (.of_some (h.withMode _)) on)
      · exact .ite (.of_some ((h.withMode .plain).put rfl)) (.of_some (h.withMode _))
      · exact .of_some (h.withMode _)
      · exact .of_some (h.withMode _)
      · exact on

theorem run : ∀ {gs hs : List Glyph} {r r' : Reader}, Follows f o r r' →
    gs.map (Glyph.refill f) = hs.map (Glyph.refill f) → Carries f o (r.run gs) (r'.run hs)
  | [], [], _, _, h, _ => .of_some h
  | [], _ :: _, _, _, _, hg => by cases hg
  | _ :: _, [], _, _, _, hg => by cases hg
  | g :: gs, k :: hs, r, r', h, hg => by
    rw [List.map_cons, List.map_cons, List.cons.injEq] at hg
    rw [Reader.run_cons, Reader.run_cons]
    exact (h.step hg.1).bind fun x y hxy => run hxy hg.2

end Follows

end Reading

open Reading

namespace Sql

variable {a b : Sql} {is : List Item}

/-- A text is read behind another as it is read alone, up to its slots. -/
theorem run_behind {gs hs : List Glyph} {x : Reader} (hx : ({} : Reader).run gs = some x)
    (hg : gs.map (Glyph.refill f) = hs.map (Glyph.refill f)) {r : Reader} (hr : r.mode = .plain) :
    ∃ y, r.run hs = some y ∧ Follows f r x y := by
  have hbase : Follows f r {} r := by
    refine ⟨hr, ?_⟩
    have hempty : Behind f r [] [] (r.items ++ []) r.outer := .base rfl
    rwa [List.append_nil] at hempty
  exact hbase.run hg x hx

theorem settle_behind (h : a.items = some is)
    (hg : a.glyphs.map (Glyph.refill f) = b.glyphs.map (Glyph.refill f)) {r : Reader}
    (hr : r.mode = .plain) : ∃ js, refillAll f is = refillAll f js ∧
      (r.run b.glyphs).bind Reader.settle = some { r with items := r.items ++ js } := by
  unfold items at h
  split at h
  · rename_i mode items hx
    cases h
    obtain ⟨x, hrun, hsettle⟩ := Option.bind_eq_some_iff.1 hx
    obtain ⟨y, hy, hf⟩ := run_behind hrun hg hr
    obtain ⟨⟨mode', items', outer'⟩, hz, -, hb⟩ := hf.settle _ hsettle
    have hplain := Reader.settle_mode hz
    cases hb with
    | base hjs =>
      refine ⟨_, hjs, ?_⟩
      rw [hy, Option.bind_some, hz, hr]
      exact congrArg some (by rw [Reader.mk.injEq]; exact ⟨hplain, rfl, rfl⟩)
  · cases h

theorem Reads.of_items (h : a.items = some is) : Reads a is := by
  intro r hr
  obtain ⟨js, hjs, hrun⟩ := settle_behind (f := id) h rfl hr
  rw [refillAll_id, refillAll_id] at hjs
  rw [hjs, hrun]

theorem Reads.of_shape (h : a.items = some is)
    (hg : a.glyphs.map (Glyph.refill f) = b.glyphs.map (Glyph.refill f)) :
    ∃ js, Reads b js ∧ refillAll f is = refillAll f js := by
  obtain ⟨js, hjs, hrun⟩ := settle_behind h hg (r := {}) rfl
  refine ⟨js, Reads.of_items ?_, hjs⟩
  rw [Sql.items, hrun]
  rfl

/-! ## Separators -/

theorem run_plain (h : ({} : Reader).run a.glyphs = some { items := is }) {r : Reader}
    (hr : r.mode = .plain) : r.run a.glyphs = some { r with items := r.items ++ is } := by
  obtain ⟨⟨mode, items, outer⟩, hy, hm, hb⟩ := run_behind (f := id) h rfl hr
  cases hb with
  | base hjs =>
    rw [refillAll_id, refillAll_id] at hjs
    dsimp only at hm hjs
    rw [hy, hm, hr, ← hjs]
    rfl

theorem Divides.of_run (h : ({} : Reader).run a.glyphs = some { items := is })
    (he : a.glyphs.head?.any Glyph.ends = true) : Divides a is where
  ends := he
  run _ := run_plain h

theorem Reads.led {js : List Item} (hb : Reads b js)
    (h : ({} : Reader).run a.glyphs = some { items := is }) : Reads (a ++ b) (is ++ js) := by
  intro r hr
  rw [glyphs_append, Reader.run_append, run_plain h hr, ← List.append_assoc]
  exact hb { r with items := r.items ++ is } hr

theorem OpensWith.of_run
    (h : ({} : Reader).run a.glyphs = some { outer := [(.round, is)] }) : OpensWith a is := by
  intro r hr
  obtain ⟨⟨mode, items, outer⟩, hy, hm, hb⟩ := run_behind (f := id) h rfl hr
  cases hb with
  | opened b hnil hbefore =>
    rw [refillAll_id, refillAll_id] at hnil
    cases hbefore with
    | base hjs =>
      rw [refillAll_id, refillAll_id] at hjs
      dsimp only at hm hnil
      rw [hy, hm, hr, ← hjs, ← hnil]
      rfl

end Sql

/-! ## Predicates -/

namespace Reading

variable {ρ : Valuation} {is js : List Item}

def hasOr (items : List Item) : Bool := items.any (Item.isWord "OR")

/-- Items that are a predicate by themselves: no query, and no part of a `BETWEEN` is missing. -/
structure IsPredicate (items : List Item) : Prop where
  complete : ranging false items = false
  notQuery : isQuery items = false

/-- A predicate with no `OR` outside brackets. -/
structure IsConjunct (items : List Item) : Prop extends IsPredicate items where
  noOr : hasOr items = false

/-! ## Cells -/

theorem Valuation.cells_append (ρ : Valuation) : ∀ (due : Bool) (is js : List Item),
    ρ.cells due (is ++ js) = ρ.cells due is ++ ρ.cells (ranging due is) js
  | due, [], js => by simp [Valuation.cells, ranging]
  | due, i :: is, js => by
    rw [List.cons_append, Valuation.cells, ρ.cells_append _ is js, Valuation.cells, ranging]
    rfl

theorem Valuation.cells_noOr (ρ : Valuation) : ∀ (due : Bool) (items : List Item), hasOr items = false →
    ∀ c ∈ ρ.cells due items, c.isOr = false
  | _, [], _ => by simp [Valuation.cells]
  | due, i :: rest, h => by
    simp only [hasOr, List.any_cons, Bool.or_eq_false_iff] at h
    rw [Valuation.cells, List.forall_mem_cons]
    refine ⟨?_, ρ.cells_noOr _ rest h.2⟩
    simp only [h.1, Bool.false_eq_true, if_false]
    split <;> rfl

theorem Valuation.sentence_of_noOr {cells : List Cell} (h : ∀ c ∈ cells, c.isOr = false) :
    ρ.sentence cells = ρ.disjunct cells := by
  rw [Valuation.sentence, List.splitOnP_eq_singleton h]
  simp

theorem hasOr_append (is js : List Item) : hasOr (is ++ js) = (hasOr is || hasOr js) :=
  List.any_append

theorem ranging_append : ∀ (due : Bool) (is js : List Item),
    ranging due (is ++ js) = ranging (ranging due is) js
  | _, [], _ => rfl
  | due, i :: is, js => by rw [List.cons_append, ranging, ranging_append _ is js, ranging]

theorem isQuery_append_cons {i : Item} (h : isQuery is = false) (hi : isQuery [i] = false) :
    isQuery (is ++ i :: js) = false := by
  cases is with
  | nil => exact hi
  | cons _ _ => exact h

/-! ## Connectives -/

def andWord : Item := .word "AND".toList

def orWord : Item := .word "OR".toList

def notWord : Item := .word "NOT".toList

theorem truth_and (h : IsConjunct is) (h' : hasOr js = false) :
    ρ.truth (is ++ andWord :: js) = (ρ.truth is).both (ρ.truth js) := by
  have hor : hasOr (is ++ andWord :: js) = false := by
    rw [hasOr_append, h.noOr]
    exact h'
  have hcells : ρ.cells false (is ++ andWord :: js) =
      ρ.cells false is ++ .and :: ρ.cells false js := by
    rw [ρ.cells_append, h.complete]
    rfl
  unfold Valuation.truth
  rw [Valuation.sentence_of_noOr (ρ.cells_noOr _ _ hor), Valuation.sentence_of_noOr (ρ.cells_noOr _ _ h.noOr),
    Valuation.sentence_of_noOr (ρ.cells_noOr _ _ h'), hcells, Valuation.disjunct,
    List.splitOnP_append_cons _ _ rfl, List.map_append, Truth.all_append]
  rfl

theorem truth_or (h : IsPredicate is) :
    ρ.truth (is ++ orWord :: js) = (ρ.truth is).either (ρ.truth js) := by
  have hcells : ρ.cells false (is ++ orWord :: js) =
      ρ.cells false is ++ .or :: ρ.cells false js := by
    rw [ρ.cells_append, h.complete]
    rfl
  unfold Valuation.truth
  rw [hcells, Valuation.sentence, List.splitOnP_append_cons _ _ rfl, List.map_append,
    Truth.any_append]
  rfl

theorem truth_brackets (h : isQuery is = false) : ρ.truth [.nested .round is] = ρ.truth is := by
  simp [Valuation.truth, Valuation.cells, Valuation.sentence, Valuation.disjunct, Item.isWord,
    List.splitOnP_cons_eq_if_modifyHead, Cell.isOr, Cell.isAnd, Valuation.operand, Valuation.inside, h]

theorem truth_not_brackets (h : isQuery is = false) :
    ρ.truth [notWord, .nested .round is] = (ρ.truth is).negate := by
  simp [Valuation.truth, Valuation.cells, Valuation.sentence, Valuation.disjunct, Item.isWord, notWord,
    List.splitOnP_cons_eq_if_modifyHead, Cell.isOr, Cell.isAnd, Valuation.operand, Valuation.inside, h]

theorem truth_comparison {i j k : Item} (h : i.isWord "NOT" = false)
    (hw : ∀ x ∈ [i, j, k], x.isWord "OR" = false ∧ x.isWord "AND" = false) :
    ρ.truth [i, j, k] = ρ.holds [i, j, k] := by
  simp only [List.forall_mem_cons] at hw
  simp [Valuation.truth, Valuation.cells, Valuation.sentence, Valuation.disjunct, hw,
    List.splitOnP_cons_eq_if_modifyHead, Cell.isOr, Cell.isAnd, Valuation.operand, Cell.item?, h]

/-! ## Many operands -/

theorem isPredicate_joined {i : Item} (hq : isQuery [i] = false)
    (hb : i.isWord "BETWEEN" = false) : ∀ {itemss : List (List Item)},
    (∀ is ∈ itemss, IsPredicate is) → IsPredicate ([i].intercalate itemss)
  | [], _ => ⟨rfl, rfl⟩
  | [is], h => by
    rw [List.intercalate_singleton]
    exact h is List.mem_cons_self
  | is :: js :: rest, h => by
    rw [List.forall_mem_cons] at h
    have ih := isPredicate_joined hq hb h.2
    rw [List.intercalate_cons_cons, List.append_assoc, List.singleton_append]
    refine ⟨?_, isQuery_append_cons h.1.notQuery hq⟩
    rw [ranging_append, h.1.complete, ranging, hb]
    exact ih.complete

theorem hasOr_joined : ∀ {itemss : List (List Item)}, (∀ is ∈ itemss, hasOr is = false) →
    hasOr ([andWord].intercalate itemss) = false
  | [], _ => rfl
  | [is], h => by
    rw [List.intercalate_singleton]
    exact h is List.mem_cons_self
  | is :: js :: rest, h => by
    rw [List.forall_mem_cons] at h
    rw [List.intercalate_cons_cons, List.append_assoc, List.singleton_append, hasOr_append, h.1]
    exact hasOr_joined h.2

/-- Operands of `AND`s, each without an `OR` of its own, say together that all of them hold. -/
theorem truth_all : ∀ {itemss : List (List Item)}, itemss ≠ [] →
    (∀ is ∈ itemss, IsPredicate is) → (itemss.length ≤ 1 ∨ ∀ is ∈ itemss, hasOr is = false) →
    ρ.truth ([andWord].intercalate itemss) = .all (itemss.map ρ.truth)
  | [], hne, _, _ => absurd rfl hne
  | [is], _, _, _ => by simp
  | is :: js :: rest, _, h, hor => by
    have hor : ∀ a ∈ is :: js :: rest, hasOr a = false := hor.resolve_left (by simp)
    rw [List.forall_mem_cons] at h hor
    have hrest := truth_all (List.cons_ne_nil js rest) h.2 (.inr hor.2)
    rw [List.intercalate_cons_cons, List.append_assoc, List.singleton_append,
      truth_and ⟨h.1, hor.1⟩ (hasOr_joined hor.2), hrest]
    rfl

/-- Operands of `OR`s say together that any of them holds. -/
theorem truth_any : ∀ {itemss : List (List Item)}, itemss ≠ [] →
    (∀ is ∈ itemss, IsPredicate is) →
    ρ.truth ([orWord].intercalate itemss) = .any (itemss.map ρ.truth)
  | [], hne, _ => absurd rfl hne
  | [is], _, _ => by simp
  | is :: js :: rest, _, h => by
    rw [List.forall_mem_cons] at h
    have hrest := truth_any (List.cons_ne_nil js rest) h.2
    rw [List.intercalate_cons_cons, List.append_assoc, List.singleton_append, truth_or h.1, hrest]
    rfl

end Reading

end Orm
