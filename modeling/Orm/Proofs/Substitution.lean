import Orm.Expression.Columns
import Orm.Expression.Writing
import Orm.Proofs.Outcome
import Orm.Sample

/-
What a template is written as. Its text is cut into marks in one way (`Marking`, `Marking.unique`), and each
mark is written for itself: a slot as the next column, a parameter as the placeholder of the next value, `%%`
as a per cent sign, and every other character as it stands (`fill_iff`). What has been put in is not read
again.
-/

namespace Orm

/-! ## Marks -/

inductive Mark where
  /-- `%s`, the place of a column. -/
  | slot
  /-- `%%` -/
  | percent
  /-- `?`, the place of a value. -/
  | param
  | other (c : Char)
  deriving DecidableEq, Repr

/-- Marks that make up a text. From left to right, a character stands for itself only if no other mark begins
with it. -/
inductive Marking : List Char → List Mark → Prop
  | nil : Marking [] []
  | slot {cs : List Char} {marks : List Mark} (h : Marking cs marks) :
    Marking ('%' :: 's' :: cs) (.slot :: marks)
  | percent {cs : List Char} {marks : List Mark} (h : Marking cs marks) :
    Marking ('%' :: '%' :: cs) (.percent :: marks)
  | param {cs : List Char} {marks : List Mark} (h : Marking cs marks) :
    Marking ('?' :: cs) (.param :: marks)
  | other {c : Char} {cs : List Char} {marks : List Mark} (hparam : c ≠ '?')
    (hlong : c = '%' → ∀ next ∈ cs.head?, next ≠ 's' ∧ next ≠ '%') (h : Marking cs marks) :
    Marking (c :: cs) (.other c :: marks)

theorem Marking.exists (cs : List Char) : ∃ marks, Marking cs marks := by
  induction cs using TemplateToken.ofText.induct with
  | case1 => exact ⟨[], .nil⟩
  | case2 cs ih =>
    obtain ⟨marks, h⟩ := ih
    exact ⟨_, .slot h⟩
  | case3 cs ih =>
    obtain ⟨marks, h⟩ := ih
    exact ⟨_, .percent h⟩
  | case4 cs ih =>
    obtain ⟨marks, h⟩ := ih
    exact ⟨_, .param h⟩
  | case5 c cs hslot hpercent hparam ih =>
    obtain ⟨marks, h⟩ := ih
    refine ⟨_, .other hparam (fun hc next hnext => ?_) h⟩
    obtain ⟨rest, rfl⟩ := List.head?_eq_some_iff.1 hnext
    exact ⟨fun h => hslot rest hc (h ▸ rfl), fun h => hpercent rest hc (h ▸ rfl)⟩

theorem Marking.unique {cs : List Char} {marks marks' : List Mark} (h : Marking cs marks)
    (h' : Marking cs marks') : marks = marks' := by
  induction h generalizing marks' with
  | nil =>
    cases h'
    rfl
  | slot _ ih =>
    cases h' with
    | slot h' => rw [ih h']
    | other _ hlong _ => exact absurd rfl (hlong rfl 's' rfl).1
  | percent _ ih =>
    cases h' with
    | percent h' => rw [ih h']
    | other _ hlong _ => exact absurd rfl (hlong rfl '%' rfl).2
  | param _ ih =>
    cases h' with
    | param h' => rw [ih h']
    | other hparam _ _ => exact absurd rfl hparam
  | other hparam hlong _ ih =>
    cases h' with
    | slot h' => exact absurd rfl (hlong rfl 's' rfl).1
    | percent h' => exact absurd rfl (hlong rfl '%' rfl).2
    | param h' => exact absurd rfl hparam
    | other _ _ h' => rw [ih h']

namespace Mark

/-- What the writer of templates takes a mark for. -/
def token : Mark → TemplateToken
  | .slot => .column
  | .percent => .literal '%'
  | .param => .param
  | .other c => .literal c

theorem ofText_eq {cs : List Char} {marks : List Mark} (h : Marking cs marks) :
    TemplateToken.ofText cs = marks.map token := by
  induction h with
  | nil => rfl
  | slot _ ih => rw [TemplateToken.ofText, ih, List.map_cons, token]
  | percent _ ih => rw [TemplateToken.ofText, ih, List.map_cons, token]
  | param _ ih => rw [TemplateToken.ofText, ih, List.map_cons, token]
  | @other c cs marks hparam hlong _ ih =>
    rw [TemplateToken.ofText, ih, List.map_cons, token]
    · exact fun rest hc hcs => (hlong hc 's' (by rw [hcs]; rfl)).1 rfl
    · exact fun rest hc hcs => (hlong hc '%' (by rw [hcs]; rfl)).2 rfl
    · exact hparam

/-! ## Writing -/

/-- What a mark is written as, by the marks in front of it: of the slots the first has the first column, and
of the parameters the first has the number after those that are bound by then. -/
def piece (columns : List Column) (bound : Nat) (earlier : List Mark) : Mark → Piece
  | .slot => .ident (columns[earlier.count .slot]?.getD [])
  | .percent => .text "%"
  | .param => .param (bound + earlier.count .param + 1)
  | .other c => .text (String.singleton c)

def pieces (columns : List Column) (bound : Nat) (marks : List Mark) : Sql :=
  marks.mapIdx fun i m => m.piece columns bound (marks.take i)

/-- What a piece for a mark is printed as. -/
def text (d : Dialect) (columns : List Column) (bound : Nat) (earlier : List Mark) : Mark → String
  | .slot => d.quotePath (columns[earlier.count .slot]?.getD [])
  | .percent => "%"
  | .param => d.placeholderText (bound + earlier.count .param + 1)
  | .other c => String.singleton c

theorem print_piece (d : Dialect) (columns : List Column) (bound : Nat) (earlier : List Mark)
    (m : Mark) : (m.piece columns bound earlier).print d = m.text d columns bound earlier := by
  cases m <;> rfl

variable {columns : List Column} {bound : Nat} {marks : List Mark}

theorem print_pieces (d : Dialect) : (pieces columns bound marks).print d =
    String.join (marks.mapIdx fun i m => m.text d columns bound (marks.take i)) := by
  rw [Sql.print, pieces]
  refine congrArg String.join (List.ext_getElem? fun i => ?_)
  simp only [List.getElem?_map, List.getElem?_mapIdx, Option.map_map, Function.comp_def, print_piece]

theorem pieces_slot (c : Column) : pieces (c :: columns) bound (.slot :: marks) =
    .ident c :: pieces columns bound marks := by
  have hnext : ∀ (m : Mark) (earlier : List Mark),
      m.piece (c :: columns) bound (.slot :: earlier) = m.piece columns bound earlier := by
    intro m earlier
    cases m <;> simp [piece]
  simp only [pieces, List.mapIdx_cons, List.take_succ_cons, hnext]
  rfl

theorem pieces_param : pieces columns bound (.param :: marks) =
    .param (bound + 1) :: pieces columns (bound + 1) marks := by
  have hnext : ∀ (m : Mark) (earlier : List Mark),
      m.piece columns bound (.param :: earlier) = m.piece columns (bound + 1) earlier := by
    intro m earlier
    cases m with
    | param => simp [piece, Nat.add_right_comm, ← Nat.add_assoc]
    | _ => simp [piece]
  simp only [pieces, List.mapIdx_cons, List.take_succ_cons, hnext]
  rfl

/-- A mark that takes neither a column nor a value. -/
theorem pieces_literal {m : Mark} (hslot : m ≠ .slot) (hparam : m ≠ .param) :
    pieces columns bound (m :: marks) = m.piece [] 0 [] :: pieces columns bound marks := by
  have hnext : ∀ (n : Mark) (earlier : List Mark),
      n.piece columns bound (m :: earlier) = n.piece columns bound earlier := by
    intro n earlier
    cases n <;> simp [piece, hslot, hparam]
  simp only [pieces, List.mapIdx_cons, List.take_succ_cons, hnext]
  cases m with
  | slot => exact absurd rfl hslot
  | param => exact absurd rfl hparam
  | _ => rfl

end Mark

namespace Template

open Mark (token pieces)

/-- There are as many slots as columns, and as many parameters as values. -/
def Fits (marks : List Mark) (columns : List Column) (params : List Value) : Prop :=
  marks.count .slot = columns.length ∧ marks.count .param = params.length

section

variable {marks : List Mark} {columns : List Column} {params : List Value}

theorem fits_slot {c : Column} : Fits (.slot :: marks) (c :: columns) params ↔
    Fits marks columns params := by
  simp [Fits]

theorem fits_param {v : Value} : Fits (.param :: marks) columns (v :: params) ↔
    Fits marks columns params := by
  simp [Fits]

theorem fits_literal {m : Mark} (hslot : m ≠ .slot) (hparam : m ≠ .param) :
    Fits (m :: marks) columns params ↔ Fits marks columns params := by
  rw [Fits, List.count_cons_of_ne hslot, List.count_cons_of_ne hparam, Fits]

theorem not_fits_slot : ¬Fits (.slot :: marks) [] params := fun h => by simp [Fits] at h

theorem not_fits_param : ¬Fits (.param :: marks) columns [] := fun h => by simp [Fits] at h

end

/-- One more piece in front of what is written. -/
theorem yields_cons_iff {x : Binding Sql} {args args' after : List Value} {p : Piece}
    {sql rest : Sql} {P : Prop}
    (h : ∀ {rest' after'}, Yields x args rest' after' ↔ P ∧ rest' = rest ∧ after' = after) :
    Yields (x >>= fun rest => pure (p :: rest)) args sql args' ↔
      P ∧ sql = p :: rest ∧ args' = after := by
  simp only [Yields.bind_iff, Yields.pure_iff, h]
  constructor
  · rintro ⟨_, _, ⟨hp, rfl, rfl⟩, rfl, rfl⟩
    exact ⟨hp, rfl, rfl⟩
  · rintro ⟨hp, rfl, rfl⟩
    exact ⟨_, _, ⟨hp, rfl, rfl⟩, rfl, rfl⟩

theorem yields_bindValue_iff {α : Type} {f : Piece → Binding α} {v : Value} {args args' : List Value}
    {a : α} : Yields (bindValue v >>= f) args a args' ↔
      Yields (f (.param (args.length + 1))) (args ++ [v]) a args' := by
  rw [Yields, outcome_bind, outcome_bindValue]
  rfl

theorem fill_iff (t : Template) {marks : List Mark} {columns : List Column}
    {params args args' : List Value} {sql : Sql} :
    Yields (t.fill (marks.map token) columns params) args sql args' ↔
      Fits marks columns params ∧ sql = pieces columns args.length marks ∧ args' = args ++ params := by
  induction marks generalizing columns params args args' sql with
  | nil =>
    cases columns with
    | nil =>
      cases params with
      | nil =>
        rw [List.map_nil, fill, Yields.pure_iff]
        simp [Fits, pieces, eq_comm]
      | cons v params => simpa [fill, Fits] using Yields.not_throw
    | cons c columns => simpa [fill, Fits] using Yields.not_throw
  | cons m marks ih =>
    have literal : ∀ c, m.token = .literal c → m.piece [] 0 [] = .text (String.singleton c) →
        m ≠ .slot → m ≠ .param →
        (Yields (t.fill ((m :: marks).map token) columns params) args sql args' ↔
          Fits (m :: marks) columns params ∧ sql = pieces columns args.length (m :: marks) ∧
            args' = args ++ params) := by
      intro c htoken hpiece hslot hparam
      rw [List.map_cons, htoken, fill, Mark.pieces_literal hslot hparam, hpiece,
        fits_literal hslot hparam]
      exact yields_cons_iff ih
    cases m with
    | percent => exact literal '%' rfl rfl nofun nofun
    | other c => exact literal c rfl rfl nofun nofun
    | slot =>
      cases columns with
      | nil => simpa [fill, token, not_fits_slot] using Yields.not_throw
      | cons c columns =>
        rw [List.map_cons, token, fill, Mark.pieces_slot, fits_slot]
        exact yields_cons_iff ih
    | param =>
      cases params with
      | nil => simpa [fill, token, not_fits_param] using Yields.not_throw
      | cons v params =>
        have hbound : args.length + 1 = (args ++ [v]).length := by simp
        have hargs : args ++ v :: params = (args ++ [v]) ++ params := List.append_cons ..
        rw [List.map_cons, token, fill, Mark.pieces_param, fits_param, yields_bindValue_iff, hargs]
        refine yields_cons_iff ?_
        rw [hbound]
        exact ih

theorem write_iff {t : Template} {marks : List Mark} (h : Marking t.text.toList marks)
    {columns : List Column} {args args' : List Value} {sql : Sql} :
    Yields ({ t with columns := some columns } : Template).write args sql args' ↔
      Fits marks columns t.params ∧ sql = pieces columns args.length marks ∧
        args' = args ++ t.params := by
  rw [write, Mark.ofText_eq h]
  exact fill_iff _

/-- Resolving finds a column for each field. -/
theorem resolve_each {ι : Type} {schema : Schema ι} {root : ι} {t r : Template} {scope scope' : Scope}
    (unbound : t.columns = none)
    (h : Yields (Expression.Template.resolve schema root t) scope r scope') :
    ∃ columns, columns.length = t.fields.length ∧ r = { t with columns := some columns } := by
  have length : ∀ (fields : List String), Keeps (fun _ => True)
      (fields.mapM fun f => resolvePath schema root f false) (·.length = fields.length) := by
    intro fields
    induction fields with
    | nil => exact Keeps.of_pure rfl
    | cons f fields ih =>
      rw [List.mapM_cons]
      refine (Keeps.any _).bind fun _ _ => ih.bind fun _ hrest => Keeps.of_pure ?_
      exact congrArg (· + 1) hrest
  rw [Expression.Template.resolve, unbound] at h
  obtain ⟨columns, _, hcolumns, h⟩ := Yields.bind_iff.1 h
  obtain ⟨rfl, -⟩ := Yields.pure_iff.1 h
  exact ⟨columns, ((length t.fields).of_yields trivial hcolumns).2, rfl⟩

/-- A template that is resolved is written mark by mark. Its text is cut in one way only, and it is written if
the slots are as many as the fields and the parameters as many as the values: then the first slot is the first
column and so on, every `%%` a per cent sign, the first parameter the placeholder of the first value, which is
bound next, and so on, and every other character itself. -/
theorem write_substitutes {ι : Type} {schema : Schema ι} {root : ι} {t r : Template}
    {scope scope' : Scope} (unbound : t.columns = none)
    (resolved : outcome (Expression.Template.resolve schema root t) scope = (.ok r, scope')) :
    ∃ columns marks, r = { t with columns := some columns } ∧
      (∀ marks', Marking t.text.toList marks' ↔ marks' = marks) ∧
      ∀ args,
        ((∃ sql args', outcome r.write args = (.ok sql, args')) ↔
          marks.count .slot = t.fields.length ∧ marks.count .param = t.params.length) ∧
        ∀ sql args', outcome r.write args = (.ok sql, args') →
          args' = args ++ t.params ∧
          ∀ d : Dialect, sql.print d =
            String.join (marks.mapIdx fun i m => m.text d columns args.length (marks.take i)) := by
  obtain ⟨columns, hlength, rfl⟩ := resolve_each unbound resolved
  obtain ⟨marks, hcut⟩ := Marking.exists t.text.toList
  refine ⟨columns, marks, rfl, fun marks' => ⟨fun h => h.unique hcut, ?_⟩, fun args => ⟨?_, ?_⟩⟩
  · rintro rfl
    exact hcut
  · rw [← hlength]
    constructor
    · rintro ⟨sql, args', h⟩
      exact ((write_iff hcut).1 h).1
    · intro hfits
      exact ⟨_, _, (write_iff hcut).2 ⟨hfits, rfl, rfl⟩⟩
  · intro sql args' h
    obtain ⟨-, rfl, rfl⟩ := (write_iff hcut).1 h
    exact ⟨rfl, Mark.print_pieces⟩

/-- Two columns and a value among per cent signs that are written twice, once and at the end. -/
def amongPercents : Template := ⟨"%%s%s=?%s%", ["id", "user.name"], [.string "%s?"], none⟩

theorem amongPercents_written : amongPercents.columns = none ∧ ∃ r scope sql args,
    outcome (Expression.Template.resolve Sample.schema .todo amongPercents) {} = (.ok r, scope) ∧
    outcome r.write [.null] = (.ok sql, args) ∧ args.map Value.string? = [none, some "%s?"] ∧
    sql.print .postgres = "%s\"todos\".\"id\"=$2\"user_id_users_1\".\"name\"%" := by
  obtain ⟨r, scope, hrun, hcolumns⟩ : ∃ r scope,
      outcome (Expression.Template.resolve Sample.schema .todo amongPercents) {} = (.ok r, scope) ∧
      r.columns = some [["todos", "id"], ["user_id_users_1", "name"]] := ⟨_, _, rfl, rfl⟩
  obtain ⟨columns, marks, rfl, hcut, hwrite⟩ := write_substitutes rfl hrun
  obtain rfl := Option.some.inj hcolumns
  have hmarks : Marking amongPercents.text.toList
      [.percent, .other 's', .slot, .other '=', .param, .slot, .other '%'] :=
    .percent (.other (by decide) (by decide) (.slot (.other (by decide) (by decide)
      (.param (.slot (.other (by decide) nofun .nil))))))
  obtain rfl := (hcut _).1 hmarks
  obtain ⟨hsucceeds, hsql⟩ := hwrite [.null]
  obtain ⟨sql, args, hwritten⟩ := hsucceeds.2 (by decide)
  obtain ⟨rfl, hprint⟩ := hsql sql args hwritten
  exact ⟨rfl, _, scope, sql, _, hrun, hwritten, rfl, (hprint .postgres).trans (by decide)⟩

end Template

end Orm
