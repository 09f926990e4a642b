import Orm.Proofs.Alike.Values
import Orm.Sample

/-
Bound values never influence text: two queries that are the same but for their values, of one shape
each, are compiled to the same text and the same plan of columns with as many values bound, or both
of them to none.
-/

namespace Orm

variable {ι : Type} {schema : Schema ι} {L : Likeness} {k n : Nat}
  {R : List Value → List Value → Prop} {paths : List String} {asNested dedupe : Bool}

open Expression (depth depthAll depthNamed planDepth)

/-! ## Statements -/

theorem Plan.nestedIn_paired (hp : L.Pins) (hL : L.Writes k R) {p q : Plan ι} (h : Plan.Like L p q) :
    L.Nests k R (planDepth p) (p.nestedIn schema) (q.nestedIn schema) := by
  have hn : L.Nests k R (min (planDepth p) (planDepth p)) (Plan.writeNested schema (planDepth p))
      (Plan.writeNested schema (planDepth p)) := Plan.writeNested_paired hp hL _ _
  rw [Nat.min_self] at hn
  unfold Plan.nestedIn
  rwa [h.depth_eq]

theorem Plan.Like.unordered {p q : Plan ι} (h : Plan.Like L p q) :
    Plan.Like L p.unordered q.unordered := by
  cases h with
  | mk ha hf => exact .mk ha hf

theorem Plan.Like.unannotated {p q : Plan ι} (h : Plan.Like L p q) :
    Plan.Like L { p with annotations := [] } { q with annotations := [] } := by
  cases h with
  | mk ha hf => exact .mk .nil hf

theorem Plan.resolveConditions_paired (hp : L.Pins) {p q : Plan ι} (h : Plan.Like L p q) :
    Paired Eq (p.resolveConditions schema) (q.resolveConditions schema)
      fun as bs => Expression.LikeAll L as bs ∧ depthAll as ≤ planDepth p := by
  cases h with
  | mk ha hf =>
    refine (Paired.same _).bind fun _ _ _ => ?_
    refine (resolveFilters_paired hp hf).imp fun as bs hs => ⟨hs.1, ?_⟩
    rw [hs.2, Expression.planDepth_eq]
    exact Nat.le_max_right _ _

theorem Plan.conditions_paired (hp : L.Pins) (hL : L.Writes k R) {p q : Plan ι}
    (h : Plan.Like L p q) :
    (q.conditions schema).2 = (p.conditions schema).2 ∧
    Tied (fun as bs => Paired R (Expression.writeAll schema (p.nestedIn schema) as)
        (Expression.writeAll schema (q.nestedIn schema) bs) (ShiftedAll k))
      (p.conditions schema).1 (q.conditions schema).1 := by
  obtain ⟨ht, hs⟩ := Plan.resolveConditions_paired hp h {} {} rfl
  refine ⟨hs.symm, ht.imp fun as bs hab => ?_⟩
  exact Expression.writeAll_paired hL (Plan.nestedIn_paired hp hL h) hab.1 hab.2

theorem writeCountPlain_paired (hp : L.Pins) (hL : L.Writes k R) {p q : Plan ι}
    (h : Plan.Like L p q) :
    Paired R (writeCountPlain schema p) (writeCountPlain schema q) (Shifted k) := by
  obtain ⟨hs, hw⟩ := Plan.conditions_paired hp hL h
  rw [writeCountPlain_eq, writeCountPlain_eq, hs, h.model_eq]
  refine (Paired.of_tied hw).bind fun filters filters' hw => ?_
  refine hw.bind fun predicates predicates' hpr => ?_
  subst hpr
  refine .of_pure ?_
  have hcounted := fun b => Sql.shift_of_params k ((schema p.model).countedSql_params b)
  have hjoins := fun joins => Sql.shift_of_params k (joinsSql_params joins)
  simp [Shifted, hcounted, hjoins, shift_whereSql, Piece.shift]

theorem Model.shift_memberSql (m : Model ι) (pk : FieldDef ι) (joins : List Join)
    (predicates : List Sql) : Sql.shift k (m.memberSql pk joins predicates) =
      m.memberSql pk joins (predicates.map (Sql.shift k)) := by
  have hjoins := Sql.shift_of_params k (joinsSql_params joins)
  simp [Model.memberSql, hjoins, shift_whereSql, Piece.shift]

theorem writeWhere_paired (hp : L.Pins) (hL : L.Writes k R) {p q : Plan ι} (h : Plan.Like L p q) :
    Paired R (writeWhere schema p) (writeWhere schema q) fun a b => b = a.map (Sql.shift k) := by
  obtain ⟨hs, hw⟩ := Plan.conditions_paired hp hL h
  rw [writeWhere_eq, writeWhere_eq, hs, h.model_eq, h.filters_isEmpty]
  split
  · exact .of_pure rfl
  · refine (Paired.of_tied hw).bind fun filters filters' hw => ?_
    split
    · refine hw.bind fun predicates predicates' hpr => ?_
      subst hpr
      exact .of_pure (congrArg some (shift_whereSql _).symm)
    · refine (Paired.of_tied (Tied.same _)).bind fun pk pk' hpk => ?_
      subst hpk
      refine hw.bind fun predicates predicates' hpr => ?_
      subst hpr
      exact .of_pure (congrArg some (Model.shift_memberSql _ pk _ _).symm)

theorem writeCountNested_paired (hp : L.Pins) (hL : L.Writes k R) {p q : Plan ι}
    (h : Plan.Like L p q) :
    Paired R (writeCountNested schema p) (writeCountNested schema q) (Shifted k) := by
  rw [writeCountNested_eq, writeCountNested_eq, h.select_eq]
  refine (Plan.writeSelect_paired hp hL h.unordered
    (Plan.nestedIn_paired hp hL h.unordered)).bind fun out out' ho => ?_
  subst ho
  refine .of_pure ?_
  have hcounted := Sql.shift_of_params k out.2.countedSql_params
  simp [Shifted, hcounted, Piece.shift]

/-! ## Same text -/

/-- The same text and plan of columns, with as many values. -/
structure Compiled.SameText (c c' : Compiled ι) : Prop where
  sql : c'.statement.sql = c.statement.sql
  scan : c'.scan = c.scan
  args : c'.statement.args.length = c.statement.args.length

theorem writeSelect_sameText {p q : Plan ι} (h : Plan.Like Likeness.shape p q) :
    Tied (fun a b => b.1 = a.1 ∧ a.2.length = b.2.length)
      (Binding.run (p.writeSelect schema (p.nestedIn schema) paths asNested dedupe))
      (Binding.run (q.writeSelect schema (q.nestedIn schema) paths asNested dedupe)) := by
  have hn : Likeness.shape.Nests 0 SameLength (planDepth p) (p.nestedIn schema) (q.nestedIn schema) :=
    Plan.nestedIn_paired Likeness.shape_pins Likeness.shape_writes h
  refine ((Plan.writeSelect_paired Likeness.shape_pins Likeness.shape_writes h hn).runFrom rfl).imp
    fun a b hab => ⟨?_, hab.2⟩
  rw [hab.1, Sql.shift_zero]

theorem compileSelect_sameText {p q : Plan ι} (h : Plan.Like Likeness.shape p q) :
    Tied Compiled.SameText (compileSelect schema p) (compileSelect schema q) := by
  unfold compileSelect
  rw [h.select_eq]
  refine (writeSelect_sameText h).bind fun out out' ho => ?_
  exact ⟨congrArg (·.1) ho.1, congrArg (·.2) ho.1, ho.2.symm⟩

theorem compileValues_sameText {p q : Plan ι} (h : Plan.Like Likeness.shape p q)
    (paths : List String) :
    Tied Compiled.SameText (compileValues schema p paths) (compileValues schema q paths) := by
  unfold compileValues
  refine (writeSelect_sameText h.unannotated).bind fun out out' ho => ?_
  exact ⟨congrArg (·.1) ho.1, congrArg (·.2) ho.1, ho.2.symm⟩

theorem compileCount_sameText {p q : Plan ι} (h : Plan.Like Likeness.shape p q) :
    Tied Compiled.SameText (compileCount schema p) (compileCount schema q) := by
  have hrows : (q.paged || q.distinct) = (p.paged || p.distinct) := by
    cases h
    rfl
  unfold compileCount
  rw [h.check_eq, hrows]
  refine (Tied.same _).bind fun _ _ _ => ?_
  have hw : Paired SameLength
      (if p.paged || p.distinct then writeCountNested schema p else writeCountPlain schema p)
      (if p.paged || p.distinct then writeCountNested schema q else writeCountPlain schema q)
      (Shifted 0) := by
    split
    · exact writeCountNested_paired Likeness.shape_pins Likeness.shape_writes h
    · exact writeCountPlain_paired Likeness.shape_pins Likeness.shape_writes h
  refine (hw.runFrom rfl).bind fun out out' ho => ?_
  exact ⟨ho.1.trans (Sql.shift_zero _), rfl, ho.2.symm⟩

theorem compileDelete_sameText {p q : Plan ι} (h : Plan.Like Likeness.shape p q) :
    Tied Compiled.SameText (compileDelete schema p) (compileDelete schema q) := by
  unfold compileDelete
  rw [h.check_eq, h.model_eq]
  refine (Tied.same _).bind fun _ _ _ => ?_
  have hw : Paired SameLength (writeWhere schema p) (writeWhere schema q) _ :=
    writeWhere_paired Likeness.shape_pins Likeness.shape_writes h
  refine (hw.runFrom rfl).bind fun out out' ho => ?_
  obtain ⟨predicate, args⟩ := out
  obtain ⟨predicate', args'⟩ := out'
  obtain ⟨rfl, hargs⟩ := ho
  cases predicate with
  | none => trivial
  | some sql =>
    refine ⟨?_, rfl, hargs.symm⟩
    exact congrArg ([.text "DELETE FROM ", .ident [(schema p.model).table]] ++ ·)
      (Sql.shift_zero sql)

/-- Values never get into text: they decide neither what it says nor whether there is any. -/
theorem compile_sameText {p q : Plan ι} (h : Plan.Like Likeness.shape p q) (paths : List String) :
    Tied Compiled.SameText (compileSelect schema p) (compileSelect schema q) ∧
    Tied Compiled.SameText (compileCount schema p) (compileCount schema q) ∧
    Tied Compiled.SameText (compileValues schema p paths) (compileValues schema q paths) ∧
    Tied Compiled.SameText (compileDelete schema p) (compileDelete schema q) :=
  ⟨compileSelect_sameText h, compileCount_sameText h, compileValues_sameText h paths,
    compileDelete_sameText h⟩

/-- Some notes by people of one name, each with its size and a bit more. -/
def notesBy (name : String) (ids : List Value) (more : Int64) : Plan Sample where
  model := .note
  annotations :=
    [("size", .func { text := "LENGTH(%s) + ?", fields := ["body"], params := [.int more] })]
  filters := [.compare "id" .inList ids,
    .memberOf "user" { model := .user, filters := [.compare "name" .exact [.string name]] }]

theorem notesBy_like (name name' : String) (more more' : Int64) {ids ids' : List Value}
    (h : (Lookup.listItems ids).length = (Lookup.listItems ids').length) :
    Plan.Like Likeness.shape (notesBy name ids more) (notesBy name' ids' more') := by
  have hname : Value.SameShape .exact (.string name) (.string name') :=
    ⟨rfl, fun _ => rfl, nofun⟩
  have inner : Plan.Like Likeness.shape
      { model := Sample.user, filters := [.compare "name" .exact [.string name]] }
      { model := Sample.user, filters := [.compare "name" .exact [.string name']] } := by
    refine .mk .nil (.cons (.leaf ⟨rfl, rfl, rfl, rfl, rfl, fun v w hv hw => ?_⟩) .nil)
    cases hv
    cases hw
    exact hname
  refine .mk (.cons (.func ⟨rfl, rfl, rfl, rfl⟩) .nil) (.cons (.leaf ⟨rfl, rfl, rfl, rfl, h⟩) ?_)
  exact .cons (.subquery inner) .nil

theorem notesBy_sameText : ∃ c c',
    compileSelect Sample.schema (notesBy "Ada" [.int 1, .int 2] 5) = .ok c ∧
    compileSelect Sample.schema (notesBy "') OR 1=1 --" [.list [.null, .string "?"]] 0) = .ok c' ∧
    c.SameText c' := by
  have h : Plan.Like Likeness.shape (notesBy "Ada" [.int 1, .int 2] 5)
      (notesBy "') OR 1=1 --" [.list [.null, .string "?"]] 0) := notesBy_like _ _ _ _ rfl
  obtain ⟨c, hc⟩ : ∃ c, compileSelect Sample.schema (notesBy "Ada" [.int 1, .int 2] 5) = .ok c :=
    exists_eq_ok (by decide +kernel)
  obtain ⟨c', hc', hs⟩ := (compile_sameText h []).1.exists_ok hc
  exact ⟨c, c', hc, hc', hs⟩

end Orm
