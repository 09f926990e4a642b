import Orm.Proofs.Alike.Values
import Orm.Proofs.Placeholder.Writing
import Orm.Sample

/-
A nested SELECT is what its query is compiled to on its own, its parameters counted on from those before
it; only the ordering that a model has by default is not in it (`subquery_alone`).
-/

namespace Orm

variable {ι : Type} {schema : Schema ι} {nested : Plan ι → Binding Sql} {q : Plan ι}

open Expression (planDepth)

/-! ## Runs behind others -/

/-- A run that does what another does, once other values are bound. -/
theorem Paired.after_iff {α : Type} {x y : Binding α} {g : α → α} {before : List Value}
    (h : Paired (After before) x y fun a b => b = g a) {b : α} {args : List Value} :
    Yields y before b args ↔ ∃ a since, Yields x [] a since ∧ b = g a ∧ args = before ++ since := by
  obtain ⟨hq, hafter⟩ := h [] before (List.append_nil before).symm
  unfold Yields
  rcases hx : outcome x [] with ⟨r, since⟩
  rcases hy : outcome y before with ⟨r', args'⟩
  rw [hx, hy] at hq hafter
  obtain rfl : args' = before ++ since := hafter
  cases r with
  | error e =>
    cases r' with
    | error e' => simp
    | ok b' => exact hq.elim
  | ok a =>
    cases r' with
    | error e' => exact hq.elim
    | ok b' =>
      obtain rfl : b' = g a := hq
      simp only [Prod.mk.injEq, Except.ok.injEq]
      constructor
      · rintro ⟨rfl, rfl⟩
        exact ⟨a, since, ⟨rfl, rfl⟩, rfl, rfl⟩
      · rintro ⟨_, _, ⟨rfl, rfl⟩, rfl, rfl⟩
        exact ⟨rfl, rfl⟩

/-! ## Queries as they are nested -/

/-- A query in the order that it says itself, in none if it says none. -/
def Plan.saidOrder (q : Plan ι) : Plan ι := { q with orderBy := some (q.orderBy.getD []) }

/-- The model's own ordering is all that a nested query is resolved without. -/
theorem Plan.resolve_nested (q : Plan ι) (paths : List String) (dedupe : Bool) :
    q.resolve schema paths true dedupe = q.saidOrder.resolve schema paths false dedupe := by
  have hordering : q.saidOrder.ordering schema false = q.ordering schema true := by
    unfold Plan.ordering Plan.saidOrder
    cases q.orderBy <;> rfl
  unfold Plan.resolve
  rw [hordering]
  rfl

theorem Plan.writeSelect_nested (q : Plan ι) (paths : List String) (dedupe : Bool) :
    q.writeSelect schema nested paths true dedupe =
      q.saidOrder.writeSelect schema nested paths false dedupe := by
  rw [Plan.writeSelect_eq, Plan.writeSelect_eq, Plan.resolve_nested]
  rfl

theorem Plan.planDepth_saidOrder (q : Plan ι) : planDepth q.saidOrder = planDepth q := by
  rw [Expression.planDepth_eq, Expression.planDepth_eq]
  rfl

theorem Plan.planDepth_select (q : Plan ι) (select : List String) :
    planDepth { q with select } = planDepth q := by
  rw [Expression.planDepth_eq, Expression.planDepth_eq]

/-- A query that says its order, or whose model has none, is in the same order when it is nested. -/
theorem Plan.compileSelect_saidOrder
    (h : q.orderBy.isSome = true ∨ (schema q.model).ordering = []) :
    compileSelect schema q.saidOrder = compileSelect schema q := by
  have hordering : q.ordering schema true = q.ordering schema false := by
    unfold Plan.ordering
    cases ho : q.orderBy with
    | some items => rfl
    | none => simpa [ho] using h.symm
  have hselect : q.saidOrder.writeSelect schema (q.saidOrder.nestedIn schema) q.select false true =
      q.writeSelect schema (q.nestedIn schema) q.select false true := by
    rw [← Plan.writeSelect_nested, Plan.nestedIn, Plan.planDepth_saidOrder, ← Plan.nestedIn]
    unfold Plan.writeSelect Plan.resolve
    rw [hordering]
  unfold compileSelect
  rw [← hselect]
  rfl

/-! ## Nested queries alone -/

theorem Plan.writeNested_alone {depth : Nat} (hd : planDepth q < depth) {args args' : List Value}
    {sql : Sql} : Yields (Plan.writeNested schema depth q) args sql args' ↔
      ∃ c, compileSelect schema q.saidOrder = .ok c ∧ sql = Sql.shift args.length c.statement.sql ∧
        args' = args ++ c.statement.args := by
  cases depth with
  | zero => omega
  | succ depth =>
    have hnests : Likeness.equal.Nests args.length (After args) (planDepth q.saidOrder)
        (q.saidOrder.nestedIn schema) (Plan.writeNested schema depth) := by
      have hpaired : Likeness.equal.Nests _ _ _ (q.saidOrder.nestedIn schema) _ :=
        Plan.writeNested_paired Likeness.equal_pins (Likeness.equal_writes args)
          (planDepth q.saidOrder) depth
      rwa [Plan.planDepth_saidOrder, Nat.min_eq_left (by omega), ← Plan.planDepth_saidOrder] at hpaired
    have hselect : Paired (After args)
        (q.saidOrder.writeSelect schema (q.saidOrder.nestedIn schema) q.select false true)
        (q.saidOrder.writeSelect schema (Plan.writeNested schema depth) q.select false true)
        (ShiftedSelect args.length) :=
      Plan.writeSelect_paired Likeness.equal_pins (Likeness.equal_writes args)
        (Plan.Like.refl Likeness.equal_reflexive q.saidOrder) hnests
    have hiff := @Paired.after_iff _ _ _ _ _ hselect
    rw [Plan.writeNested]
    simp only [Yields.bind_iff, Yields.pure_iff, Plan.writeSelect_nested, hiff]
    constructor
    · rintro ⟨_, _, ⟨⟨text, scan⟩, since, hy, rfl, rfl⟩, rfl, rfl⟩
      exact ⟨{ statement := ⟨text, since⟩, scan },
        bind_eq_ok.2 ⟨((text, scan), since), Binding.run_ok_iff.2 hy, rfl⟩, rfl, rfl⟩
    · rintro ⟨c, hc, rfl, rfl⟩
      obtain ⟨text, scan, since, hy, rfl⟩ := compileSelect_cases hc
      exact ⟨_, _, ⟨(text, scan), since, hy, rfl, rfl⟩, rfl, rfl⟩

/--
A query nested in another is written as the SELECT that it is compiled to on its own, paging included, in
the order that it says itself; only its parameters are counted on from those bound before. So it is
written with the `ORDER BY` that it has alone if it says its order, or if its model has none.
-/
theorem subquery_alone {use : SubqueryUse} {lhs : Option String} {column : Option Column}
    {depth : Nat} (hd : planDepth q < depth) {args args' : List Value} {sql : Sql} :
    (Yields (Expression.write schema (Plan.writeNested schema depth) (.subquery use lhs column q))
        args sql args' ↔
      ∃ q' c, Expression.projected schema q = .ok q' ∧ compileSelect schema q'.saidOrder = .ok c ∧
        Expression.useSql use column (Sql.shift args.length c.statement.sql) = .ok sql ∧
        args' = args ++ c.statement.args) ∧
    (q.orderBy.isSome = true ∨ (schema q.model).ordering = [] →
      ∀ q', Expression.projected schema q = .ok q' →
        compileSelect schema q'.saidOrder = compileSelect schema q') := by
  constructor
  · simp only [Expression.write, Yields.bind_iff, Yields.mk_pure_iff]
    constructor
    · rintro ⟨q', _, ⟨hq, rfl⟩, inner, _, hinner, huse, rfl⟩
      obtain ⟨select, rfl⟩ := Expression.projected_eq_ok hq
      obtain ⟨c, hc, rfl, rfl⟩ := (Plan.writeNested_alone (q.planDepth_select select ▸ hd)).1 hinner
      exact ⟨_, c, hq, hc, huse, rfl⟩
    · rintro ⟨q', c, hq, hc, huse, rfl⟩
      obtain ⟨select, rfl⟩ := Expression.projected_eq_ok hq
      exact ⟨_, args, ⟨hq, rfl⟩, _, _,
        (Plan.writeNested_alone (q.planDepth_select select ▸ hd)).2 ⟨c, hc, rfl, rfl⟩, huse, rfl⟩
  · intro h q' hq
    obtain ⟨select, rfl⟩ := Expression.projected_eq_ok hq
    exact Plan.compileSelect_saidOrder h

/-- The second page of the todos of one person that are tagged as urgent. -/
def urgentTodos : Plan Sample where
  model := .todo
  select := ["title"]
  filters := [.compare "tags.label" .exact [.string "urgent"], .compare "user" .exact [.int 7]]
  orderBy := some ["-user.name", "title"]
  limit := some 10
  offset := some 10

theorem urgentTodos_alone : Expression.planDepth urgentTodos < 1 ∧ urgentTodos.orderBy.isSome = true ∧
    ∃ c sql, compileSelect Sample.schema urgentTodos = .ok c ∧
      Yields (Expression.write Sample.schema (Plan.writeNested Sample.schema 1)
        (.subquery .inList (some "title") (some ["reminders", "title"]) urgentTodos))
        [.string "Ann"] sql ([.string "Ann"] ++ c.statement.args) ∧
      Expression.useSql .inList (some ["reminders", "title"]) (Sql.shift 1 c.statement.sql) =
        .ok sql := by
  have hd : Expression.planDepth urgentTodos < 1 := by decide +kernel
  obtain ⟨c, hc⟩ : ∃ c, compileSelect Sample.schema urgentTodos = .ok c :=
    exists_eq_ok (by decide +kernel)
  obtain ⟨hiff, hsame⟩ := @subquery_alone _ Sample.schema urgentTodos .inList (some "title")
    (some ["reminders", "title"]) 1 hd [.string "Ann"] ([.string "Ann"] ++ c.statement.args)
    ([.ident ["reminders", "title"], .text " IN ("] ++ Sql.shift 1 c.statement.sql ++ [.text ")"])
  have hsaid := hsame (.inl rfl) urgentTodos rfl
  exact ⟨hd, rfl, c, _, hc, hiff.2 ⟨urgentTodos, c, rfl, hsaid.trans hc, rfl, rfl⟩, rfl⟩

/-- The country that comes first in the order that countries have by default. -/
def firstCountry : Plan Sample where
  model := .country
  select := ["code"]
  limit := some 1

/-- The visas of the country that comes first. -/
def visasOfFirstCountry : Plan Sample where
  model := .visa
  select := ["id"]
  filters := [.subquery .inList (some "country") none firstCountry]

/-- A page in the default order of its model is not in that order when it is nested. -/
theorem firstCountry_unordered : ∃ alone outer,
    compileSelect Sample.schema firstCountry = .ok alone ∧
    alone.statement.sql = [.text "SELECT ", .ident ["countries", "code"], .text " AS ",
      .ident ["countries_code"], .text " FROM ", .ident ["countries"], .text " ORDER BY ",
      .ident ["countries", "name"], .text " DESC", .text " LIMIT 1"] ∧
    compileSelect Sample.schema visasOfFirstCountry = .ok outer ∧
    outer.statement.sql = [.text "SELECT ", .ident ["visas", "id"], .text " AS ",
      .ident ["visas_id"], .text " FROM ", .ident ["visas"], .text " WHERE ",
      .ident ["visas", "country_id"], .text " IN (", .text "SELECT ", .ident ["countries", "code"],
      .text " AS ", .ident ["countries_code"], .text " FROM ", .ident ["countries"],
      .text " LIMIT 1", .text ")"] :=
  ⟨_, _, rfl, rfl, rfl, rfl⟩

end Orm
