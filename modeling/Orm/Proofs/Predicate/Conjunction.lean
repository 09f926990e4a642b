import Orm.Proofs.Predicate.Verdict
import Orm.Sample

/-
The predicates of a query hold together: the `WHERE` clause of every statement, read as a database
reads it, says that all of them hold (`compile_conjoins`). A template with an `OR` outside brackets
would take part in this clause with one of its sides only, as `eitherKey` shows.
-/

namespace Orm

open Reading

variable {ι : Type} {schema : Schema ι}

/-! ## The predicates of a query -/

/-- What may stand behind the predicates of a query: nothing, the next clause or a closing bracket. -/
inductive Sql.EndsPredicates : Sql → Prop
  | nothing : EndsPredicates []
  | ordering (rest : Sql) : EndsPredicates (.text " ORDER BY " :: rest)
  | limit (s : String) (rest : Sql) : EndsPredicates (.text (" LIMIT " ++ s) :: rest)
  | offset (n : Nat) (rest : Sql) : EndsPredicates (.offset n :: rest)
  | bracket (rest : Sql) : EndsPredicates (.text ") AS " :: rest)

/--
The text has the predicates of a query as a `WHERE` clause, if it has any. The clause leaves nothing
open and says of every row that all of them hold.
-/
def Plan.Conjoins (schema : Schema ι) (p : Plan ι) (sql : Sql) : Prop :=
  ∃ filters before parts after args args',
    (∃ s t, Yields (resolveFilters schema p.model p.filters) s filters t) ∧
    Yields (Expression.writeAll schema (p.nestedIn schema) filters) args parts args' ∧
    sql = before ++ whereSql parts ++ after ∧ after.EndsPredicates ∧
    (parts ≠ [] → ∃ items, (Sql.join " AND " parts).Reads items ∧ ∀ ρ : Valuation, ∃ truths,
      Yields (Expression.verdictAll ρ schema (p.nestedIn schema) filters) args truths args' ∧
      ρ.truth items = .all truths)

namespace Plan

variable {p : Plan ι}

theorem resolveFilters_delimited (schema : Schema ι) (root : ι) (es : List (Expression ι)) :
    Keeps (fun _ => True) (resolveFilters schema root es) fun es' =>
      (Expression.DelimitedAll es → Expression.DelimitedAll es') ∧
        es'.map Expression.loose = es.map Expression.loose := by
  induction es with
  | nil =>
    unfold resolveFilters
    exact Keeps.of_pure ⟨id, rfl⟩
  | cons e rest ih =>
    unfold resolveFilters
    refine (Expression.resolveIn_delimited schema root true e).bind fun e' he => ?_
    refine ih.bind fun es hes => Keeps.of_pure ?_
    rw [List.map_cons, List.map_cons, he.2, hes.2]
    refine ⟨fun h => ?_, rfl⟩
    rw [Expression.DelimitedAll] at h ⊢
    exact ⟨he.1 h.1, hes.1 h.2⟩

/-- Predicates written one after the other say together that all of them hold. -/
theorem conjoins_of_writeAll (h : (Expression.all p.filters).Delimited) {s t : Scope}
    {filters : List (Expression ι)} {before after : Sql} {parts : List Sql}
    {args args' : List Value} (hf : Yields (resolveFilters schema p.model p.filters) s filters t)
    (hw : Yields (Expression.writeAll schema (p.nestedIn schema) filters) args parts args')
    (ha : after.EndsPredicates) : p.Conjoins schema (before ++ whereSql parts ++ after) := by
  rw [Expression.all, Expression.Delimited] at h
  obtain ⟨-, hdelimited, hloose⟩ :=
    (resolveFilters_delimited schema p.model p.filters).of_yields trivial hf
  obtain ⟨itemss, hreads, hes, hverdicts⟩ :=
    Expression.writeAll_verdict p.nestedIn_passage filters (hdelimited h.1) hw
  refine ⟨filters, before, parts, after, args, args', ⟨s, t, hf⟩, hw, rfl, ha, fun hne => ?_⟩
  have hfilters : filters ≠ [] := by
    rintro rfl
    cases hes
    cases hreads
    exact hne rfl
  have hoperands : Connector.all = .all →
      filters.length ≤ 1 ∨ ∀ e ∈ filters, e.loose = false := by
    intro hc
    have hlength : filters.length = p.filters.length := by
      simpa using congrArg List.length hloose
    rw [hlength]
    exact (h.2 hc).imp_right (Expression.none_loose hloose)
  obtain ⟨-, htruth⟩ := Expression.truth_joined hes hfilters hoperands
  exact ⟨_, Sql.Reads.join Sql.divides_and hreads, fun ρ => ⟨_, hverdicts ρ, htruth ρ⟩⟩

theorem ends_clauses (items : List Sql) (limit offset : Option Nat) {rest : Sql}
    (h : rest.EndsPredicates) :
    (orderingSql items ++ pagingSql limit offset ++ rest).EndsPredicates := by
  unfold orderingSql
  split
  · cases limit with
    | some l =>
      cases offset with
      | some o =>
        rw [pagingSql, String.append_assoc, String.append_assoc]
        exact .limit _ _
      | none => exact .limit _ _
    | none =>
      cases offset with
      | some o => exact .offset o _
      | none => exact h
  · exact .ordering _

theorem writeSelect_conjoins (h : (Expression.all p.filters).Delimited) {paths : List String}
    {asNested dedupe : Bool} {args args' : List Value} {out : Sql × ScanPlan ι} {q : Plan ι}
    (hq : q.filters = p.filters ∧ q.model = p.model ∧ q.nestedIn schema = p.nestedIn schema)
    (hw : Yields (q.writeSelect schema (q.nestedIn schema) paths asNested dedupe) args out args')
    (front : Sql) {back : Sql} (hb : back.EndsPredicates) :
    p.Conjoins schema (front ++ out.1 ++ back) := by
  obtain ⟨r, scope, computed, mid, predicates, hr, -, hp, rfl⟩ := Plan.writeSelect_cases hw
  obtain ⟨-, ⟨stages⟩⟩ := Plan.stages hr
  have hf := stages.filters
  rw [hq.1, hq.2.1] at hf
  rw [hq.2.2] at hp
  have hsplit : ∀ columns : Sql, front ++ (columns ++ whereSql predicates ++ orderingSql r.ordering ++
      pagingSql q.limit q.offset) ++ back = (front ++ columns) ++ whereSql predicates ++
        (orderingSql r.ordering ++ pagingSql q.limit q.offset ++ back) := by
    intro columns
    simp only [List.append_assoc]
  rw [Plan.selectSql, hsplit]
  exact conjoins_of_writeAll h hf hp (ends_clauses _ _ _ hb)

theorem unordered_nestedIn (p : Plan ι) : p.unordered.nestedIn schema = p.nestedIn schema := by
  cases p
  rfl

theorem conditions_conjoins (h : (Expression.all p.filters).Delimited) {s t : Scope}
    {filters : List (Expression ι)} {parts : List Sql} {args args' : List Value}
    (hf : Yields (p.resolveConditions schema) s filters t)
    (hw : Yields (Expression.writeAll schema (p.nestedIn schema) filters) args parts args')
    (front : Sql) {back : Sql} (hb : back.EndsPredicates) :
    p.Conjoins schema (front ++ whereSql parts ++ back) := by
  unfold resolveConditions at hf
  obtain ⟨_, u, -, hf⟩ := Yields.bind_iff.1 hf
  exact conjoins_of_writeAll h hf hw hb

theorem writeWhere_conjoins (h : (Expression.all p.filters).Delimited) {args args' : List Value}
    {sql : Sql} (hw : Yields (writeWhere schema p) args (some sql) args') (front : Sql) :
    p.Conjoins schema (front ++ sql) := by
  obtain ⟨filters, scope, parts, hf, hp, ⟨-, rfl⟩ | ⟨pk, -, rfl⟩⟩ := writeWhere_cases hw
  · have hall := conditions_conjoins h hf hp front .nothing
    rwa [List.append_nil] at hall
  · unfold Model.memberSql
    rw [← List.append_assoc, ← List.append_assoc]
    exact conditions_conjoins h hf hp _ (.bracket _)

end Plan

/--
The predicates of a query hold together in every statement, and whatever is written for an expression
says what the expression says.
-/
theorem compile_conjoins {p : Plan ι} (h : (Expression.all p.filters).Delimited) :
    (∀ c, compileSelect schema p = .ok c → p.Conjoins schema c.statement.sql) ∧
    (∀ c, compileCount schema p = .ok c → p.Conjoins schema c.statement.sql) ∧
    (∀ x c, compileUpdate schema p x = .ok c → p.Conjoins schema c.statement.sql) ∧
    (∀ c, compileDelete schema p = .ok c → p.Conjoins schema c.statement.sql) ∧
    ∀ e : Expression ι, e.Delimited → ∀ args sql args',
      Yields (e.write schema (p.nestedIn schema)) args sql args' →
      sql.Passage ∧ ∀ ρ, Yields (e.verdict ρ schema (p.nestedIn schema)) args (sql.truth ρ) args' := by
  refine ⟨fun c hc => ?_, fun c hc => ?_, fun x c hc => ?_, fun c hc => ?_,
    fun e he args sql args' hw => ?_⟩
  · obtain ⟨sql, scan, args, hw, rfl⟩ := compileSelect_cases hc
    have hall := Plan.writeSelect_conjoins h ⟨rfl, rfl, rfl⟩ hw [] .nothing
    rwa [List.nil_append, List.append_nil] at hall
  · obtain ⟨-, sql, args, hw, rfl⟩ := compileCount_cases hc
    split at hw
    · obtain ⟨sub, scan, hs, rfl⟩ := writeCountNested_cases hw
      have hq : p.unordered.filters = p.filters ∧ p.unordered.model = p.model ∧
        p.unordered.nestedIn schema = p.nestedIn schema := ⟨rfl, rfl, p.unordered_nestedIn⟩
      exact Plan.writeSelect_conjoins h hq hs _ (.bracket _)
    · obtain ⟨filters, scope, parts, hf, hp, rfl⟩ := writeCountPlain_cases hw
      have hall := Plan.conditions_conjoins h hf hp (.text "SELECT " ::
        (schema p.model).countedSql scope.toMany ++
          [.text " FROM ", .ident [(schema p.model).table]] ++ joinsSql scope.joins) .nothing
      rwa [List.append_nil] at hall
  · obtain ⟨fields, sets, mid, predicate, args, -, -, hw, rfl⟩ := compileUpdate_cases hc
    exact Plan.writeWhere_conjoins h hw _
  · obtain ⟨predicate, args, hw, rfl⟩ := compileDelete_cases hc
    exact Plan.writeWhere_conjoins h hw _
  · obtain ⟨items, hr, -, hv⟩ := Expression.write_verdict p.nestedIn_passage e he hw
    refine ⟨⟨items, hr⟩, fun ρ => ?_⟩
    rw [hr.truth_eq]
    exact hv ρ

def firstNames : Plan Sample where
  model := .user
  filters := [.compare "name" .startswith [.string "a"]]

/-- What is still to do for someone, one of two ways to say for whom standing in a group. -/
def openTodos : Plan Sample where
  model := .todo
  filters := [.compare "done" .exact [.bool false],
    .any [.raw { text := "%s = ? OR %s IS NULL", fields := ["user", "user"], params := [.int 1] }],
    .func { text := "LENGTH(%s) BETWEEN ? AND ?", fields := ["title"], params := [.int 1, .int 9] },
    .memberOf "user" firstNames]

theorem openTodos_delimited : (Expression.all openTodos.filters).Delimited := by
  have nested : Demand.closed.OnPlan firstNames := ⟨trivial, trivial, fun _ _ => trivial, trivial⟩
  refine ⟨⟨trivial, ⟨⟨?_, trivial⟩, nofun⟩, ?_, nested, trivial⟩, fun _ => .inr ?_⟩
  · change Template.isPredicate _ = true
    decide
  · change Template.isPredicate _ = true
    decide
  · simp only [openTodos, List.forall_mem_cons]
    exact ⟨rfl, rfl, by decide, rfl, nofun⟩

theorem openTodos_conjoins : (Expression.all openTodos.filters).Delimited ∧
    ∃ c, compileDelete Sample.schema openTodos = .ok c ∧
      openTodos.Conjoins Sample.schema c.statement.sql := by
  obtain ⟨c, hc⟩ : ∃ c, compileDelete Sample.schema openTodos = .ok c :=
    exists_eq_ok (by decide +kernel)
  exact ⟨openTodos_delimited, c, hc, (compile_conjoins openTodos_delimited).2.2.2.1 c hc⟩

/-- Either of two todos, as a template, besides what is still to do. -/
def eitherKey : Plan Sample where
  model := .todo
  filters := [.compare "done" .exact [.bool false],
    .raw { text := "%s = ? OR %s = ?", fields := ["id", "id"], params := [.int 1, .int 2] }]

/-- A todo that is done and is the second one. -/
def secondDone : Valuation where
  holds
    | [.word ['1'], .sign '=', .word ['1']] => .yes
    | [_, _, .slot (.param 3)] => .yes
    | _ => .no
  always := rfl
  never := rfl

/-- The todo is deleted although the first predicate says that it is not meant. -/
theorem eitherKey_escapes : ∃ c first second,
    compileDelete Sample.schema eitherKey = .ok c ∧
    c.statement.sql = [.text "DELETE FROM ", .ident ["todos"]] ++ whereSql [first, second] ∧
    first.truth secondDone = .no ∧
    (Sql.join " AND " [first, second]).truth secondDone = .yes :=
  ⟨_, [.ident ["todos", "done"], .text " = ", .param 1], _, rfl, rfl, rfl, rfl⟩

end Orm
