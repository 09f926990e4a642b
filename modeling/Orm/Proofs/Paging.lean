import Orm.Proofs.Statement
import Orm.Sample

/-
Paging. The rows of a SELECT are those between its offset and its limit: the window is the tail of
the text, and nothing else of the statement depends on it. The statements that write have no such
tail. Their predicate is put together from the joins and the filters alone, so a window is lost on
them and they concern every row that matches.
-/

namespace Orm

variable {ι : Type} {schema : Schema ι}

/-- The query without its window. -/
def Plan.unpaged (p : Plan ι) : Plan ι := { p with limit := none, offset := none }

/-- The statement with a window behind it. -/
def Compiled.windowed (c : Compiled ι) (limit offset : Option Nat) : Compiled ι :=
  { c with statement := { c.statement with sql := c.statement.sql ++ pagingSql limit offset } }

namespace Plan

variable (p : Plan ι)

theorem planDepth_unpaged : Expression.planDepth p.unpaged = Expression.planDepth p := by
  cases p
  simp only [unpaged, Expression.planDepth]

/-- The queries nested in a plan are written as they are without its window. -/
theorem nestedIn_unpaged : p.unpaged.nestedIn schema = p.nestedIn schema := by
  rw [nestedIn, nestedIn, planDepth_unpaged]

theorem resolve_unpaged (paths : List String) (asNested dedupe : Bool) :
    p.unpaged.resolve schema paths asNested dedupe = p.resolve schema paths asNested dedupe := rfl

theorem conditions_unpaged : p.unpaged.conditions schema = p.conditions schema := rfl

theorem selectSql_unpaged (r : ResolvedSelect ι) (joins : List Join)
    (computed predicates : List Sql) :
    p.selectSql schema r joins computed predicates =
      p.unpaged.selectSql schema r joins computed predicates ++ pagingSql p.limit p.offset := by
  change _ ++ pagingSql p.limit p.offset = (_ ++ []) ++ pagingSql p.limit p.offset
  rw [List.append_nil]
  rfl

theorem writeSelect_unpaged (nested : Plan ι → Binding Sql) (paths : List String)
    (asNested dedupe : Bool) :
    p.writeSelect schema nested paths asNested dedupe =
      p.unpaged.writeSelect schema nested paths asNested dedupe >>= fun out =>
        pure (out.1 ++ pagingSql p.limit p.offset, out.2) := by
  simp only [writeSelect_eq, resolve_unpaged, selectSql_unpaged p, bind_assoc, pure_bind]

end Plan

theorem compileSelect_unpaged (p : Plan ι) :
    compileSelect schema p =
      (compileSelect schema p.unpaged).map (·.windowed p.limit p.offset) := by
  simp only [compileSelect, p.nestedIn_unpaged, p.writeSelect_unpaged, Binding.run_eq,
    Binding.runFrom_map]
  change _ = Except.map _ (Binding.runFrom [] (p.unpaged.writeSelect schema (p.nestedIn schema)
    p.select false true) >>= _)
  cases Binding.runFrom [] (p.unpaged.writeSelect schema (p.nestedIn schema) p.select false true) <;>
    rfl

theorem writeWhere_unpaged (p : Plan ι) : writeWhere schema p.unpaged = writeWhere schema p := by
  rw [writeWhere_eq, writeWhere_eq, p.nestedIn_unpaged, p.conditions_unpaged]
  rfl

/-- What comes of a window: a SELECT has it as its tail, an UPDATE or a DELETE is what it is without
one. -/
theorem compile_unpaged (schema : Schema ι) (p : Plan ι) :
    compileSelect schema p =
      (compileSelect schema p.unpaged).map (·.windowed p.limit p.offset) ∧
    compileDelete schema p = compileDelete schema p.unpaged ∧
    ∀ x, compileUpdate schema p x = compileUpdate schema p.unpaged x := by
  refine ⟨compileSelect_unpaged p, ?_, fun x => ?_⟩
  · rw [compileDelete, compileDelete, writeWhere_unpaged]
    rfl
  · rw [compileUpdate, compileUpdate, writeWhere_unpaged]
    rfl

/-- One todo that is done. -/
def firstDone : Plan Sample where
  model := .todo
  filters := [.compare "done" .exact [.bool true]]
  limit := some 1

def archived : Instance Sample :=
  (Instance.new Sample.schema .todo).withSlot "title" (.scalar (.string "Archived"))

/-- The DELETE and the UPDATE of one todo that is done are those of all of them. -/
theorem firstDone_reaches_all :
    (∃ c, compileDelete Sample.schema firstDone = .ok c ∧
      compileDelete Sample.schema firstDone.unpaged = .ok c ∧
      c.statement.sql = [.text "DELETE FROM ", .ident ["todos"], .text " WHERE ",
        .ident ["todos", "done"], .text " = ", .param 1]) ∧
    ∃ c, compileUpdate Sample.schema firstDone archived = .ok c ∧
      compileUpdate Sample.schema firstDone.unpaged archived = .ok c ∧
      c.statement.sql = [.text "UPDATE ", .ident ["todos"], .text " SET ", .ident ["title"],
        .text " = ", .param 1, .text " WHERE ", .ident ["todos", "done"], .text " = ", .param 2] :=
  ⟨⟨_, rfl, rfl, rfl⟩, _, rfl, rfl, rfl⟩

end Orm
