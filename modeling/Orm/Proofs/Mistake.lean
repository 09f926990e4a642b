import Orm.Proofs.Building
import Orm.Proofs.Statement
import Orm.Proofs.Verb
import Orm.Sample

/-
What a query with a mistake comes to: every verb of such a query gives the mistake back before it asks
the database for anything or tells a hook, because each compiles first or checks the plan itself. With
the rules of building this says that the first mistake wins and that nothing gets past it.
-/

namespace Orm

variable {ι ρ σ : Type} {schema : Schema ι}

/-! ## Compiling a mistake -/

section

variable {p : Plan ι} {e : Error} (h : p.error = some e)

include h

theorem Plan.check_error : p.check = .error e := by
  rw [Plan.check, h]

theorem Plan.outcome_resolve_error (paths : List String) (asNested dedupe : Bool) (s : Scope) :
    outcome (p.resolve schema paths asNested dedupe) s = (.error e, s) := by
  rw [Plan.resolve, Resolving.ofResult, Plan.check_error h, outcome_bind, outcome_mk_pure]

theorem Plan.runFrom_writeSelect_error (nested : Plan ι → Binding Sql) (paths : List String)
    (asNested dedupe : Bool) (args : List Value) :
    (p.writeSelect schema nested paths asNested dedupe).runFrom args = .error e := by
  rw [Plan.writeSelect_eq, Plan.outcome_resolve_error h]
  rfl

theorem compileSelect_error : compileSelect schema p = .error e := by
  rw [compileSelect, Binding.run_eq, Plan.runFrom_writeSelect_error h]
  rfl

theorem compileCount_error : compileCount schema p = .error e := by
  rw [compileCount, Plan.check_error h]
  rfl

theorem compileDelete_error : compileDelete schema p = .error e := by
  rw [compileDelete, Plan.check_error h]
  rfl

end

/-! ## Verbs of a query with a mistake -/

/-- Nothing has come of a verb but a report. -/
def Refused {α : Type} (x : StateM (World ρ σ) (Performed ι α)) (e : Error) (xs : List (Instance ι)) : Prop :=
  ∀ w, ∃ report, x.run w = ((.error e, xs), { w with log := w.log ++ report })

section

variable {α β : Type} {e : Error}

/-- The same of a run. -/
def Fails (x : Effect ρ σ α) (e : Error) : Prop :=
  ∀ w, ∃ report, outcome x w = (.error e, { w with log := w.log ++ report })

theorem Fails.of_result {r : Result α} (h : r = .error e) : Fails (Effect.ofResult r : Effect ρ σ α) e :=
  fun w => ⟨[], by rw [h, List.append_nil]; rfl⟩

theorem Fails.bind {x : Effect ρ σ α} (h : Fails x e) (f : α → Effect ρ σ β) : Fails (x >>= f) e := by
  intro w
  obtain ⟨report, hx⟩ := h w
  exact ⟨report, by rw [outcome_bind, hx]⟩

theorem Fails.after_report {x : Effect ρ σ α} (h : Fails x e) (l : Log) :
    Fails (Effect.report l >>= fun _ => x) e := by
  intro w
  obtain ⟨report, hx⟩ := h { w with log := w.log ++ l }
  refine ⟨l ++ report, ?_⟩
  rw [outcome_bind, Effect.report, outcome_modify]
  simp only [hx, List.append_assoc]

theorem Fails.alone {x : Effect ρ σ α} (h : Fails x e) : Refused (ι := ι) x.alone e [] := by
  intro w
  obtain ⟨report, hx⟩ := h w
  refine ⟨report, ?_⟩
  change (((outcome x w).1, []), (outcome x w).2) = _
  rw [hx]

end

section

variable (env : Environment ι ρ σ) (db : Executor) {p : Plan ι} {e : Error}
  (h : p.error = some e)

include h

open Effect (ofResult)

theorem count_fails : Fails (env.count db p) e :=
  ((Fails.of_result (compileCount_error h)).bind _).after_report _

theorem valuesList_fails (paths : List String) : Fails (env.valuesList db p paths) e := by
  refine ((Fails.of_result ?_).bind _).after_report _
  rw [Plan.check_error h]
  rfl

theorem update_fails (x : Instance ι) : Fails (env.update db p x) e :=
  ((Fails.of_result (Plan.check_error h)).bind _).after_report _

theorem delete_fails : Fails (env.delete db p) e :=
  ((Fails.of_result (compileDelete_error h)).bind _).after_report _

variable [DecidableEq ι]

theorem all_fails : Fails (env.all db p) e :=
  ((Fails.of_result (compileSelect_error h)).bind _).after_report _

theorem create_refused (x : Instance ι) : Refused ((env.create db p).on x) e [x] := by
  refine fun w => ⟨[], ?_⟩
  rw [Environment.create, Plan.check_error h, List.append_nil]
  rfl

theorem bulkCreate_refused (xs : List (Instance ι)) : Refused (env.bulkCreate db p xs) e xs := by
  refine fun w => ⟨[], ?_⟩
  rw [Environment.bulkCreate, Plan.check_error h, List.append_nil]
  rfl

end

/-- Every verb of a query with a mistake gives the mistake back and has done nothing. -/
theorem Verb.refused [DecidableEq ι] (env : Environment ι ρ σ) (db : Executor) {v : Verb ι}
    {p : Plan ι} (hv : v.plan? = some p) {e : Error} (h : p.error = some e) :
    Refused (v.perform env db) e v.instances := by
  -- `first` and `exists` ask for one row, which keeps the mistake
  have limited : (p.limited 1).error = some e := h
  cases v with
  | all => cases hv; exact (all_fails env db h).alone
  | first => cases hv; exact ((all_fails env db limited).bind _).alone
  | get => cases hv; exact ((all_fails env db h).bind _).alone
  | count => cases hv; exact (count_fails env db h).alone
  | «exists» => cases hv; exact ((count_fails env db limited).bind _).alone
  | valuesList _ paths => cases hv; exact (valuesList_fails env db h paths).alone
  | valuesFlat _ path _ => cases hv; exact ((valuesList_fails env db h [path]).bind _).alone
  | update _ x => cases hv; exact (update_fails env db h x).alone
  | delete => cases hv; exact (delete_fails env db h).alone
  | create _ x => cases hv; exact create_refused env db h x
  | bulkCreate _ xs => cases hv; exact bulkCreate_refused env db h xs
  | _ => cases hv

/-! ## The first mistake -/

open BuilderCall

/-- The mistake of the first call that fails is the one that every verb gives back. A call that fails
changes nothing else, one whose expression nests a query with a mistake fails by the first defect of
that expression, and a verb of a query with a mistake sends nothing and tells no hook. -/
theorem firstMistake_wins [DecidableEq ι] (env : Environment ι ρ σ) (db : Executor) (p : Plan ι) :
    (∀ (c : BuilderCall ι) e, c.attempt env.schema p = .error e →
      c.apply env.schema p = { p with error := some (p.error.getD e) }) ∧
    (∀ (c : BuilderCall ι) q, c.attempt env.schema p = .ok q →
      c.apply env.schema p = q ∧ q.error = p.error) ∧
    (∀ calls, (applyAll env.schema p calls).error =
      p.error.or (firstFailure env.schema p calls)) ∧
    (∀ es, p.filterAll env.schema es = applyAll env.schema p (es.map .filter)) ∧
    (∀ (c : BuilderCall ι) e inner why, c.expression? = some e → e.Encloses inner →
      inner.error = some why → ∃ first rest, e.defects = first :: rest ∧ why ∈ first :: rest ∧
        c.attempt env.schema p = .error first) ∧
    ∀ (v : Verb ι) e, v.plan? = some p → p.error = some e →
      Refused (v.perform env db) e v.instances := by
  refine ⟨fun c e h => apply_of_failed h, fun c q h => ⟨?_, error_of_attempt h⟩, fun calls => ?_,
    filterAll_eq p, fun c e inner why hc hn hi => ?_, fun v e hv h => Verb.refused env db hv h⟩
  · rw [apply_eq_step, h, Plan.step]
  · rcases h : p.error with _ | e
    · exact error_applyAll h calls
    · exact error_applyAll_of_some h calls
  · have hwhy := hn.mem_defects hi
    obtain ⟨first, rest, hd⟩ := List.exists_cons_of_ne_nil (List.ne_nil_of_mem hwhy)
    exact ⟨first, rest, hd, hd ▸ hwhy, attempt_of_defect hc hd p⟩

/-- A database without rows. -/
def Sample.empty : Environment Sample Empty Unit where
  schema := Sample.schema
  driver := "sqlite"
  dialect := .sqlite
  answer
    | .execute, _, _, _ => ({ result := .ok (0 : Nat) }, ())
    | .query, _, _, _ => ({ result := .ok [] }, ())
    | .insert, _, _, _ => ({ result := .ok (.int 1) }, ())
  react := nofun
  receiverFires := nofun
  rowFires _ _ := []

/-- Users by a field that they do not have. -/
def misnamedUsers : Plan Sample :=
  ({ model := .user } : Plan Sample).filterBy Sample.schema "nmae" (.string "ann")

/-- Todos that are done or whose user is one of those. -/
def misnamedTodos : Expression Sample :=
  .group .all false
    [.compare "done" .exact [.bool true],
     .group .any true [.subquery .exists none none misnamedUsers]]

def misnamedCalls : List (BuilderCall Sample) :=
  [.filter misnamedTodos, .orderBy ["ghost"], .limit 1]

/-- The mistake two groups down is the one that the query's verbs give back, whatever is called after
it and although a later call fails as well. -/
theorem misnamedTodos_wins :
    let p := applyAll Sample.schema { model := .todo } misnamedCalls
    let e := Error.unknownField "users" "nmae"
    (BuilderCall.filter misnamedTodos).attempt Sample.schema { model := .todo } = .error e ∧
      p.error = some e ∧
      (BuilderCall.orderBy ["ghost"] : BuilderCall Sample).apply Sample.schema p = p ∧
      Refused ((Verb.count p).perform Sample.empty .connection) e [] := by
  intro p e
  obtain ⟨-, -, mistake, -, fails, -⟩ :=
    firstMistake_wins Sample.empty .connection { model := .todo }
  have encloses : misnamedTodos.Encloses misnamedUsers :=
    .inGroup (List.mem_cons_of_mem _ List.mem_cons_self) (.inGroup List.mem_cons_self .here)
  obtain ⟨first, rest, hd, -, failed⟩ :=
    fails (.filter misnamedTodos) misnamedTodos misnamedUsers e rfl encloses rfl
  have failed : (BuilderCall.filter misnamedTodos).attempt Sample.schema { model := .todo } =
      .error e := by
    cases hd
    exact failed
  have recorded : p.error = some e := by
    refine (mistake misnamedCalls).trans ?_
    change Option.or none (firstFailure Sample.schema _ misnamedCalls) = _
    rw [misnamedCalls, firstFailure, failed]
    rfl
  obtain ⟨unchanged, -, -, -, -, refused⟩ := firstMistake_wins Sample.empty .connection p
  refine ⟨failed, recorded, ?_, refused (.count p) e rfl recorded⟩
  exact unchanged (.orderBy ["ghost"]) (.unknownField "todos" "ghost") rfl

end Orm
