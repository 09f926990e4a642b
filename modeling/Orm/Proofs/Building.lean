import Orm.Plan
import Orm.Proofs.Outcome

/-
Building a query, call by call.

A call either gives the plan with one more thing in it or fails (`BuilderCall.attempt`). One that fails
changes nothing but the mistake that the plan carries, and not even that if the plan carries one
already. So by induction over the calls the mistake is that of the first call that failed. An
expression is refused by the first of its defects, in the order in which it is read; a nested query
built with a mistake is one of them.
-/

namespace Orm

variable {ι : Type} {schema : Schema ι}

/-! ## Defects of expressions -/

namespace Expression

mutual
/-- The mistakes made in building an expression, in the order in which it is read. -/
def defects : Expression ι → List Error
  | .leaf l => (l.unsupported.map Error.unsupportedLookup).toList
  | .raw _ | .func _ => []
  | .group _ _ children => defectsAll children
  | .subquery _ _ _ plan => plan.error.toList

def defectsAll : List (Expression ι) → List Error
  | [] => []
  | e :: rest => defects e ++ defectsAll rest
end

/-- A query that stands in an expression, under any number of groups. -/
inductive Encloses : Expression ι → Plan ι → Prop
  | here {use : SubqueryUse} {lhs : Option String} {column : Option Column} {plan : Plan ι} :
    Encloses (.subquery use lhs column plan) plan
  | inGroup {connector : Connector} {negated : Bool} {children : List (Expression ι)}
    {e : Expression ι} {plan : Plan ι} :
    e ∈ children → Encloses e plan → Encloses (.group connector negated children) plan

theorem mem_defectsAll {es : List (Expression ι)} {e : Expression ι} (he : e ∈ es) {why : Error}
    (h : why ∈ e.defects) : why ∈ defectsAll es := by
  induction es with
  | nil => cases he
  | cons a es ih =>
    rw [defectsAll]
    rcases List.mem_cons.1 he with rfl | he
    · exact List.mem_append_left _ h
    · exact List.mem_append_right _ (ih he)

theorem Encloses.mem_defects {e : Expression ι} {plan : Plan ι} (h : e.Encloses plan) {why : Error}
    (hwhy : plan.error = some why) : why ∈ e.defects := by
  induction h with
  | here => exact Option.mem_toList.2 hwhy
  | inGroup he _ ih =>
    rw [defects]
    exact mem_defectsAll he (ih hwhy)

/-- The first of some mistakes as the result of a check. -/
def refusal : List Error → Result Unit
  | [] => .ok ()
  | e :: _ => .error e

theorem refusal_append (as bs : List Error) :
    refusal (as ++ bs) = (refusal as >>= fun _ => refusal bs) := by
  cases as <;> rfl

mutual
/-- An expression is refused by the first of its defects. -/
theorem check_eq (e : Expression ι) : e.check = refusal e.defects := by
  cases e with
  | leaf l =>
    rw [check, defects]
    cases l.unsupported <;> rfl
  | raw t => rfl
  | func t => rfl
  | group connector negated children => exact checkAll_eq children
  | subquery use lhs column plan =>
    rw [check, defects, Plan.check]
    cases plan.error <;> rfl

theorem checkAll_eq (es : List (Expression ι)) : checkAll es = refusal (defectsAll es) := by
  cases es with
  | nil => rfl
  | cons e es =>
    rw [checkAll, defectsAll, refusal_append, check_eq e]
    exact congrArg (refusal e.defects >>= fun _ => ·) (checkAll_eq es)
end

end Expression

/-! ## Calls -/

/-- A call that builds a query further. -/
inductive BuilderCall (ι : Type) where
  | select (paths : List String)
  | annotate (name : String) (e : Expression ι)
  | filter (e : Expression ι)
  | filterBy (key : String) (value : Value)
  | exclude (e : Expression ι)
  | orderBy (items : List String)
  | limit (n : Nat)
  | offset (n : Nat)
  | distinct
  | explicitSave
  | join (kind : JoinKind) (target : String) (condition : Option JoinCondition)

namespace BuilderCall

/-- The plan after the call. -/
def apply (schema : Schema ι) (p : Plan ι) : BuilderCall ι → Plan ι
  | select paths => p.selecting schema paths
  | annotate name e => p.annotating schema name e
  | filter e => p.filter schema e
  | filterBy key value => p.filterBy schema key value
  | exclude e => p.exclude schema e
  | orderBy items => p.ordered schema items
  | limit n => p.limited n
  | offset n => p.skipping n
  | distinct => p.distinctRows
  | explicitSave => p.savingAll
  | join kind target condition => p.joining kind target condition

/-- What the call makes of a plan, or why it fails. -/
def attempt (schema : Schema ι) (p : Plan ι) : BuilderCall ι → Result (Plan ι)
  | select paths => do
    p.checkPaths schema paths
    return { p with select := paths }
  | annotate name e => do
    p.checkExpression schema e
    return { p with annotations := p.annotations ++ [(name, e)] }
  | filter e => do
    p.checkExpression schema e
    return { p with filters := p.filters ++ [e] }
  | filterBy key value => do
    p.checkExpression schema (.ofKey key [value])
    return { p with filters := p.filters ++ [.ofKey key [value]] }
  | exclude e => do
    p.checkExpression schema e.negate
    return { p with filters := p.filters ++ [e.negate] }
  | orderBy items => do
    p.checkOrdering schema items
    return { p with orderBy := some items }
  | limit n => .ok { p with limit := some n }
  | offset n => .ok { p with offset := some n }
  | distinct => .ok { p with distinct := true }
  | explicitSave => .ok { p with explicitSave := true }
  | join kind target condition => do
    let j ← ExplicitJoin.of kind target condition
    return { p with joins := p.joins ++ [j] }

/-- The expression that the call adds. -/
def expression? : BuilderCall ι → Option (Expression ι)
  | annotate _ e | filter e => some e
  | filterBy key value => some (.ofKey key [value])
  | exclude e => some e.negate
  | _ => none

theorem apply_eq_step (c : BuilderCall ι) (p : Plan ι) :
    c.apply schema p = p.step (c.attempt schema p) := by
  cases c <;> rfl

/-- A call that fails changes nothing but the mistake, and that only if there was none. -/
theorem apply_of_failed {c : BuilderCall ι} {p : Plan ι} {e : Error}
    (h : c.attempt schema p = .error e) :
    c.apply schema p = { p with error := some (p.error.getD e) } := by
  rw [apply_eq_step, h]
  obtain ⟨model, select, annotations, filters, orderBy, limit, offset, distinct, joins, save, error⟩ := p
  cases error <;> rfl

/-- A call that succeeds makes no mistake and takes none away. -/
theorem error_of_attempt {c : BuilderCall ι} {p q : Plan ι} (h : c.attempt schema p = .ok q) :
    q.error = p.error := by
  cases c with
  | limit | offset | distinct | explicitSave =>
    cases h
    rfl
  | _ =>
    simp only [attempt, bind_eq_ok, pure_eq_ok] at h
    obtain ⟨_, _, rfl⟩ := h
    rfl

theorem checkExpression_of_defect {p : Plan ι} {e : Expression ι} {why : Error} {rest : List Error}
    (h : e.defects = why :: rest) : p.checkExpression schema e = .error why := by
  rw [Plan.checkExpression, e.check_eq, h]
  rfl

/-- A call with an expression fails by the first defect of that. -/
theorem attempt_of_defect {c : BuilderCall ι} {e : Expression ι} (hc : c.expression? = some e)
    {why : Error} {rest : List Error} (h : e.defects = why :: rest) (p : Plan ι) :
    c.attempt schema p = .error why := by
  cases c with
  | annotate | filter | filterBy | exclude =>
    cases hc
    rw [attempt, checkExpression_of_defect h]
    rfl
  | _ => cases hc

/-! ## Sequences of calls -/

def applyAll (schema : Schema ι) (p : Plan ι) (calls : List (BuilderCall ι)) : Plan ι :=
  calls.foldl (fun p c => c.apply schema p) p

/-- The mistake of the first call that fails. -/
def firstFailure (schema : Schema ι) : Plan ι → List (BuilderCall ι) → Option Error
  | _, [] => none
  | p, c :: rest =>
    match c.attempt schema p with
    | .error e => some e
    | .ok next => firstFailure schema next rest

/-- A mistake stays, whatever is called after it. -/
theorem error_applyAll_of_some {p : Plan ι} {e : Error} (h : p.error = some e)
    (calls : List (BuilderCall ι)) : (applyAll schema p calls).error = some e := by
  induction calls generalizing p with
  | nil => exact h
  | cons c calls ih =>
    refine ih (p := c.apply schema p) ?_
    cases hc : c.attempt schema p with
    | error _ => rw [apply_of_failed hc, h, Option.getD_some]
    | ok next => rw [apply_eq_step, hc, Plan.step, error_of_attempt hc, h]

theorem error_applyAll {p : Plan ι} (h : p.error = none) (calls : List (BuilderCall ι)) :
    (applyAll schema p calls).error = firstFailure schema p calls := by
  induction calls generalizing p with
  | nil => exact h
  | cons c calls ih =>
    change (applyAll schema (c.apply schema p) calls).error = _
    rw [firstFailure]
    cases hc : c.attempt schema p with
    | error e =>
      rw [apply_of_failed hc, h]
      exact error_applyAll_of_some rfl calls
    | ok next =>
      rw [apply_eq_step, hc]
      exact ih ((error_of_attempt hc).trans h)

/-- Several predicates at once are one call for each. -/
theorem filterAll_eq (p : Plan ι) (es : List (Expression ι)) :
    p.filterAll schema es = applyAll schema p (es.map filter) := by
  rw [applyAll, List.foldl_map]
  rfl

end BuilderCall

end Orm
