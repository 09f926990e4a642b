import Orm.Proofs.Building
import Orm.Proofs.Predicate.Verdict
import Orm.Sample

/-
Building predicates is Boolean algebra.

What an expression comes to is found from what its comparisons, templates and nested queries come to
(`Expression.truth`), in a logic of three values. Operators flatten: a plain group gives its children
to a group of the same connector, and a group is negated by its flag. `truth_operands` says that
flattening loses nothing, and the laws of the operators follow.

Calls that narrow a query add their predicates to its filters. By induction over the calls the filters
are those that were there and then those that were added, in order, so their conjunction is that of
the predicates that were given.
-/

namespace Orm

variable {ι : Type} {schema : Schema ι}

/-! ## Expressions -/

theorem Truth.negated_not (negated : Bool) (t : Truth) :
    Truth.negated (!negated) t = (Truth.negated negated t).negate := by
  cases negated <;> cases t <;> rfl

/-- The connector of two, by which a longer list of truths is combined. -/
def Connector.two : Connector → Truth → Truth → Truth
  | .all => .both
  | .any => .either

theorem Connector.combine_append (connector : Connector) (ts us : List Truth) :
    connector.combine (ts ++ us) = connector.two (connector.combine ts) (connector.combine us) := by
  cases connector with
  | all => exact Truth.all_append ts us
  | any => exact Truth.any_append ts us

theorem Connector.combine_singleton (connector : Connector) (t : Truth) :
    connector.combine [t] = t := by
  cases connector with
  | all => exact Truth.both_yes t
  | any => exact Truth.either_no t

namespace Expression

mutual
/-- What an expression comes to when what is no group comes to `ρ`. -/
def truth (ρ : Expression ι → Truth) : Expression ι → Truth
  | .group connector negated children => .negated negated (connector.combine (truths ρ children))
  | .leaf l => ρ (.leaf l)
  | .raw t => ρ (.raw t)
  | .func t => ρ (.func t)
  | .subquery use lhs column plan => ρ (.subquery use lhs column plan)

def truths (ρ : Expression ι → Truth) : List (Expression ι) → List Truth
  | [] => []
  | e :: rest => truth ρ e :: truths ρ rest
end

variable (ρ : Expression ι → Truth)

theorem truths_eq_map (es : List (Expression ι)) : truths ρ es = es.map (truth ρ) := by
  induction es with
  | nil => rfl
  | cons e es ih => rw [truths, ih, List.map_cons]

theorem truth_group (connector : Connector) (negated : Bool) (children : List (Expression ι)) :
    truth ρ (.group connector negated children) =
      .negated negated (connector.combine (children.map (truth ρ))) := by
  rw [truth, truths_eq_map]

/-- An operand comes to the same whether it is taken as it is or as the children that it gives. -/
theorem truth_operands (connector : Connector) (e : Expression ι) :
    connector.combine ((operands connector e).map (truth ρ)) = truth ρ e := by
  have alone : connector.combine ([e].map (truth ρ)) = truth ρ e :=
    Connector.combine_singleton connector (truth ρ e)
  cases e with
  | group c negated children =>
    cases negated with
    | true => exact alone
    | false =>
      rw [operands]
      split
      · next h =>
        subst h
        rw [truth_group]
        rfl
      · exact alone
  | _ => exact alone

theorem truth_combine (connector : Connector) (a b : Expression ι) :
    truth ρ (combine connector a b) = connector.two (truth ρ a) (truth ρ b) := by
  calc truth ρ (combine connector a b)
      = connector.combine ((operands connector a ++ operands connector b).map (truth ρ)) :=
        truth_group ρ connector false _
    _ = connector.two (connector.combine ((operands connector a).map (truth ρ)))
          (connector.combine ((operands connector b).map (truth ρ))) := by
        rw [List.map_append, Connector.combine_append]
    _ = connector.two (truth ρ a) (truth ρ b) := by
        rw [truth_operands, truth_operands]

theorem truth_negate (e : Expression ι) : truth ρ e.negate = (truth ρ e).negate := by
  cases e with
  | group connector negated children => rw [negate, truth_group, truth_group, Truth.negated_not]
  | _ => exact (truth_group ρ .all true [_]).trans (congrArg Truth.negate (Truth.both_yes _))

end Expression

/-! ## Filters -/

namespace BuilderCall

/-- The predicates that a call adds. -/
def predicates : BuilderCall ι → List (Expression ι)
  | filter e => [e]
  | filterBy key value => [.ofKey key [value]]
  | exclude e => [e.negate]
  | _ => []

theorem filters_of_attempt {c : BuilderCall ι} {p q : Plan ι} (h : c.attempt schema p = .ok q) :
    q.filters = p.filters ++ c.predicates := by
  cases c with
  | limit | offset | distinct | explicitSave =>
    cases h
    exact (List.append_nil _).symm
  | filter | filterBy | exclude =>
    simp only [attempt, bind_eq_ok, pure_eq_ok] at h
    obtain ⟨_, _, rfl⟩ := h
    rfl
  | _ =>
    simp only [attempt, bind_eq_ok, pure_eq_ok] at h
    obtain ⟨_, _, rfl⟩ := h
    exact (List.append_nil _).symm

/-- If no mistake was made, every call has added its predicates. -/
theorem filters_applyAll {p : Plan ι} {calls : List (BuilderCall ι)}
    (h : (applyAll schema p calls).error = none) :
    (applyAll schema p calls).filters = p.filters ++ calls.flatMap predicates := by
  induction calls generalizing p with
  | nil => exact (List.append_nil _).symm
  | cons c calls ih =>
    change (applyAll schema (c.apply schema p) calls).error = none at h
    change (applyAll schema (c.apply schema p) calls).filters = _
    rw [ih h]
    cases hc : c.attempt schema p with
    | ok q =>
      rw [apply_eq_step, hc, Plan.step, filters_of_attempt hc, List.append_assoc,
        List.flatMap_cons]
    | error e =>
      -- the mistake of this call would have stayed
      have stays : (applyAll schema (c.apply schema p) calls).error = some (p.error.getD e) :=
        error_applyAll_of_some (by rw [apply_of_failed hc]) calls
      rw [h] at stays
      cases stays

end BuilderCall

/-- A call that narrows a query down. -/
inductive Narrowing (ι : Type) where
  | filter (e : Expression ι)
  | filterBy (key : String) (value : Value)
  | filterAll (es : List (Expression ι))
  | exclude (e : Expression ι)

namespace Narrowing

def apply (schema : Schema ι) (p : Plan ι) : Narrowing ι → Plan ι
  | filter e => p.filter schema e
  | filterBy key value => p.filterBy schema key value
  | filterAll es => p.filterAll schema es
  | exclude e => p.exclude schema e

def applyAll (schema : Schema ι) (p : Plan ι) (calls : List (Narrowing ι)) : Plan ι :=
  calls.foldl (fun p c => c.apply schema p) p

/-- What the predicates that a call is given come to; of one that is excluded, the negation. -/
def truths (ρ : Expression ι → Truth) : Narrowing ι → List Truth
  | filter e => [e.truth ρ]
  | filterBy key value => [(Expression.ofKey key [value]).truth ρ]
  | filterAll es => es.map (·.truth ρ)
  | exclude e => [(e.truth ρ).negate]

/-- The call as calls that add one predicate each. -/
def steps : Narrowing ι → List (BuilderCall ι)
  | filter e => [.filter e]
  | filterBy key value => [.filterBy key value]
  | filterAll es => es.map .filter
  | exclude e => [.exclude e]

theorem apply_eq (c : Narrowing ι) (p : Plan ι) :
    c.apply schema p = BuilderCall.applyAll schema p c.steps := by
  cases c with
  | filterAll es => exact BuilderCall.filterAll_eq p es
  | _ => rfl

theorem applyAll_eq (calls : List (Narrowing ι)) (p : Plan ι) :
    applyAll schema p calls = BuilderCall.applyAll schema p (calls.flatMap steps) := by
  induction calls generalizing p with
  | nil => rfl
  | cons c calls ih =>
    change applyAll schema (c.apply schema p) calls = _
    rw [ih, apply_eq, List.flatMap_cons, BuilderCall.applyAll, BuilderCall.applyAll,
      BuilderCall.applyAll, List.foldl_append]

theorem truths_steps (ρ : Expression ι → Truth) (c : Narrowing ι) :
    (c.steps.flatMap BuilderCall.predicates).map (·.truth ρ) = c.truths ρ := by
  cases c with
  | filterAll es =>
    rw [steps, List.flatMap_map]
    exact congrArg (List.map _) (List.flatMap_singleton' es)
  | exclude e => exact congrArg (fun t => [t]) (Expression.truth_negate ρ e)
  | _ => rfl

theorem truths_filters (ρ : Expression ι → Truth) {p : Plan ι} {calls : List (Narrowing ι)}
    (h : (applyAll schema p calls).error = none) :
    (applyAll schema p calls).filters.map (·.truth ρ) =
      p.filters.map (·.truth ρ) ++ calls.flatMap (truths ρ) := by
  rw [applyAll_eq] at h ⊢
  rw [BuilderCall.filters_applyAll h, List.map_append, List.flatMap_assoc, List.map_flatMap]
  simp only [truths_steps]

end Narrowing

theorem Plan.predicate?_eq_none {p : Plan ι} : p.predicate? = none ↔ p.filters = [] := by
  rw [Plan.predicate?]
  split <;> simp_all

/-- The one predicate of a plan comes to the conjunction of its filters. -/
theorem Plan.truth_predicate? (ρ : Expression ι → Truth) {p : Plan ι} {e : Expression ι}
    (h : p.predicate? = some e) : e.truth ρ = Truth.all (p.filters.map (·.truth ρ)) := by
  rw [Plan.predicate?] at h
  split at h
  · cases h
  · next hf =>
    cases h
    rw [hf]
    exact (Truth.both_yes _).symm
  · cases h
    exact Expression.truth_group ρ .all false _

/-- The operators come to the conjunction, the disjunction and the negation of what their operands
come to. After calls that narrow a query down and make no mistake, its filters and its predicate come
to the conjunction of what was there and what the calls were given, with the excluded negated; it has
no predicate only if there was none and none was given. -/
theorem operators_are_boolean (schema : Schema ι) (ρ : Expression ι → Truth) :
    (∀ a b : Expression ι, (a.both b).truth ρ = (a.truth ρ).both (b.truth ρ)) ∧
    (∀ a b : Expression ι, (a.either b).truth ρ = (a.truth ρ).either (b.truth ρ)) ∧
    (∀ a : Expression ι, a.negate.truth ρ = (a.truth ρ).negate) ∧
    ∀ (p : Plan ι) (calls : List (Narrowing ι)),
      (Narrowing.applyAll schema p calls).error = none →
      let q := Narrowing.applyAll schema p calls
      let given := Truth.all (p.filters.map (·.truth ρ) ++ calls.flatMap (·.truths ρ))
      Truth.all (q.filters.map (·.truth ρ)) = given ∧
      (∀ e, q.predicate? = some e → e.truth ρ = given) ∧
      (q.predicate? = none ↔ p.filters = [] ∧ calls.flatMap (·.truths ρ) = []) := by
  refine ⟨Expression.truth_combine ρ .all, Expression.truth_combine ρ .any,
    Expression.truth_negate ρ, fun p calls h => ?_⟩
  have hq := Narrowing.truths_filters ρ h
  refine ⟨congrArg Truth.all hq, fun e he => ?_, ?_⟩
  · exact (Plan.truth_predicate? ρ he).trans (congrArg Truth.all hq)
  · rw [Plan.predicate?_eq_none, ← List.map_eq_nil_iff (f := (·.truth ρ)), hq,
      List.append_eq_nil_iff, List.map_eq_nil_iff]

/-- Todos that are not done or have no user, without those whose title is empty. -/
def unfinishedTodos : List (Narrowing Sample) :=
  [.filterAll [.either (.compare "done" .exact [.bool false])
      (.group .any true [.ofKey "user__isnull" [.bool false]])],
   .exclude (.compare "title" .exact [.string ""])]

/-- A row that has a user and a title, and in which nothing says whether the todo is done. -/
def undecided : Expression Sample → Truth
  | .leaf l => if l.path = "done" then .unknown else if l.path = "user" then .yes else .no
  | _ => .no

theorem unfinishedTodos_undecided :
    let q := Narrowing.applyAll Sample.schema { model := .todo } unfinishedTodos
    q.error = none ∧ Truth.all (q.filters.map (·.truth undecided)) = .unknown ∧
      ∃ e, q.predicate? = some e ∧ e.truth undecided = .unknown := by
  intro q
  have noMistake : q.error = none := rfl
  obtain ⟨-, -, -, narrowed⟩ := operators_are_boolean Sample.schema undecided
  obtain ⟨filters, predicate, -⟩ := narrowed { model := .todo } unfinishedTodos noMistake
  exact ⟨noMistake, filters, _, rfl, predicate _ rfl⟩

end Orm
