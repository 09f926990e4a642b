import Orm.Proofs.Outcome
import Orm.Proofs.Path
import Orm.Scope

/-
The steps of which resolving consists, as runs over the tables in scope.
-/

namespace Orm

variable {ι α : Type} {schema : Schema ι}

theorem outcome_naming (n : Naming α) (s : Scope) :
    outcome (Resolving.naming n) s =
      ((outcome n s.aliases).1, { s with aliases := (outcome n s.aliases).2 }) := rfl

theorem outcome_orElse (r : Resolving α) (fallback : α) (s : Scope) :
    outcome (r.orElse fallback) s =
      match outcome r s with
      | (.ok a, t) => (.ok a, t)
      | (.error _, t) => (.ok fallback, t) := rfl

theorem outcome_tableAlias (parentAlias parentTable relation target : String) (a : Aliases) :
    outcome (Naming.tableAlias parentAlias parentTable relation target) a =
      (.ok (a.tableAlias parentAlias parentTable relation target).1,
        (a.tableAlias parentAlias parentTable relation target).2) := rfl

theorem Keeps.ofResult {I : Scope → Prop} {Q : α → Prop} {r : Result α} (h : ∀ a, r = .ok a → Q a) :
    Keeps I (Resolving.ofResult r) Q :=
  Keeps.of_result h

theorem Keeps.naming {I : Aliases → Prop} {J : Scope → Prop} {n : Naming α} {Q : α → Prop}
    (h : Keeps I n Q) (hi : ∀ s, J s → I s.aliases)
    (hj : ∀ s a, J s → I a → J { s with aliases := a }) : Keeps J (Resolving.naming n) Q := by
  intro s hs
  rw [outcome_naming]
  obtain ⟨ha, hq⟩ := h s.aliases (hi s hs)
  exact ⟨hj s _ hs ha, hq⟩

theorem Keeps.orElse {I : Scope → Prop} {r : Resolving α} {Q : α → Prop} {fallback : α}
    (h : Keeps I r Q) (hf : Q fallback) : Keeps I (r.orElse fallback) Q := by
  intro s hs
  have hr := h s hs
  rw [outcome_orElse]
  rcases ho : outcome r s with ⟨r', t⟩
  rw [ho] at hr
  cases r' with
  | ok a => exact hr
  | error e =>
    refine ⟨hr.1, fun a ha => ?_⟩
    simp only [Except.ok.injEq] at ha
    exact ha ▸ hf

theorem joinOperator?_mem {op op' : String} (h : joinOperator? op = some op') :
    op' ∈ joinOperators := by
  unfold joinOperator? at h
  dsimp only at h
  split at h
  · rename_i hc
    simp only [Option.some.injEq] at h
    simpa only [h, List.contains_eq_mem, decide_eq_true_eq] using hc
  · simp only [reduceCtorEq] at h

theorem targetOf_eq_ok {m t : ι} {f : FieldDef ι} (h : targetOf schema m f = .ok t) :
    ∃ r, f.relation = some r ∧ r.target = t := by
  unfold targetOf at h
  split at h
  · rename_i r hr
    cases h
    exact ⟨r, hr, rfl⟩
  · cases h

/-- A field without a column is a relation. -/
theorem FieldDef.relation_of_not_hasColumn {f : FieldDef ι} (h : f.hasColumn = false) :
    ∃ r, f.relation = some r ∧ r.ownsColumn = false := by
  unfold FieldDef.hasColumn at h
  split at h
  · rename_i r hr
    exact ⟨r, hr, h⟩
  · cases h

theorem joinedRelation?_eq_some {root : ι} {target : String} {w : Walk ι} {f : FieldDef ι}
    (h : joinedRelation? schema root target = some (w, f)) :
    walk schema root target = .ok w ∧ w.field = some f ∧ f.isRelation = true := by
  unfold joinedRelation? at h
  split at h
  · rename_i w' hw
    simp only [Option.map_eq_some_iff, Option.filter_eq_some_iff, Prod.mk.injEq] at h
    obtain ⟨f', ⟨hf, hr⟩, rfl, rfl⟩ := h
    exact ⟨hw, hf, hr⟩
  · cases h

/-! ## Explicit joins -/

def explicitCondition (schema : Schema ι) (root : ι) :
    Option JoinCondition → Resolving (Option OnCondition)
  | some c => some <$> resolveCondition schema root c
  | none => pure none

/-- A relation that is joined, with the alias it gets. -/
def followRelation (schema : Schema ι) (root : ι) (kind : JoinKind) (w : Walk ι)
    (field : FieldDef ι) : Resolving String := do
  let hops ← joinChain schema (schema root).table w.chain kind
  joinRelation schema (hops.getLast?.getD (schema root).table) w.model field kind

def conditionOn (targetAlias : String) : Option OnCondition → Scope → Scope
  | some c, scope => { scope with joins := addCondition targetAlias c scope.joins }
  | none, scope => scope

def joinTable (j : ExplicitJoin) (condition : Option OnCondition) (scope : Scope) : Scope :=
  { scope with
    joins := scope.joins ++
      [⟨j.kind, j.target, j.target, if j.kind = .cross then [] else condition.toList⟩] }

def missingCondition (j : ExplicitJoin) : Error :=
  .unsupportedLookup (j.kind.sql ++ " on '" ++ j.target ++ "' needs a condition")

def joinTarget (schema : Schema ι) (root : ι) (j : ExplicitJoin) (condition : Option OnCondition) :
    Resolving Unit :=
  match joinedRelation? schema root j.target with
  | some (w, field) => do
    let targetAlias ← followRelation schema root j.kind w field
    modify (conditionOn targetAlias condition)
  | none =>
    if j.kind != .cross && condition.isNone then throw (missingCondition j)
    else modify (joinTable j condition)

/-- The condition of an explicit join is resolved first, then its target comes into scope. -/
theorem addExplicit_eq (root : ι) (j : ExplicitJoin) : addExplicit schema root j =
    explicitCondition schema root j.condition >>= joinTarget schema root j := by
  unfold addExplicit joinTarget explicitCondition followRelation
  dsimp only
  rcases joinedRelation? schema root j.target with _ | ⟨w, field⟩
  · cases j.condition
    all_goals
      refine bind_congr fun condition => ?_
      dsimp only
      split <;> rfl
  · cases j.condition
    all_goals
      refine bind_congr fun condition => ?_
      dsimp only
      rw [bind_assoc]
      cases condition <;> rfl

end Orm
