import Orm.Expression.Columns
import Orm.Proofs.Outcome
import Orm.Sample

/-
What resolving leaves. It gives a column to every path that has none, and changes nothing else
(`resolveIn_bound`); an expression of which every path has its column is left as it is, whatever is in scope
and whatever the root (`resolveIn_self`). So to resolve twice is to resolve once.
-/

namespace Orm

variable {ι : Type} {schema : Schema ι} {root : ι}

open Expression (check checkAll isResolved allResolved resolveIn resolveAll)

/-! ## Bound columns -/

/-- What is there in the end is what was there at first, if anything was. -/
def Supplied {α : Type} (before : Option α) (after : α) : Prop := ∀ a, before = some a → after = a

theorem Supplied.of_none {α : Type} (a : α) : Supplied none a := nofun

theorem Supplied.of_some {α : Type} (a : α) : Supplied (some a) a := fun _ h => Option.some.inj h

mutual
/-- The second expression is the first with a column for each path; columns that were there have stayed. -/
inductive Expression.Bound : Expression ι → Expression ι → Prop
  | leaf {l : Leaf} {column : Column} (h : Supplied l.column column) :
    Expression.Bound (.leaf l) (.leaf { l with column := some column })
  | raw {t : Template} {columns : List Column} (h : Supplied t.columns columns) :
    Expression.Bound (.raw t) (.raw { t with columns := some columns })
  | func {t : Template} {columns : List Column} (h : Supplied t.columns columns) :
    Expression.Bound (.func t) (.func { t with columns := some columns })
  | group {connector : Connector} {negated : Bool} {es rs : List (Expression ι)}
    (h : Expression.BoundAll es rs) :
    Expression.Bound (.group connector negated es) (.group connector negated rs)
  | subquery {use : SubqueryUse} {column : Option Column} {plan : Plan ι} :
    Expression.Bound (.subquery use none column plan) (.subquery use none column plan)
  | member {use : SubqueryUse} {path : String} {before : Option Column} {column : Column}
    {plan : Plan ι} (h : Supplied before column) :
    Expression.Bound (.subquery use (some path) before plan)
      (.subquery use (some path) (some column) plan)

inductive Expression.BoundAll : List (Expression ι) → List (Expression ι) → Prop
  | nil : Expression.BoundAll [] []
  | cons {e r : Expression ι} {es rs : List (Expression ι)} (h : Expression.Bound e r)
    (hs : Expression.BoundAll es rs) : Expression.BoundAll (e :: es) (r :: rs)
end

namespace Expression

mutual
theorem Bound.isResolved : ∀ {e r : Expression ι}, Bound e r → r.isResolved = true
  | _, _, .leaf _ => rfl
  | _, _, .raw _ => rfl
  | _, _, .func _ => rfl
  | _, _, .group h => by rw [Expression.isResolved, BoundAll.allResolved h]
  | _, _, .subquery => rfl
  | _, _, .member _ => rfl

theorem BoundAll.allResolved : ∀ {es rs : List (Expression ι)}, BoundAll es rs →
    allResolved rs = true
  | _, _, .nil => rfl
  | _, _, .cons h hs => by
    rw [Expression.allResolved, Bound.isResolved h, BoundAll.allResolved hs]
    rfl
end

mutual
/-- The mistakes made in building an expression are no matter of its columns. -/
theorem Bound.check_eq : ∀ {e r : Expression ι}, Bound e r → r.check = e.check
  | _, _, .leaf _ => by rw [check, check]
  | _, _, .raw _ => by rw [check, check]
  | _, _, .func _ => by rw [check, check]
  | _, _, .group h => by rw [check, check, BoundAll.check_eq h]
  | _, _, .subquery => rfl
  | _, _, .member _ => by rw [check, check]

theorem BoundAll.check_eq : ∀ {es rs : List (Expression ι)}, BoundAll es rs →
    checkAll rs = checkAll es
  | _, _, .nil => rfl
  | _, _, .cons h hs => by rw [checkAll, checkAll, Bound.check_eq h, BoundAll.check_eq hs]
end

/-! ## The first time -/

theorem Template.resolve_bound {t u : Template} {s s' : Scope}
    (h : Yields (Template.resolve schema root t) s u s') :
    ∃ columns, Supplied t.columns columns ∧ u = { t with columns := some columns } := by
  unfold Template.resolve at h
  split at h
  case isTrue hbound =>
    obtain ⟨columns, hcolumns⟩ := Option.isSome_iff_exists.1 hbound
    obtain ⟨rfl, -⟩ := Yields.pure_iff.1 h
    exact ⟨columns, hcolumns ▸ .of_some columns, by rw [← hcolumns]⟩
  case isFalse hunbound =>
    obtain ⟨columns, _, -, h⟩ := Yields.bind_iff.1 h
    obtain ⟨rfl, -⟩ := Yields.pure_iff.1 h
    exact ⟨columns, Option.not_isSome_iff_eq_none.1 hunbound ▸ .of_none columns, rfl⟩

mutual
theorem resolveIn_bound : ∀ (e : Expression ι) {top : Bool} {r : Expression ι} {s s' : Scope},
    Yields (resolveIn schema root top e) s r s' → e.check = .ok () ∧ e.Bound r
  | .leaf l, top, r, s, s', h => by
    rw [resolveIn] at h
    obtain ⟨_, _, hcheck, h⟩ := Yields.bind_iff.1 h
    refine ⟨(Yields.mk_pure_iff.1 hcheck).1, ?_⟩
    split at h
    case isTrue hbound =>
      obtain ⟨column, hcolumn⟩ := Option.isSome_iff_exists.1 hbound
      obtain ⟨rfl, -⟩ := Yields.pure_iff.1 h
      have hl : l = { l with column := some column } := by rw [← hcolumn]
      exact hl ▸ .leaf (hcolumn ▸ .of_some column)
    case isFalse hunbound =>
      obtain ⟨column, _, -, h⟩ := Yields.bind_iff.1 h
      obtain ⟨rfl, -⟩ := Yields.pure_iff.1 h
      exact .leaf (Option.not_isSome_iff_eq_none.1 hunbound ▸ .of_none column)
  | .raw t, top, r, s, s', h => by
    rw [resolveIn] at h
    obtain ⟨u, _, ht, h⟩ := Yields.bind_iff.1 h
    obtain ⟨rfl, -⟩ := Yields.pure_iff.1 h
    obtain ⟨columns, hcolumns, rfl⟩ := Template.resolve_bound ht
    exact ⟨rfl, .raw hcolumns⟩
  | .func t, top, r, s, s', h => by
    rw [resolveIn] at h
    obtain ⟨u, _, ht, h⟩ := Yields.bind_iff.1 h
    obtain ⟨rfl, -⟩ := Yields.pure_iff.1 h
    obtain ⟨columns, hcolumns, rfl⟩ := Template.resolve_bound ht
    exact ⟨rfl, .func hcolumns⟩
  | .group connector negated es, top, r, s, s', h => by
    rw [resolveIn] at h
    obtain ⟨_, _, hcheck, h⟩ := Yields.bind_iff.1 h
    obtain ⟨rs, _, hrs, h⟩ := Yields.bind_iff.1 h
    obtain ⟨rfl, -⟩ := Yields.pure_iff.1 h
    exact ⟨(Yields.mk_pure_iff.1 hcheck).1, .group (resolveAll_bound es hrs)⟩
  | .subquery use lhs column plan, top, r, s, s', h => by
    unfold resolveIn at h
    obtain ⟨_, _, hcheck, h⟩ := Yields.bind_iff.1 h
    refine ⟨(Yields.mk_pure_iff.1 hcheck).1, ?_⟩
    split at h
    next =>
      obtain ⟨column, _, -, h⟩ := Yields.bind_iff.1 h
      obtain ⟨rfl, -⟩ := Yields.pure_iff.1 h
      exact .member (.of_none column)
    next hbound =>
      obtain ⟨rfl, -⟩ := Yields.pure_iff.1 h
      cases lhs with
      | none => exact .subquery
      | some path =>
        cases column with
        | none => exact absurd rfl (hbound path rfl)
        | some column => exact .member (.of_some column)

theorem resolveAll_bound : ∀ (es : List (Expression ι)) {top : Bool} {rs : List (Expression ι)}
    {s s' : Scope}, Yields (resolveAll schema root top es) s rs s' → BoundAll es rs
  | [], top, rs, s, s', h => by
    rw [resolveAll] at h
    obtain ⟨rfl, -⟩ := Yields.pure_iff.1 h
    exact .nil
  | e :: es, top, rs, s, s', h => by
    rw [resolveAll] at h
    obtain ⟨r, _, hr, h⟩ := Yields.bind_iff.1 h
    obtain ⟨rest, _, hrest, h⟩ := Yields.bind_iff.1 h
    obtain ⟨rfl, -⟩ := Yields.pure_iff.1 h
    exact .cons (resolveIn_bound e hr).2 (resolveAll_bound es hrest)
end

/-! ## Any other time -/

theorem Template.resolve_self {t : Template} (h : t.columns.isSome = true) (s : Scope) :
    Yields (Template.resolve schema root t) s t s := by
  unfold Template.resolve
  rw [if_pos h]
  exact Yields.pure_iff.2 ⟨rfl, rfl⟩

mutual
theorem resolveIn_self : ∀ {e : Expression ι}, e.isResolved = true → e.check = .ok () →
    ∀ (top : Bool) (s : Scope), Yields (resolveIn schema root top e) s e s
  | .leaf l, h, hcheck, top, s => by
    rw [resolveIn]
    refine Yields.bind_iff.2 ⟨(), s, Yields.mk_pure_iff.2 ⟨hcheck, rfl⟩, ?_⟩
    rw [isResolved] at h
    rw [if_pos h]
    exact Yields.pure_iff.2 ⟨rfl, rfl⟩
  | .raw t, h, _, top, s => by
    rw [resolveIn]
    rw [isResolved] at h
    exact Yields.bind_iff.2 ⟨t, s, Template.resolve_self h s, Yields.pure_iff.2 ⟨rfl, rfl⟩⟩
  | .func t, h, _, top, s => by
    rw [resolveIn]
    rw [isResolved] at h
    exact Yields.bind_iff.2 ⟨t, s, Template.resolve_self h s, Yields.pure_iff.2 ⟨rfl, rfl⟩⟩
  | .group connector negated es, h, hcheck, top, s => by
    rw [resolveIn]
    rw [isResolved] at h
    rw [check] at hcheck
    refine Yields.bind_iff.2 ⟨(), s, Yields.mk_pure_iff.2 ⟨hcheck, rfl⟩, ?_⟩
    exact Yields.bind_iff.2 ⟨es, s, resolveAll_self h hcheck _ s, Yields.pure_iff.2 ⟨rfl, rfl⟩⟩
  | .subquery use lhs column plan, h, hcheck, top, s => by
    unfold resolveIn
    rw [check] at hcheck
    refine Yields.bind_iff.2 ⟨(), s, Yields.mk_pure_iff.2 ⟨hcheck, rfl⟩, ?_⟩
    -- only a path without a column would be resolved
    split
    next => cases h
    next => exact Yields.pure_iff.2 ⟨rfl, rfl⟩

theorem resolveAll_self : ∀ {es : List (Expression ι)}, allResolved es = true →
    checkAll es = .ok () → ∀ (top : Bool) (s : Scope), Yields (resolveAll schema root top es) s es s
  | [], _, _, top, s => by
    rw [resolveAll]
    exact Yields.pure_iff.2 ⟨rfl, rfl⟩
  | e :: es, h, hcheck, top, s => by
    rw [allResolved, Bool.and_eq_true] at h
    rw [checkAll] at hcheck
    obtain ⟨_, he, hes⟩ := bind_eq_ok.1 hcheck
    rw [resolveAll]
    refine Yields.bind_iff.2 ⟨e, s, resolveIn_self h.1 he top s, ?_⟩
    exact Yields.bind_iff.2 ⟨es, s, resolveAll_self h.2 hes top s, Yields.pure_iff.2 ⟨rfl, rfl⟩⟩
end

/-- Resolving gives every path its column and changes nothing else. What it has given is never resolved
again: from any root, with any tables in scope, it comes back as it is, and so does the scope. A column is
kept as names, so that no dialect has a part in this. -/
theorem resolve_idempotent (schema : Schema ι) (root : ι) {e r : Expression ι} {scope scope' : Scope}
    (h : outcome (e.resolve schema root) scope = (.ok r, scope')) :
    r.isResolved = true ∧ e.Bound r ∧
    ∀ (schema' : Schema ι) (root' : ι) (other : Scope),
      outcome (r.resolve schema' root') other = (.ok r, other) := by
  obtain ⟨hcheck, hbound⟩ := resolveIn_bound e h
  refine ⟨hbound.isResolved, hbound, fun schema' root' other => ?_⟩
  exact resolveIn_self hbound.isResolved (hbound.check_eq.trans hcheck) true other

/-- One node of each kind, with a template that is a function inside the group that is negated. -/
def annsTodos : Expression Sample :=
  .all [.compare "user.name" .exact [.string "ann"], .raw ⟨"%s > ?", ["id"], [.int 3], none⟩,
    .group .any true [.func ⟨"LENGTH(%s)", ["title"], [], none⟩, .nested .exists { model := .note }],
    .memberOf "tags" { model := .tag }]

/-- Resolving joins the owners and the tags; from another root it joins nothing any more. -/
theorem annsTodos_resolveOnce : ∃ r scope,
    outcome (annsTodos.resolve Sample.schema .todo) {} = (.ok r, scope) ∧
    scope.joins.map (·.table) = ["users", "todos_tags", "tags"] ∧
    annsTodos.isResolved = false ∧ r.isResolved = true ∧
    outcome (r.resolve Sample.schema .country) {} = (.ok r, {}) := by
  obtain ⟨r, scope, hrun, hjoins⟩ : ∃ r scope,
      outcome (annsTodos.resolve Sample.schema .todo) {} = (.ok r, scope) ∧
      scope.joins.map (·.table) = ["users", "todos_tags", "tags"] := ⟨_, _, rfl, rfl⟩
  obtain ⟨hresolved, -, again⟩ := resolve_idempotent Sample.schema .todo hrun
  exact ⟨r, scope, hrun, hjoins, rfl, hresolved, again Sample.schema .country {}⟩

end Expression

end Orm
