import Mathlib.Data.List.Forall2
import Orm.Proofs.Paired
import Orm.Proofs.Resolving
import Orm.Expression.Columns

/-
Queries that differ in nothing but their values. A `Likeness` says which values may stand in place of
which; `Plan.Like` carries it through groups, computed columns and nested queries. Resolving does not
look at values beyond that: two expressions that are alike bring the same tables into scope and stay
alike.
-/

namespace Orm

variable {ι : Type}

/-- Which values may stand in place of which: those of a comparison and those of a template. -/
structure Likeness where
  compared : Lookup → List Value → List Value → Prop
  filled : List Value → List Value → Prop

structure Leaf.Like (L : Likeness) (a b : Leaf) : Prop where
  path : b.path = a.path
  lookup : b.lookup = a.lookup
  unsupported : b.unsupported = a.unsupported
  column : b.column = a.column
  values : L.compared a.lookup a.values b.values

structure Template.Like (L : Likeness) (a b : Template) : Prop where
  text : b.text = a.text
  fields : b.fields = a.fields
  columns : b.columns = a.columns
  params : L.filled a.params b.params

mutual
inductive Expression.Like (L : Likeness) : Expression ι → Expression ι → Prop
  | leaf {a b : Leaf} (h : Leaf.Like L a b) : Expression.Like L (.leaf a) (.leaf b)
  | raw {a b : Template} (h : Template.Like L a b) : Expression.Like L (.raw a) (.raw b)
  | func {a b : Template} (h : Template.Like L a b) : Expression.Like L (.func a) (.func b)
  | group {c : Connector} {negated : Bool} {xs ys : List (Expression ι)}
    (h : Expression.LikeAll L xs ys) :
    Expression.Like L (.group c negated xs) (.group c negated ys)
  | subquery {use : SubqueryUse} {lhs : Option String} {column : Option Column} {p q : Plan ι}
    (h : Plan.Like L p q) :
    Expression.Like L (.subquery use lhs column p) (.subquery use lhs column q)

inductive Expression.LikeAll (L : Likeness) : List (Expression ι) → List (Expression ι) → Prop
  | nil : Expression.LikeAll L [] []
  | cons {a b : Expression ι} {as bs : List (Expression ι)} (h : Expression.Like L a b)
    (hs : Expression.LikeAll L as bs) : Expression.LikeAll L (a :: as) (b :: bs)

inductive Expression.LikeNamed (L : Likeness) :
    List (String × Expression ι) → List (String × Expression ι) → Prop
  | nil : Expression.LikeNamed L [] []
  | cons {name : String} {a b : Expression ι} {as bs : List (String × Expression ι)}
    (h : Expression.Like L a b) (hs : Expression.LikeNamed L as bs) :
    Expression.LikeNamed L ((name, a) :: as) ((name, b) :: bs)

/-- The second is the first with other values in its computed columns and predicates. -/
inductive Plan.Like (L : Likeness) : Plan ι → Plan ι → Prop
  | mk {p : Plan ι} {annotations : List (String × Expression ι)} {filters : List (Expression ι)}
    (ha : Expression.LikeNamed L p.annotations annotations)
    (hf : Expression.LikeAll L p.filters filters) : Plan.Like L p { p with annotations, filters }
end

variable {L : Likeness}

open Expression (depth depthAll depthNamed planDepth)

theorem Expression.planDepth_eq (p : Plan ι) :
    planDepth p = max (depthNamed p.annotations) (depthAll p.filters) := by
  cases p
  rfl

mutual
theorem Expression.Like.depth_eq : ∀ {a b : Expression ι}, Expression.Like L a b →
    depth b = depth a
  | _, _, .leaf _ => rfl
  | _, _, .raw _ => rfl
  | _, _, .func _ => rfl
  | _, _, .group h => by rw [depth, depth, Expression.LikeAll.depth_eq h]
  | _, _, .subquery h => by rw [depth, depth, Plan.Like.depth_eq h]

theorem Expression.LikeAll.depth_eq : ∀ {as bs : List (Expression ι)}, Expression.LikeAll L as bs →
    depthAll bs = depthAll as
  | _, _, .nil => rfl
  | _, _, .cons h hs => by
    rw [depthAll, depthAll, Expression.Like.depth_eq h, Expression.LikeAll.depth_eq hs]

theorem Expression.LikeNamed.depth_eq : ∀ {as bs : List (String × Expression ι)},
    Expression.LikeNamed L as bs → depthNamed bs = depthNamed as
  | _, _, .nil => rfl
  | _, _, .cons h hs => by
    rw [depthNamed, depthNamed, Expression.Like.depth_eq h, Expression.LikeNamed.depth_eq hs]

theorem Plan.Like.depth_eq : ∀ {p q : Plan ι}, Plan.Like L p q → planDepth q = planDepth p
  | _, _, .mk ha hf => by
    rw [Expression.planDepth_eq, Expression.planDepth_eq, Expression.LikeNamed.depth_eq ha, Expression.LikeAll.depth_eq hf]
end

/-! ## What stays the same -/

theorem Plan.Like.check_eq {p q : Plan ι} (h : Plan.Like L p q) : q.check = p.check := by
  cases h
  rfl

theorem Plan.Like.model_eq {p q : Plan ι} (h : Plan.Like L p q) : q.model = p.model := by
  cases h
  rfl

theorem Plan.Like.select_eq {p q : Plan ι} (h : Plan.Like L p q) : q.select = p.select := by
  cases h
  rfl

theorem Plan.Like.filters_isEmpty {p q : Plan ι} (h : Plan.Like L p q) :
    q.filters.isEmpty = p.filters.isEmpty := by
  cases h with
  | @mk p annotations filters ha hf =>
    dsimp only
    generalize p.filters = fs at hf ⊢
    cases hf <;> rfl

/-! ## Equal queries -/

def Likeness.Reflexive (L : Likeness) : Prop :=
  (∀ l vs, L.compared l vs vs) ∧ ∀ vs, L.filled vs vs

theorem Template.Like.refl (hL : L.Reflexive) (t : Template) : Template.Like L t t :=
  ⟨rfl, rfl, rfl, hL.2 t.params⟩

mutual
theorem Expression.Like.refl (hL : L.Reflexive) : ∀ e : Expression ι, Expression.Like L e e
  | .leaf l => .leaf ⟨rfl, rfl, rfl, rfl, hL.1 l.lookup l.values⟩
  | .raw t => .raw (Template.Like.refl hL t)
  | .func t => .func (Template.Like.refl hL t)
  | .group _ _ children => .group (Expression.LikeAll.refl hL children)
  | .subquery _ _ _ plan => .subquery (Plan.Like.refl hL plan)

theorem Expression.LikeAll.refl (hL : L.Reflexive) :
    ∀ es : List (Expression ι), Expression.LikeAll L es es
  | [] => .nil
  | e :: rest => .cons (Expression.Like.refl hL e) (Expression.LikeAll.refl hL rest)

theorem Expression.LikeNamed.refl (hL : L.Reflexive) :
    ∀ es : List (String × Expression ι), Expression.LikeNamed L es es
  | [] => .nil
  | (_, e) :: rest => .cons (Expression.Like.refl hL e) (Expression.LikeNamed.refl hL rest)

theorem Plan.Like.refl (hL : L.Reflexive) : ∀ p : Plan ι, Plan.Like L p p
  | ⟨_, _, annotations, filters, _, _, _, _, _, _, _⟩ =>
    .mk (Expression.LikeNamed.refl hL annotations) (Expression.LikeAll.refl hL filters)
end

/-! ## Resolving -/

mutual
theorem Expression.Like.check_eq : ∀ {a b : Expression ι}, Expression.Like L a b →
    b.check = a.check
  | _, _, .leaf h => by rw [Expression.check, Expression.check, h.unsupported]
  | _, _, .raw _ => by rw [Expression.check, Expression.check]
  | _, _, .func _ => by rw [Expression.check, Expression.check]
  | _, _, .group h => by
    rw [Expression.check, Expression.check, Expression.LikeAll.check_eq h]
  | _, _, .subquery h => by
    rw [Expression.check, Expression.check, Plan.Like.check_eq h]

theorem Expression.LikeAll.check_eq : ∀ {as bs : List (Expression ι)}, Expression.LikeAll L as bs →
    Expression.checkAll bs = Expression.checkAll as
  | _, _, .nil => rfl
  | _, _, .cons h hs => by
    rw [Expression.checkAll, Expression.checkAll, Expression.Like.check_eq h,
      Expression.LikeAll.check_eq hs]
end

/-- Comparisons that are alike agree on whether they prefer an inner join. -/
def Likeness.Pins (L : Likeness) : Prop :=
  ∀ a b, Leaf.Like L a b → Expression.Leaf.pinned b = Expression.Leaf.pinned a

variable {schema : Schema ι} {root : ι}

theorem Template.resolve_paired {a b : Template} (h : Template.Like L a b) :
    Paired Eq (Expression.Template.resolve schema root a)
      (Expression.Template.resolve schema root b) (Template.Like L) := by
  unfold Expression.Template.resolve
  rw [h.columns, h.fields]
  split
  · exact .of_pure h
  · refine (Paired.same _).bind fun columns columns' hc => ?_
    exact .of_pure ⟨h.text, rfl, congrArg some hc.symm, h.params⟩

mutual
theorem Expression.resolveIn_paired (hL : L.Pins) : ∀ {a b : Expression ι} (top : Bool),
    Expression.Like L a b → Paired Eq (Expression.resolveIn schema root top a)
      (Expression.resolveIn schema root top b)
      fun a' b' => Expression.Like L a' b' ∧ depth a' = depth a
  | _, _, top, .leaf h => by
    rw [Expression.resolveIn, Expression.resolveIn, Expression.Like.check_eq (.leaf h), h.column,
      h.path, hL _ _ h]
    refine (Paired.same _).bind fun _ _ _ => ?_
    split
    · exact .of_pure ⟨.leaf h, rfl⟩
    · refine (Paired.same _).bind fun column column' hc => ?_
      exact .of_pure ⟨.leaf ⟨rfl, h.lookup, h.unsupported, congrArg some hc.symm, h.values⟩, rfl⟩
  | _, _, top, .raw h => by
    rw [Expression.resolveIn, Expression.resolveIn]
    exact (Template.resolve_paired h).bind fun _ _ h' => .of_pure ⟨.raw h', rfl⟩
  | _, _, top, .func h => by
    rw [Expression.resolveIn, Expression.resolveIn]
    exact (Template.resolve_paired h).bind fun _ _ h' => .of_pure ⟨.func h', rfl⟩
  | _, _, top, .group h => by
    rw [Expression.resolveIn, Expression.resolveIn, Expression.LikeAll.check_eq h]
    refine (Paired.same _).bind fun _ _ _ => ?_
    refine (Expression.resolveAll_paired hL _ h).bind fun xs' ys' h' => ?_
    exact .of_pure ⟨.group h'.1, by rw [depth, depth, h'.2]⟩
  | _, _, top, @Expression.Like.subquery _ _ _ lhs column _ _ h => by
    unfold Expression.resolveIn
    rw [Plan.Like.check_eq h]
    refine (Paired.same _).bind fun _ _ _ => ?_
    cases lhs with
    | none => exact .of_pure ⟨.subquery h, rfl⟩
    | some path =>
      cases column with
      | some c => exact .of_pure ⟨.subquery h, rfl⟩
      | none =>
        refine (Paired.same _).bind fun column column' hc => ?_
        subst hc
        exact .of_pure ⟨.subquery h, rfl⟩

theorem Expression.resolveAll_paired (hL : L.Pins) : ∀ {as bs : List (Expression ι)} (top : Bool),
    Expression.LikeAll L as bs → Paired Eq (Expression.resolveAll schema root top as)
      (Expression.resolveAll schema root top bs)
      fun as' bs' => Expression.LikeAll L as' bs' ∧ depthAll as' = depthAll as
  | _, _, top, .nil => .of_pure ⟨.nil, rfl⟩
  | _, _, top, .cons h hs => by
    rw [Expression.resolveAll, Expression.resolveAll]
    refine (Expression.resolveIn_paired hL top h).bind fun a' b' h' => ?_
    refine (Expression.resolveAll_paired hL top hs).bind fun as' bs' hs' => ?_
    exact .of_pure ⟨.cons h'.1 hs'.1, by rw [depthAll, depthAll, h'.2, hs'.2]⟩
end

end Orm
