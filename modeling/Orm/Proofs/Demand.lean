import Orm.Proofs.Resolving
import Orm.Statement.Select

/-
Demands on every part of a query, at any depth of nesting, and resolving, which keeps them: it finds
columns and changes nothing else.
-/

namespace Orm

variable {ι : Type} {schema : Schema ι}

/-! ## Demands on all parts of a query -/

/-- What is asked of names already found, of templates, and of each query by itself. -/
structure Demand (ι : Type) where
  column : Column → Prop
  template : Template → Prop
  plan : Plan ι → Prop

namespace Demand

/-- Two demands together are at least as strong as a third. -/
structure Cover (D E F : Demand ι) : Prop where
  column : ∀ c, D.column c → E.column c → F.column c
  template : ∀ t, D.template t → E.template t → F.template t
  plan : ∀ p, D.plan p → E.plan p → F.plan p

mutual
/-- The demand is met by an expression and by the queries nested in it. -/
def OnExpression (D : Demand ι) : Expression ι → Prop
  | .leaf l => ∀ c, l.column = some c → D.column c
  | .raw t | .func t => D.template t ∧ ∀ cs, t.columns = some cs → ∀ c ∈ cs, D.column c
  | .group _ _ children => OnAll D children
  | .subquery _ _ column plan => (∀ c, column = some c → D.column c) ∧ OnPlan D plan

def OnAll (D : Demand ι) : List (Expression ι) → Prop
  | [] => True
  | e :: rest => OnExpression D e ∧ OnAll D rest

def OnNamed (D : Demand ι) : List (String × Expression ι) → Prop
  | [] => True
  | (_, e) :: rest => OnExpression D e ∧ OnNamed D rest

def OnPlan (D : Demand ι) : Plan ι → Prop
  | ⟨m, s, a, f, o, l, k, u, j, x, e⟩ =>
    D.plan ⟨m, s, a, f, o, l, k, u, j, x, e⟩ ∧ OnNamed D a ∧ OnAll D f
end

variable {D E F : Demand ι}

theorem onPlan_iff (p : Plan ι) :
    D.OnPlan p ↔ D.plan p ∧ D.OnNamed p.annotations ∧ D.OnAll p.filters := by
  cases p
  rw [OnPlan]

mutual
theorem Cover.onExpression (h : Cover D E F) : ∀ e : Expression ι,
    D.OnExpression e → E.OnExpression e → F.OnExpression e
  | .leaf l, hd, he => by
    rw [OnExpression] at hd he ⊢
    exact fun c hc => h.column c (hd c hc) (he c hc)
  | .raw t, hd, he | .func t, hd, he => by
    rw [OnExpression] at hd he ⊢
    exact ⟨h.template t hd.1 he.1, fun cs hcs c hc => h.column c (hd.2 cs hcs c hc) (he.2 cs hcs c hc)⟩
  | .group _ _ children, hd, he => by
    rw [OnExpression] at hd he ⊢
    exact h.onAll children hd he
  | .subquery _ _ column plan, hd, he => by
    rw [OnExpression] at hd he ⊢
    exact ⟨fun c hc => h.column c (hd.1 c hc) (he.1 c hc), h.onPlan plan hd.2 he.2⟩

theorem Cover.onAll (h : Cover D E F) : ∀ es : List (Expression ι),
    D.OnAll es → E.OnAll es → F.OnAll es
  | [], _, _ => by
    rw [OnAll]
    trivial
  | e :: rest, hd, he => by
    rw [OnAll] at hd he ⊢
    exact ⟨h.onExpression e hd.1 he.1, h.onAll rest hd.2 he.2⟩

theorem Cover.onNamed (h : Cover D E F) : ∀ es : List (String × Expression ι),
    D.OnNamed es → E.OnNamed es → F.OnNamed es
  | [], _, _ => by
    rw [OnNamed]
    trivial
  | (_, e) :: rest, hd, he => by
    rw [OnNamed] at hd he ⊢
    exact ⟨h.onExpression e hd.1 he.1, h.onNamed rest hd.2 he.2⟩

theorem Cover.onPlan (h : Cover D E F) : ∀ p : Plan ι, D.OnPlan p → E.OnPlan p → F.OnPlan p
  | ⟨m, s, a, f, o, l, k, u, j, x, e⟩, hd, he => by
    rw [OnPlan] at hd he ⊢
    exact ⟨h.plan _ hd.1 he.1, h.onNamed a hd.2.1 he.2.1, h.onAll f hd.2.2 he.2.2⟩
end

end Demand

/-! ## Resolving -/

/-- The columns that resolving finds meet the demand, and finding them changes no template. -/
structure Demand.Resolves (D : Demand ι) (schema : Schema ι) (root : ι) (I : Scope → Prop) :
    Prop where
  path : ∀ path inner, Keeps I (resolvePath schema root path inner) D.column
  template : ∀ t columns, D.template t → D.template { t with columns }

section

variable {D : Demand ι} {I : Scope → Prop} {root : ι}

namespace Expression

theorem Template.resolve_meets (hD : D.Resolves schema root I) {t : Template}
    (h : D.template t ∧ ∀ cs, t.columns = some cs → ∀ c ∈ cs, D.column c) :
    Keeps I (Template.resolve schema root t) fun t' =>
      D.template t' ∧ ∀ cs, t'.columns = some cs → ∀ c ∈ cs, D.column c := by
  unfold Template.resolve
  split
  · exact Keeps.of_pure h
  · refine Keeps.bind (Keeps.mapM fun f _ => hD.path f false) fun columns hc =>
      Keeps.of_pure ⟨hD.template t _ h.1, fun cs hcs => ?_⟩
    simp only [Option.some.injEq] at hcs
    exact hcs ▸ hc

mutual
theorem resolveIn_meets (hD : D.Resolves schema root I) : ∀ (top : Bool) (e : Expression ι), D.OnExpression e →
    Keeps I (resolveIn schema root top e) D.OnExpression
  | top, .leaf l, h => by
    unfold resolveIn
    refine Keeps.bind (Q := fun _ => True) (Keeps.ofResult fun _ _ => trivial) fun _ _ => ?_
    split
    · exact Keeps.of_pure h
    · refine (hD.path l.path _).bind fun c hc => Keeps.of_pure ?_
      rw [Demand.OnExpression]
      intro c' hc'
      simp only [Option.some.injEq] at hc'
      exact hc' ▸ hc
  | top, .raw t, h => by
    unfold resolveIn
    rw [Demand.OnExpression] at h
    refine (Template.resolve_meets hD h).bind fun t' ht' => Keeps.of_pure ?_
    rw [Demand.OnExpression]
    exact ht'
  | top, .func t, h => by
    unfold resolveIn
    rw [Demand.OnExpression] at h
    refine (Template.resolve_meets hD h).bind fun t' ht' => Keeps.of_pure ?_
    rw [Demand.OnExpression]
    exact ht'
  | top, .group connector negated children, h => by
    unfold resolveIn
    rw [Demand.OnExpression] at h
    refine Keeps.bind (Q := fun _ => True) (Keeps.ofResult fun _ _ => trivial) fun _ _ => ?_
    refine (resolveAll_meets hD _ children h).bind fun es hes => Keeps.of_pure ?_
    rw [Demand.OnExpression]
    exact hes
  | top, .subquery use lhs column plan, h => by
    unfold resolveIn
    rw [Demand.OnExpression] at h
    refine Keeps.bind (Q := fun _ => True) (Keeps.ofResult fun _ _ => trivial) fun _ _ => ?_
    split
    · rename_i path
      refine (hD.path path false).bind fun c hc => Keeps.of_pure ?_
      rw [Demand.OnExpression]
      refine ⟨fun c' hc' => ?_, h.2⟩
      simp only [Option.some.injEq] at hc'
      exact hc' ▸ hc
    · refine Keeps.of_pure ?_
      rw [Demand.OnExpression]
      exact h

theorem resolveAll_meets (hD : D.Resolves schema root I) : ∀ (top : Bool) (es : List (Expression ι)), D.OnAll es →
    Keeps I (resolveAll schema root top es) D.OnAll
  | _, [], h => by
    unfold resolveAll
    exact Keeps.of_pure h
  | top, e :: rest, h => by
    unfold resolveAll
    rw [Demand.OnAll] at h
    refine (resolveIn_meets hD top e h.1).bind fun e' he => ?_
    refine (resolveAll_meets hD top rest h.2).bind fun es hes => Keeps.of_pure ?_
    rw [Demand.OnAll]
    exact ⟨he, hes⟩
end

end Expression

theorem resolveNamed_meets (hD : D.Resolves schema root I) :
    ∀ es : List (String × Expression ι), D.OnNamed es →
    Keeps I (resolveNamed schema root es) fun out =>
      out.map (·.1) = es.map (·.1) ∧ D.OnNamed out
  | [], h => by
    unfold resolveNamed
    exact Keeps.of_pure ⟨rfl, h⟩
  | (name, e) :: rest, h => by
    unfold resolveNamed
    rw [Demand.OnNamed] at h
    refine (Expression.resolveIn_meets hD true e h.1).bind fun e' he => ?_
    refine (resolveNamed_meets hD rest h.2).bind fun out ho => Keeps.of_pure ?_
    rw [Demand.OnNamed, List.map_cons, List.map_cons, ho.1]
    exact ⟨rfl, he, ho.2⟩

theorem resolveFilters_meets (hD : D.Resolves schema root I) :
    ∀ es : List (Expression ι), D.OnAll es →
    Keeps I (resolveFilters schema root es) D.OnAll
  | [], h => by
    unfold resolveFilters
    exact Keeps.of_pure h
  | e :: rest, h => by
    unfold resolveFilters
    rw [Demand.OnAll] at h
    refine (Expression.resolveIn_meets hD true e h.1).bind fun e' he => ?_
    refine (resolveFilters_meets hD rest h.2).bind fun es hes => Keeps.of_pure ?_
    rw [Demand.OnAll]
    exact ⟨he, hes⟩

end

end Orm
