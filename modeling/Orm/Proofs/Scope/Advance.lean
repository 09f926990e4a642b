import Mathlib.Order.Defs.Unbundled
import Orm.Proofs.Resolving
import Orm.Statement.Select

/-
What resolving does to the tables in scope.

Tables come into scope one after the other and none leaves it. A relation between scopes that says
so is kept by every stage of resolving once it is kept by resolving a path (`Advances`), and what
the stages find stays true of all scopes that follow.
-/

namespace Orm

variable {ι α β γ : Type} {schema : Schema ι} {root : ι} {R : Scope → Scope → Prop}

/-- A run that succeeds leaves a scope to which `R` leads from the one it began in. What it gives
has `Q` there, and in every scope to which `R` leads from there. -/
def Advances (R : Scope → Scope → Prop) (x : Resolving α) (Q : Scope → α → Prop) : Prop :=
  ∀ s a t, Yields x s a t → R s t ∧ ∀ u, R t u → Q u a

namespace Advances

variable {x : Resolving α} {Q : Scope → α → Prop}

theorem of_throw {e : Error} : Advances R (throw e) Q :=
  fun _ _ _ h => absurd h Yields.not_throw

/-- A check before a run. -/
theorem after_result {r : Result β} {f : β → Resolving α}
    (h : ∀ b, r = .ok b → Advances R (f b) Q) : Advances R (Resolving.ofResult r >>= f) Q := by
  cases r with
  | ok b => exact h b rfl
  | error e => exact of_throw

section

variable [Std.Refl R]

theorem of_result {r : Result α} (h : ∀ u a, r = .ok a → Q u a) :
    Advances R (Resolving.ofResult r) Q := by
  intro s a t hy
  obtain ⟨hr, rfl⟩ := Yields.mk_pure_iff.1 hy
  exact ⟨refl_of R s, fun u _ => h u a hr⟩

theorem of_pure {a : α} (h : ∀ u, Q u a) : Advances R (pure a) Q := by
  intro s b t hy
  obtain ⟨rfl, rfl⟩ := Yields.pure_iff.1 hy
  exact ⟨refl_of R s, fun u _ => h u⟩

end

variable [IsTrans Scope R]

theorem bind {f : α → Resolving β} {P : α → Scope → β → Prop} {S : Scope → β → Prop}
    (hx : Advances R x Q) (hf : ∀ a, Advances R (f a) (P a))
    (hs : ∀ u a b, Q u a → P a u b → S u b) : Advances R (x >>= f) S := by
  intro s b u hy
  obtain ⟨a, t, hy, hy'⟩ := Yields.bind_iff.1 hy
  obtain ⟨hst, hq⟩ := hx s a t hy
  obtain ⟨htu, hp⟩ := hf a t b u hy'
  exact ⟨trans_of R hst htu, fun v huv => hs v a b (hq v (trans_of R htu huv)) (hp v huv)⟩

/-- Two runs one after the other, of whose results nothing is said. -/
theorem bind_true {f : α → Resolving β} (hx : Advances R x Q)
    (hf : ∀ a, Advances R (f a) fun _ _ => True) : Advances R (x >>= f) fun _ _ => True :=
  hx.bind hf fun _ _ _ _ _ => trivial

variable [Std.Refl R]

/-- A result that is only put into a larger one. -/
theorem map {g : α → β} {S : Scope → β → Prop} (hx : Advances R x Q)
    (h : ∀ u a, Q u a → S u (g a)) : Advances R (x >>= fun a => pure (g a)) S :=
  hx.bind (P := fun a _ b => b = g a) (fun _ => of_pure fun _ => rfl)
    fun u a _ ha hb => hb ▸ h u a ha

theorem mapM {f : γ → Resolving α} {l : List γ} (h : ∀ c ∈ l, Advances R (f c) Q) :
    Advances R (l.mapM f) fun u as => ∀ a ∈ as, Q u a := by
  induction l with
  | nil => exact of_pure fun u a ha => absurd ha List.not_mem_nil
  | cons c l ih =>
    rw [List.mapM_cons]
    refine (h c List.mem_cons_self).bind
      (fun a => (ih fun c' hc' => h c' (List.mem_cons_of_mem c hc')).map
        (S := fun u as => ∃ rest, as = a :: rest ∧ ∀ b ∈ rest, Q u b)
        fun u as has => ⟨as, rfl, has⟩) ?_
    rintro u a _ ha ⟨rest, rfl, hrest⟩
    exact List.forall_mem_cons.2 ⟨ha, hrest⟩

end Advances

/-- Naming brings no table into scope. -/
theorem naming_yields {n : Naming α} {s t : Scope} {a : α}
    (hy : Yields (Resolving.naming n) s a t) :
    t.joins = s.joins ∧ Yields n s.aliases a t.aliases := by
  unfold Yields at hy ⊢
  rw [outcome_naming] at hy
  obtain ⟨ha, rfl⟩ := Prod.mk.inj hy
  exact ⟨rfl, Prod.ext ha rfl⟩

/-! ## Parts of expressions -/

namespace Expression

mutual
/-- The columns that an expression has been given, those of nested queries aside. -/
def columns : Expression ι → List Column
  | .leaf l => l.column.toList
  | .raw t | .func t => t.columns.getD []
  | .group _ _ children => columnsAll children
  | .subquery _ _ column _ => column.toList

def columnsAll : List (Expression ι) → List Column
  | [] => []
  | e :: rest => columns e ++ columnsAll rest
end

mutual
/-- The queries nested in an expression, those nested in them aside. -/
def queries : Expression ι → List (Plan ι)
  | .leaf _ | .raw _ | .func _ => []
  | .group _ _ children => queriesAll children
  | .subquery _ _ _ plan => [plan]

def queriesAll : List (Expression ι) → List (Plan ι)
  | [] => []
  | e :: rest => queries e ++ queriesAll rest
end

mutual
/-- The comparisons that hold wherever the expression holds, which are those within plain
conjunctions only. -/
def conjoined : Expression ι → List Leaf
  | .leaf l => [l]
  | .group .all false children => conjoinedAll children
  | .group .. | .raw _ | .func _ | .subquery .. => []

def conjoinedAll : List (Expression ι) → List Leaf
  | [] => []
  | e :: rest => conjoined e ++ conjoinedAll rest
end

/-- The columns that were found are as they should be, and nested queries are what they were. -/
structure Found (C : Column → Prop) (e e' : Expression ι) : Prop where
  columns : ∀ c ∈ e'.columns, c ∈ e.columns ∨ C c
  queries : e'.queries = e.queries

structure FoundAll (C : Column → Prop) (es es' : List (Expression ι)) : Prop where
  columns : ∀ c ∈ columnsAll es', c ∈ columnsAll es ∨ C c
  queries : queriesAll es' = queriesAll es

variable {C : Column → Prop} {e e' : Expression ι} {es es' : List (Expression ι)}

theorem Found.refl (e : Expression ι) : Found C e e := ⟨fun _ h => .inl h, rfl⟩

theorem FoundAll.nil : FoundAll C ([] : List (Expression ι)) [] := ⟨fun _ h => .inl h, rfl⟩

theorem FoundAll.cons (h : Found C e e') (hs : FoundAll C es es') :
    FoundAll C (e :: es) (e' :: es') where
  columns c hc := by
    rw [columnsAll, List.mem_append] at hc ⊢
    rcases hc with hc | hc
    · exact (h.columns c hc).imp_left .inl
    · exact (hs.columns c hc).imp_left .inr
  queries := by rw [queriesAll, queriesAll, h.queries, hs.queries]

end Expression

/-! ## Stages -/

section

variable {C : Scope → Column → Prop} [Std.Refl R] [IsTrans Scope R]

namespace Expression

theorem Template.resolve_advances
    (hpath : ∀ path, Advances R (resolvePath schema root path false) C) (t : Template) :
    Advances R (Template.resolve schema root t)
      fun u t' => ∀ c ∈ t'.columns.getD [], c ∈ t.columns.getD [] ∨ C u c := by
  unfold Template.resolve
  split
  · exact .of_pure fun _ _ hc => .inl hc
  · exact (Advances.mapM fun path _ => hpath path).map fun u cs hcs c hc => .inr (hcs c hc)

mutual
/-- Only a comparison that holds wherever its expression holds may ask for inner joins, and only if
it pins its column to a value. -/
theorem resolveIn_advances (hpath : ∀ path, Advances R (resolvePath schema root path false) C) :
    ∀ (top : Bool) (e : Expression ι),
      (top = true → ∀ l ∈ e.conjoined, Leaf.pinned l = true →
        Advances R (resolvePath schema root l.path true) C) →
      Advances R (resolveIn schema root top e) fun u e' => Found (C u) e e'
  | top, .leaf l, hinner => by
    unfold resolveIn
    refine Advances.after_result fun _ _ => ?_
    split
    · exact .of_pure fun _ => .refl _
    · have hl : Advances R (resolvePath schema root l.path (top && Leaf.pinned l)) C := by
        cases hp : top && Leaf.pinned l with
        | false => exact hpath l.path
        | true =>
          rw [Bool.and_eq_true] at hp
          exact hinner hp.1 l (by simp [conjoined]) hp.2
      exact hl.map fun u c hc => ⟨fun c' hc' => .inr (by simp_all [columns]), rfl⟩
  | top, .raw t, _ => by
    unfold resolveIn
    exact (Template.resolve_advances hpath t).map fun u t' ht => ⟨ht, rfl⟩
  | top, .func t, _ => by
    unfold resolveIn
    exact (Template.resolve_advances hpath t).map fun u t' ht => ⟨ht, rfl⟩
  | top, .group connector negated children, hinner => by
    unfold resolveIn
    refine Advances.after_result fun _ _ => ?_
    have hrest := resolveAll_advances hpath (top && connector == .all && !negated) children ?_
    · exact hrest.map fun u es h => ⟨h.columns, h.queries⟩
    · intro hall l hl
      simp only [Bool.and_eq_true, beq_iff_eq, Bool.not_eq_true'] at hall
      obtain ⟨⟨htop, rfl⟩, rfl⟩ := hall
      exact hinner htop l (by rwa [conjoined])
  | top, .subquery use lhs column plan, _ => by
    unfold resolveIn
    refine Advances.after_result fun _ _ => ?_
    split
    · rename_i path _
      exact (hpath path).map fun u c hc => ⟨fun c' hc' => .inr (by simp_all [columns]), rfl⟩
    · exact .of_pure fun _ => .refl _

theorem resolveAll_advances (hpath : ∀ path, Advances R (resolvePath schema root path false) C) :
    ∀ (top : Bool) (es : List (Expression ι)),
      (top = true → ∀ l ∈ conjoinedAll es, Leaf.pinned l = true →
        Advances R (resolvePath schema root l.path true) C) →
      Advances R (resolveAll schema root top es) fun u es' => FoundAll (C u) es es'
  | _, [], _ => by
    unfold resolveAll
    exact .of_pure fun _ => .nil
  | top, e :: rest, hinner => by
    unfold resolveAll
    rw [conjoinedAll] at hinner
    refine (resolveIn_advances hpath top e fun ht l hl =>
        hinner ht l (List.mem_append_left _ hl)).bind
      (fun e' => (resolveAll_advances hpath top rest fun ht l hl =>
        hinner ht l (List.mem_append_right _ hl)).map
          (S := fun u out => ∃ es', out = e' :: es' ∧ FoundAll (C u) rest es')
          fun u es' hes => ⟨es', rfl, hes⟩) ?_
    rintro u e' _ he ⟨es', rfl, hes⟩
    exact .cons he hes
end

end Expression

theorem resolveFilters_eq (es : List (Expression ι)) :
    resolveFilters schema root es = Expression.resolveAll schema root true es := by
  induction es with
  | nil =>
    unfold resolveFilters Expression.resolveAll
    rfl
  | cons e rest ih =>
    unfold resolveFilters Expression.resolveAll
    rw [ih]
    rfl

theorem resolveFilters_advances
    (hpath : ∀ path, Advances R (resolvePath schema root path false) C) (es : List (Expression ι))
    (hinner : ∀ l ∈ Expression.conjoinedAll es, Expression.Leaf.pinned l = true →
      Advances R (resolvePath schema root l.path true) C) :
    Advances R (resolveFilters schema root es) fun u es' => Expression.FoundAll (C u) es es' := by
  rw [resolveFilters_eq]
  exact Expression.resolveAll_advances hpath true es fun _ => hinner

theorem resolveNamed_advances
    (hpath : ∀ path, Advances R (resolvePath schema root path false) C) :
    ∀ es : List (String × Expression ι),
      (∀ l ∈ Expression.conjoinedAll (es.map (·.2)), Expression.Leaf.pinned l = true →
        Advances R (resolvePath schema root l.path true) C) →
      Advances R (resolveNamed schema root es)
        fun u out => Expression.FoundAll (C u) (es.map (·.2)) (out.map (·.2))
  | [], _ => by
    unfold resolveNamed
    exact .of_pure fun _ => .nil
  | (name, e) :: rest, hinner => by
    unfold resolveNamed
    rw [List.map_cons, Expression.conjoinedAll] at hinner
    refine (Expression.resolveIn_advances hpath true e fun _ l hl =>
        hinner l (List.mem_append_left _ hl)).bind
      (fun e' => (resolveNamed_advances hpath rest fun l hl =>
        hinner l (List.mem_append_right _ hl)).map
          (S := fun u out => ∃ es', out = (name, e') :: es' ∧
            Expression.FoundAll (C u) (rest.map (·.2)) (es'.map (·.2)))
          fun u es' hes => ⟨es', rfl, hes⟩) ?_
    rintro u e' _ he ⟨es', rfl, hes⟩
    exact .cons he hes

/-- An item of an ordering is a computed column or the column of a path. -/
theorem resolveOrderingItem_advances
    (hpath : ∀ path, Advances R (resolvePath schema root path false) C) (computed : List String)
    (item : String) : Advances R (resolveOrderingItem schema root computed item)
      fun u sql => ∃ c direction, sql = [.ident c, .text direction] ∧
        ((∃ name, c = [name]) ∨ C u c) := by
  unfold resolveOrderingItem
  rcases orderingPath item with ⟨path, descending⟩
  dsimp only
  split
  · exact .of_pure fun _ => ⟨_, _, rfl, .inl ⟨path, rfl⟩⟩
  · exact (hpath path).map fun u c hc => ⟨c, _, rfl, .inr hc⟩

end

end Orm
