import Orm.Proofs.Outcome

/-
Two runs side by side. They are paired if, begun in states that match, they leave states that match,
and either both fail or both succeed with results that match.
-/

namespace Orm

variable {σ τ α β γ δ : Type}

/-! ## Results -/

/-- Both have failed, or both results are there and match. -/
def Tied (Q : α → β → Prop) : Result α → Result β → Prop
  | .ok a, .ok b => Q a b
  | .error _, .error _ => True
  | _, _ => False

namespace Tied

variable {Q : α → β → Prop} {x : Result α} {y : Result β}

theorem imp {R : α → β → Prop} (h : Tied Q x y) (hqr : ∀ a b, Q a b → R a b) : Tied R x y := by
  cases x with
  | error e =>
    cases y with
    | error e' => trivial
    | ok b => exact h
  | ok a =>
    cases y with
    | error e' => exact h
    | ok b => exact hqr a b h

theorem bind {R : γ → δ → Prop} {f : α → Result γ} {g : β → Result δ} (h : Tied Q x y)
    (hf : ∀ a b, Q a b → Tied R (f a) (g b)) : Tied R (x >>= f) (y >>= g) := by
  cases x with
  | error e =>
    cases y with
    | error e' => trivial
    | ok b => exact h.elim
  | ok a =>
    cases y with
    | error e' => exact h.elim
    | ok b => exact hf a b h

theorem same (x : Result α) : Tied Eq x x := by
  cases x with
  | error e => trivial
  | ok a => rfl

theorem symm (h : Tied Q x y) : Tied (fun b a => Q a b) y x := by
  cases x with
  | error e =>
    cases y with
    | error e' => trivial
    | ok b => exact h
  | ok a =>
    cases y with
    | error e' => exact h
    | ok b => exact h

theorem trans {R : β → γ → Prop} {z : Result γ} (h : Tied Q x y) (h' : Tied R y z) :
    Tied (fun a c => ∃ b, Q a b ∧ R b c) x z := by
  cases y with
  | error e =>
    cases x with
    | error e =>
      cases z with
      | error e => trivial
      | ok c => exact h'
    | ok a => exact h.elim
  | ok b =>
    cases x with
    | error e => exact h.elim
    | ok a =>
      cases z with
      | error e => exact h'
      | ok c => exact ⟨b, h, h'⟩

/-- A result is the only one that it is tied to itself with. -/
theorem diag {Q : α → α → Prop} {x : Result α} (h : Tied Q x x) :
    Tied (fun a b => a = b ∧ Q a b) x x := by
  cases x with
  | error e => trivial
  | ok a => exact ⟨rfl, h⟩

theorem exists_ok {a : α} (h : Tied Q x y) (hx : x = .ok a) : ∃ b, y = .ok b ∧ Q a b := by
  subst hx
  cases y with
  | error e => exact h.elim
  | ok b => exact ⟨b, rfl, h⟩

theorem ne_ok (h : Tied Q x y) (hx : ∀ a, x ≠ .ok a) (b : β) : y ≠ .ok b := by
  rintro rfl
  cases x with
  | error e => exact h
  | ok a => exact hx a rfl

end Tied

/-! ## Runs -/

def Paired (I : σ → τ → Prop) (x : ExceptT Error (StateM σ) α) (y : ExceptT Error (StateM τ) β)
    (Q : α → β → Prop) : Prop :=
  ∀ s t, I s t → Tied Q (outcome x s).1 (outcome y t).1 ∧ I (outcome x s).2 (outcome y t).2

namespace Paired

variable {I : σ → τ → Prop} {x : ExceptT Error (StateM σ) α} {y : ExceptT Error (StateM τ) β}
  {Q : α → β → Prop}

theorem of_pure {a : α} {b : β} (h : Q a b) : Paired I (pure a) (pure b) Q :=
  fun _ _ hst => ⟨h, hst⟩

theorem of_throw {e e' : Error} : Paired I (throw e) (throw e') Q :=
  fun _ _ hst => ⟨trivial, hst⟩

theorem of_tied {r : Result α} {r' : Result β} (h : Tied Q r r') :
    Paired I (ExceptT.mk (pure r)) (ExceptT.mk (pure r')) Q :=
  fun _ _ hst => ⟨h, hst⟩

theorem imp {R : α → β → Prop} (h : Paired I x y Q) (hqr : ∀ a b, Q a b → R a b) :
    Paired I x y R :=
  fun s t hst => ⟨(h s t hst).1.imp hqr, (h s t hst).2⟩

theorem bind {R : γ → δ → Prop} {f : α → ExceptT Error (StateM σ) γ}
    {g : β → ExceptT Error (StateM τ) δ} (h : Paired I x y Q)
    (hf : ∀ a b, Q a b → Paired I (f a) (g b) R) : Paired I (x >>= f) (y >>= g) R := by
  intro s t hst
  obtain ⟨hq, hi⟩ := h s t hst
  rw [outcome_bind, outcome_bind]
  rcases hx : outcome x s with ⟨r, s'⟩
  rcases hy : outcome y t with ⟨r', t'⟩
  rw [hx, hy] at hq hi
  cases r with
  | error e =>
    cases r' with
    | error e' => exact ⟨trivial, hi⟩
    | ok b => exact hq.elim
  | ok a =>
    cases r' with
    | error e' => exact hq.elim
    | ok b => exact hf a b hq s' t' hi

/-- A run is paired with itself. -/
theorem same (x : ExceptT Error (StateM σ) α) : Paired Eq x x Eq := by
  intro s t hst
  subst hst
  exact ⟨Tied.same _, rfl⟩

/-- A run paired with itself, with what its results always have. -/
theorem same_of_keeps {x : ExceptT Error (StateM σ) α} {P : α → Prop}
    (h : Keeps (fun _ => True) x P) : Paired Eq x x fun a b => a = b ∧ P a := by
  intro s t hst
  subst hst
  have hp := (h s trivial).2
  refine ⟨?_, rfl⟩
  cases hx : (outcome x s).1 with
  | error e => trivial
  | ok a => exact ⟨rfl, hp a hx⟩

/-- Lists of runs of which each two at one position are paired. -/
theorem mapM {f : γ → ExceptT Error (StateM σ) α} {g : δ → ExceptT Error (StateM τ) β}
    {cs : List γ} {ds : List δ} (h : List.Forall₂ (fun c d => Paired I (f c) (g d) Q) cs ds) :
    Paired I (cs.mapM f) (ds.mapM g) (List.Forall₂ Q) := by
  induction h with
  | nil => exact of_pure .nil
  | cons hcd _ ih =>
    rw [List.mapM_cons, List.mapM_cons]
    refine hcd.bind fun a b hab => ?_
    refine ih.bind fun as bs habs => ?_
    exact of_pure (.cons hab habs)

end Paired

end Orm
