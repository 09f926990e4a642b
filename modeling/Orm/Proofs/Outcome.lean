import Mathlib.Data.List.Forall2
import Orm.Sql

/-
What a computation that keeps a state and may fail comes to. Naming, resolving and binding are all of
this kind, so the rules of this file open all of them: `Yields` for one successful run, `Keeps` for
what every run leaves true, whether it succeeds or not.
-/

namespace Orm

variable {ε σ α β : Type}

/-! ## Results -/

theorem bind_eq_ok {x : Except ε α} {f : α → Except ε β} {b : β} :
    (x >>= f) = .ok b ↔ ∃ a, x = .ok a ∧ f a = .ok b := by
  cases x with
  | error e => simp [bind, Except.bind]
  | ok a => simp [bind, Except.bind]

theorem map_eq_ok {x : Except ε α} {f : α → β} {b : β} :
    x.map f = .ok b ↔ ∃ a, x = .ok a ∧ f a = b := by
  cases x with
  | error e => simp [Except.map]
  | ok a => simp [Except.map]

theorem pure_eq_ok {a b : α} : (pure a : Except ε α) = .ok b ↔ a = b := by
  simp [pure, Except.pure]

theorem throw_ne_ok {e : ε} {a : α} : (throw e : Except ε α) ≠ .ok a := nofun

theorem exists_eq_ok {x : Except ε α} (h : x.toBool = true) : ∃ a, x = .ok a := by
  cases x with
  | error e => cases h
  | ok a => exact ⟨a, rfl⟩

theorem forall₂_of_mapM_eq_ok {f : α → Result β} {l : List α} {out : List β}
    (h : l.mapM f = .ok out) : List.Forall₂ (fun a b => f a = .ok b) l out := by
  induction l generalizing out with
  | nil =>
    rw [List.mapM_nil, pure_eq_ok] at h
    exact h ▸ .nil
  | cons a l ih =>
    simp only [List.mapM_cons, bind_eq_ok, pure_eq_ok] at h
    obtain ⟨b, hb, bs, hbs, rfl⟩ := h
    exact .cons hb (ih hbs)

theorem forall_mem_of_forall₂ {R : α → β → Prop} {P : β → Prop} {as : List α} {bs : List β}
    (h : List.Forall₂ R as bs) (hp : ∀ a ∈ as, ∀ b, R a b → P b) : ∀ b ∈ bs, P b := by
  induction h with
  | nil => exact fun b hb => absurd hb List.not_mem_nil
  | @cons a b as bs hab _ ih =>
    refine List.forall_mem_cons.2 ⟨hp a List.mem_cons_self b hab, ih fun a' ha' => ?_⟩
    exact hp a' (List.mem_cons_of_mem a ha')

theorem mem_of_mapM_eq_ok {f : α → Result β} {l : List α} {out : List β}
    (h : l.mapM f = .ok out) : ∀ b ∈ out, ∃ a ∈ l, f a = .ok b :=
  forall_mem_of_forall₂ (forall₂_of_mapM_eq_ok h) fun a ha _ hb => ⟨a, ha, hb⟩

theorem exists_of_mapM_eq_ok {f : α → Result β} {l : List α} {out : List β}
    (h : l.mapM f = .ok out) : ∀ a ∈ l, ∃ b, f a = .ok b := by
  have hall := forall₂_of_mapM_eq_ok h
  clear h
  induction hall with
  | nil => exact fun a ha => absurd ha List.not_mem_nil
  | cons hab _ ih => exact List.forall_mem_cons.2 ⟨⟨_, hab⟩, ih⟩

/-! ## Runs -/

/-- What a computation gives, and the state it leaves. -/
def outcome (x : ExceptT Error (StateM σ) α) (s : σ) : Result α × σ := ExceptT.run x s

@[simp] theorem outcome_pure (a : α) (s : σ) :
    outcome (pure a : ExceptT Error (StateM σ) α) s = (.ok a, s) := rfl

@[simp] theorem outcome_throw (e : Error) (s : σ) :
    outcome (throw e : ExceptT Error (StateM σ) α) s = (.error e, s) := rfl

@[simp] theorem outcome_mk_pure (r : Result α) (s : σ) :
    outcome (ExceptT.mk (pure r) : ExceptT Error (StateM σ) α) s = (r, s) := rfl

@[simp] theorem outcome_modify (g : σ → σ) (s : σ) :
    outcome (modify g : ExceptT Error (StateM σ) PUnit) s = (.ok ⟨⟩, g s) := rfl

@[simp] theorem outcome_get (s : σ) :
    outcome (get : ExceptT Error (StateM σ) σ) s = (.ok s, s) := rfl

@[simp] theorem outcome_set (t s : σ) :
    outcome (set t : ExceptT Error (StateM σ) PUnit) s = (.ok ⟨⟩, t) := rfl

theorem outcome_bind (x : ExceptT Error (StateM σ) α) (f : α → ExceptT Error (StateM σ) β)
    (s : σ) : outcome (x >>= f) s =
      match outcome x s with
      | (.ok a, t) => outcome (f a) t
      | (.error e, t) => (.error e, t) := by
  change (ExceptT.bindCont f (ExceptT.run x s).1) (ExceptT.run x s).2 = _
  unfold outcome
  rcases ExceptT.run x s with ⟨r, t⟩
  cases r <;> rfl

theorem outcome_bindValue (v : Value) (args : List Value) :
    outcome (bindValue v) args = (.ok (.param (args.length + 1)), args ++ [v]) := by
  have hlength : (args ++ [v]).length = args.length + 1 := List.length_append
  rw [← hlength]
  rfl

/-- The computation, begun in `s`, succeeds with `a` and leaves `t`. -/
def Yields (x : ExceptT Error (StateM σ) α) (s : σ) (a : α) (t : σ) : Prop :=
  outcome x s = (.ok a, t)

namespace Yields

theorem bind_iff {x : ExceptT Error (StateM σ) α} {f : α → ExceptT Error (StateM σ) β} {s u : σ}
    {b : β} : Yields (x >>= f) s b u ↔ ∃ a t, Yields x s a t ∧ Yields (f a) t b u := by
  unfold Yields
  rw [outcome_bind]
  rcases outcome x s with ⟨r, t⟩
  cases r with
  | error e => simp
  | ok a =>
    constructor
    · exact fun h => ⟨a, t, rfl, h⟩
    · rintro ⟨a', t', h, h'⟩
      cases h
      exact h'

theorem pure_iff {a b : α} {s t : σ} :
    Yields (pure a : ExceptT Error (StateM σ) α) s b t ↔ a = b ∧ s = t := by
  simp [Yields]

theorem mk_pure_iff {r : Result α} {s t : σ} {a : α} :
    Yields (ExceptT.mk (pure r) : ExceptT Error (StateM σ) α) s a t ↔ r = .ok a ∧ s = t := by
  simp [Yields]

theorem not_throw {e : Error} {s t : σ} {a : α} :
    ¬ Yields (throw e : ExceptT Error (StateM σ) α) s a t := by
  simp [Yields]

theorem modify_iff {g : σ → σ} {s t : σ} {u : PUnit} :
    Yields (modify g : ExceptT Error (StateM σ) PUnit) s u t ↔ g s = t := by
  simp [Yields]

theorem get_iff {s t a : σ} : Yields (get : ExceptT Error (StateM σ) σ) s a t ↔ s = a ∧ s = t := by
  simp [Yields]

end Yields

/-- Every run from a state that has `I` leaves one, and its result, if it has one, has `Q`. -/
def Keeps (I : σ → Prop) (x : ExceptT Error (StateM σ) α) (Q : α → Prop) : Prop :=
  ∀ s, I s → I (outcome x s).2 ∧ ∀ a, (outcome x s).1 = .ok a → Q a

namespace Keeps

variable {I : σ → Prop} {x : ExceptT Error (StateM σ) α} {Q : α → Prop}

theorem of_yields (h : Keeps I x Q) {s t : σ} {a : α} (hs : I s) (hy : Yields x s a t) :
    I t ∧ Q a := by
  have := h s hs
  unfold Yields at hy
  rw [hy] at this
  exact ⟨this.1, this.2 a rfl⟩

theorem any (x : ExceptT Error (StateM σ) α) : Keeps (fun _ => True) x fun _ => True :=
  fun _ _ => ⟨trivial, fun _ _ => trivial⟩

theorem of_forall (h : ∀ s a t, Yields x s a t → Q a) : Keeps (fun _ => True) x Q :=
  fun s _ => ⟨trivial, fun a ha => h s a (outcome x s).2 (Prod.ext ha rfl)⟩

theorem of_pure {a : α} (h : Q a) : Keeps I (pure a) Q := by
  intro s hs
  refine ⟨hs, fun b hb => ?_⟩
  simp only [outcome_pure, Except.ok.injEq] at hb
  exact hb ▸ h

theorem of_throw {e : Error} : Keeps I (throw e : ExceptT Error (StateM σ) α) Q := by
  intro s hs
  exact ⟨hs, fun a ha => by simp only [outcome_throw, reduceCtorEq] at ha⟩

theorem of_result {r : Result α} (h : ∀ a, r = .ok a → Q a) :
    Keeps I (ExceptT.mk (pure r) : ExceptT Error (StateM σ) α) Q := by
  intro s hs
  exact ⟨hs, fun a ha => h a ha⟩

theorem of_modify {g : σ → σ} {Q : PUnit → Prop} (h : ∀ s, I s → I (g s)) (hq : Q ⟨⟩) :
    Keeps I (modify g) Q := by
  intro s hs
  exact ⟨h s hs, fun _ _ => hq⟩

theorem bind {f : α → ExceptT Error (StateM σ) β} {R : β → Prop} (hx : Keeps I x Q)
    (hf : ∀ a, Q a → Keeps I (f a) R) : Keeps I (x >>= f) R := by
  intro s hs
  rw [outcome_bind]
  have h := hx s hs
  rcases he : outcome x s with ⟨r, t⟩
  rw [he] at h
  cases r with
  | error e => exact ⟨h.1, fun a ha => by simp only [reduceCtorEq] at ha⟩
  | ok a => exact hf a (h.2 a rfl) t h.1

theorem imp {R : α → Prop} (h : Keeps I x Q) (hqr : ∀ a, Q a → R a) : Keeps I x R :=
  fun s hs => ⟨(h s hs).1, fun a ha => hqr a ((h s hs).2 a ha)⟩

/-- A list of runs, one after the other. -/
theorem mapM {γ : Type} {f : γ → ExceptT Error (StateM σ) α} {l : List γ}
    (h : ∀ c ∈ l, Keeps I (f c) Q) : Keeps I (l.mapM f) (fun as => ∀ a ∈ as, Q a) := by
  induction l with
  | nil => exact of_pure (by simp)
  | cons c l ih =>
    rw [List.mapM_cons]
    refine (h c (by simp)).bind fun a ha => ?_
    refine (ih fun c' hc' => h c' (by simp [hc'])).bind fun as has => ?_
    exact of_pure (by simpa using ⟨ha, has⟩)

end Keeps

end Orm
