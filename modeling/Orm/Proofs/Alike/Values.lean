import Orm.Proofs.Alike.Query

/-
The two likenesses that compiling respects. Under `Likeness.shape` values may differ as long as their
number, their being a list and, where the text depends on it, their being NULL or true are the same.
Under `Likeness.equal` the values are the same, and what is compared are runs that have bound
different values before.
-/

namespace Orm

variable {k : Nat} {R : List Value → List Value → Prop} {V : Value → Value → Prop}

/-! ## Binding -/

/-- Paired runs, begun after values that match. -/
theorem Paired.runFrom {α : Type} {x y : Binding α} {Q : α → α → Prop} {s t : List Value}
    (h : Paired R x y Q) (hst : R s t) :
    Tied (fun a b => Q a.1 b.1 ∧ R a.2 b.2) (x.runFrom s) (y.runFrom t) := by
  obtain ⟨hq, hr⟩ := h s t hst
  unfold Binding.runFrom
  rcases hx : outcome x s with ⟨r, s'⟩
  rcases hy : outcome y t with ⟨r', t'⟩
  rw [hx, hy] at hq hr
  cases r with
  | error e =>
    cases r' with
    | error e' => trivial
    | ok b => exact hq.elim
  | ok a =>
    cases r' with
    | error e' => exact hq.elim
    | ok b => exact ⟨hq, hr⟩

/-- Values of `V` bound by runs that are `k` values apart. -/
def Binds (k : Nat) (R : List Value → List Value → Prop) (V : Value → Value → Prop) : Prop :=
  ∀ v w, V v w → Paired R (bindValue v) (bindValue w) fun a b => b = a.shift k

theorem Binds.of_snoc (hl : ∀ s t, R s t → t.length = s.length + k)
    (hs : ∀ s t v w, R s t → V v w → R (s ++ [v]) (t ++ [w])) : Binds k R V := by
  intro v w hv s t hst
  have hst' := hs s t v w hst hv
  refine ⟨?_, hst'⟩
  change Piece.param (t ++ [w]).length = (Piece.param (s ++ [v]).length).shift k
  rw [hl _ _ hst']
  rfl

theorem Template.fill_paired (hb : Binds k R V) (t u : Template) (tokens : List TemplateToken) :
    ∀ (columns : List Column) {vs ws : List Value}, List.Forall₂ V vs ws →
    Paired R (t.fill tokens columns vs) (u.fill tokens columns ws) (Shifted k) := by
  induction tokens with
  | nil =>
    intro columns vs ws h
    cases columns with
    | nil =>
      cases h with
      | nil => exact .of_pure rfl
      | cons _ _ => exact .of_throw
    | cons c cs =>
      cases h with
      | nil => exact .of_throw
      | cons _ _ => exact .of_throw
  | cons token tokens ih =>
    intro columns vs ws h
    cases token with
    | column =>
      cases columns with
      | nil => exact .of_throw
      | cons c cs =>
        refine (ih cs h).bind fun a b hab => ?_
        subst hab
        exact .of_pure rfl
    | param =>
      cases h with
      | nil => exact .of_throw
      | cons hv hvs =>
        refine (hb _ _ hv).bind fun a b hab => ?_
        refine (ih columns hvs).bind fun as bs habs => ?_
        subst hab habs
        exact .of_pure rfl
    | literal c =>
      refine (ih columns h).bind fun a b hab => ?_
      subst hab
      exact .of_pure rfl

/-- All that the text of a comparison may depend on in its operand. -/
structure Lookup.Takes (V : Value → Value → Prop) (l : Lookup) (v w : Value) : Prop where
  bound : V v w
  pattern : ∀ p : Lookup.Pattern, V (.string (p.text v)) (.string (p.text w))
  null : l = .exact → w.isNull = v.isNull
  truth : l = .isNull → Tied Eq v.toBool w.toBool

theorem Lookup.Pattern.shift_write (p : Lookup.Pattern) (column : Sql) (operand : Piece) :
    Sql.shift k (p.write column operand) = p.write (Sql.shift k column) (operand.shift k) := by
  unfold Lookup.Pattern.write
  split <;> simp [Piece.shift]

theorem Lookup.write_paired (hb : Binds k R V) {l : Lookup} {vs ws : List Value} (c : Column)
    (hi : l = .inList → List.Forall₂ V (listItems vs) (listItems ws))
    (ho : l ≠ .inList → Tied (l.Takes V) (l.operand vs) (l.operand ws)) :
    Paired R (l.write [.ident c] vs) (l.write [.ident c] ws) (Shifted k) := by
  unfold Lookup.write
  dsimp only
  by_cases hl : l = .inList
  · rw [if_pos hl, if_pos hl]
    have hitems := hi hl
    generalize listItems vs = xs at hitems ⊢
    generalize listItems ws = ys at hitems ⊢
    cases hitems with
    | nil => exact .of_pure rfl
    | cons hx hxs =>
      refine (Paired.mapM (Q := fun a b => b = a.shift k)
        ((List.Forall₂.cons hx hxs).imp hb)).bind fun as bs hab => ?_
      refine .of_pure ?_
      have hbs : bs = as.map (Piece.shift k) := by
        clear hx hxs
        induction hab with
        | nil => rfl
        | cons h _ ih => rw [List.map_cons, h, ih]
      subst hbs
      simp [Shifted, Sql.shift_join, Sql.ofText, Piece.shift, Function.comp_def]
  · rw [if_neg hl, if_neg hl]
    refine (Paired.of_tied (ho hl)).bind fun v w hv => ?_
    split
    · rename_i p hp
      refine (hb _ _ (hv.pattern p)).bind fun a b hab => ?_
      subst hab
      refine .of_pure ?_
      rw [Shifted, Lookup.Pattern.shift_write]
      rfl
    · split
      · refine (Paired.of_tied (hv.truth rfl)).bind fun wanted wanted' hw => ?_
        subst hw
        refine .of_pure ?_
        simp [Shifted, Sql.ofText, Piece.shift]
      · rw [hv.null rfl]
        split
        · exact .of_pure rfl
        · refine (hb _ _ hv.bound).bind fun a b hab => ?_
          subst hab
          exact .of_pure rfl
      · refine (hb _ _ hv.bound).bind fun a b hab => ?_
        subst hab
        exact .of_pure rfl

/-! ## Equal values -/

/-- The same values. -/
def Likeness.equal : Likeness where
  compared _ vs ws := vs = ws
  filled vs ws := vs = ws

/-- The second run has bound these values first, and the same as the other since then. -/
def After (before : List Value) (s t : List Value) : Prop := t = before ++ s

theorem After.binds (before : List Value) : Binds before.length (After before) Eq := by
  refine .of_snoc (fun s t h => ?_) fun s t v w h hv => ?_
  · rw [h, List.length_append, Nat.add_comm]
  · rw [After, h, hv, List.append_assoc]

theorem Likeness.equal_reflexive : Likeness.equal.Reflexive := ⟨fun _ _ => rfl, fun _ => rfl⟩

theorem Likeness.equal_pins : Likeness.equal.Pins := by
  intro a b h
  have hvalues : a.values = b.values := h.values
  unfold Expression.Leaf.pinned
  rw [h.lookup, hvalues]

theorem Likeness.equal_writes (before : List Value) :
    Likeness.equal.Writes before.length (After before) where
  compared c h := by
    subst h
    refine Lookup.write_paired (After.binds before) c (fun _ => List.forall₂_refl _) fun _ => ?_
    refine (Tied.same _).imp fun v w hvw => ?_
    subst hvw
    exact ⟨rfl, fun _ => rfl, fun _ => rfl, fun _ => Tied.same _⟩
  filled t u tokens columns h := by
    subst h
    exact Template.fill_paired (After.binds before) t u tokens columns (List.forall₂_refl _)

/-! ## Values of one shape -/

/-- Operands between which no lookup of that kind can tell. -/
structure Value.SameShape (l : Lookup) (v w : Value) : Prop where
  list : w.isList = v.isList
  null : l = .exact → w.isNull = v.isNull
  truth : l = .isNull → w.toBool.toOption = v.toBool.toOption

/--
The same number of values: for `in` of the items, for any other lookup of operands that, if there is
one only, have the same shape.
-/
def Likeness.shape : Likeness where
  compared l vs ws :=
    if l = .inList then (Lookup.listItems vs).length = (Lookup.listItems ws).length
    else vs.length = ws.length ∧ ∀ v w, vs = [v] → ws = [w] → Value.SameShape l v w
  filled vs ws := vs.length = ws.length

def SameLength (s t : List Value) : Prop := s.length = t.length

theorem SameLength.binds : Binds 0 SameLength fun _ _ => True := by
  refine .of_snoc (fun s t h => h.symm) fun s t v w h _ => ?_
  rw [SameLength, List.length_append, List.length_append, h]
  rfl

theorem forall₂_of_length_eq {as bs : List Value} (h : as.length = bs.length) :
    List.Forall₂ (fun _ _ => True) as bs :=
  List.forall₂_iff_zip.2 ⟨h, fun _ => trivial⟩

theorem Lookup.operand_single {l : Lookup} {v : Value} (h : v.isList = false) :
    l.operand [v] = .ok v := by
  cases v with
  | list items => cases h
  | _ => rfl

theorem Lookup.operand_several (l : Lookup) (v v' : Value) (vs : List Value) :
    ∃ e, l.operand (v :: v' :: vs) = .error e := by
  cases v <;> exact ⟨_, rfl⟩

theorem Value.exists_items {v : Value} (h : v.isList = true) : ∃ items, v = .list items := by
  cases v with
  | list items => exact ⟨items, rfl⟩
  | _ => cases h

theorem Lookup.takes_of_sameShape {l : Lookup} {v w : Value} (h : Value.SameShape l v w) :
    l.Takes (fun _ _ => True) v w where
  bound := trivial
  pattern _ := trivial
  null := h.null
  truth hl := by
    have ht := h.truth hl
    cases hv : v.toBool with
    | error e =>
      cases hw : w.toBool with
      | error e' => trivial
      | ok b' =>
        rw [hv, hw] at ht
        cases ht
    | ok b =>
      cases hw : w.toBool with
      | error e' =>
        rw [hv, hw] at ht
        cases ht
      | ok b' =>
        rw [hv, hw] at ht
        exact (Option.some.inj ht).symm

theorem Lookup.operand_tied {l : Lookup} : ∀ {vs ws : List Value}, vs.length = ws.length →
    (∀ v w, vs = [v] → ws = [w] → Value.SameShape l v w) →
    Tied (l.Takes fun _ _ => True) (l.operand vs) (l.operand ws)
  | [], [], _, _ => trivial
  | [v], [w], _, h => by
    have hs := h v w rfl rfl
    by_cases hv : v.isList
    · obtain ⟨items, rfl⟩ := Value.exists_items hv
      obtain ⟨items', rfl⟩ := Value.exists_items (hs.list.trans hv)
      trivial
    · have hv := Bool.eq_false_iff.2 hv
      rw [Lookup.operand_single hv, Lookup.operand_single (hs.list.trans hv)]
      exact Lookup.takes_of_sameShape hs
  | v :: v' :: vs, w :: w' :: ws, _, _ => by
    obtain ⟨e, he⟩ := Lookup.operand_several l v v' vs
    obtain ⟨e', he'⟩ := Lookup.operand_several l w w' ws
    rw [he, he']
    trivial

theorem Likeness.shape_pins : Likeness.shape.Pins := by
  intro a b h
  have hvalues := h.values
  unfold Expression.Leaf.pinned
  rw [h.lookup]
  by_cases hl : a.lookup = .exact
  · rw [hl] at hvalues ⊢
    obtain ⟨hlen, hs⟩ := hvalues
    congr 1
    match a.values, b.values, hlen, hs with
    | [], [], _, _ => rfl
    | [v], [w], _, hs => exact congrArg (!·) ((hs v w rfl rfl).null rfl)
    | _ :: _ :: _, _ :: _ :: _, _, _ => rfl
  · have hf : (a.lookup == .exact) = false := by
      cases hl' : a.lookup with
      | exact => exact absurd hl' hl
      | _ => rfl
    rw [hf, Bool.false_and, Bool.false_and]

theorem Likeness.shape_writes : Likeness.shape.Writes 0 SameLength where
  compared {l vs ws} c h := by
    refine Lookup.write_paired SameLength.binds c (fun hl => ?_) fun hl => ?_
    · subst hl
      exact forall₂_of_length_eq h
    · have h' : vs.length = ws.length ∧ ∀ v w, vs = [v] → ws = [w] → Value.SameShape l v w := by
        unfold Likeness.shape at h
        dsimp only at h
        rwa [if_neg hl] at h
      exact Lookup.operand_tied h'.1 h'.2
  filled t u tokens columns h :=
    Template.fill_paired SameLength.binds t u tokens columns (forall₂_of_length_eq h)

end Orm
