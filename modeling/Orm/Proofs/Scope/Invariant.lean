import Orm.Proofs.Place.Explicit
import Orm.Proofs.Scope.Advance
import Orm.Proofs.Statement

/-
Invariants of the tables in scope.

Relations bring joins one after the other, under names given out before; explicit joins add conditions
to them and tables of their own. A property that these steps keep is kept by every stage of resolving,
whether the stage succeeds or not (`Scope.Invariant`, `Scope.ExplicitInvariant`).
-/

namespace Orm

variable {ι : Type} {schema : Schema ι} {root : ι}

/-- Kept when names are given out, and when a relation brings a join of one of these kinds under a name
in use. -/
structure Scope.Invariant (K : JoinKind → Prop) (I : Scope → Prop) : Prop where
  names : ∀ s a, Aliases.Extends s.aliases a → I s → I { s with aliases := a }
  step : ∀ s kind st, K kind → st.tableAlias ∈ s.aliases.used → I s → I (s.addStep kind st)

/-- Kept by these explicit joins, too. -/
structure Scope.ExplicitInvariant (schema : Schema ι) (root : ι) (joins : List ExplicitJoin)
    (I : Scope → Prop) : Prop extends Scope.Invariant (fun _ => True) I where
  condition : ∀ s y c, y ∈ s.aliases.used → c.operator ∈ joinOperators → I s →
    I { s with joins := addCondition y c s.joins }
  table : ∀ j ∈ joins, joinedRelation? schema root j.target = none → ∀ s condition,
    (j.kind = .cross ∨ condition.isSome = true) →
    (∀ c, condition = some c → c.operator ∈ joinOperators) → I s → I (joinTable j condition s)

/-! ## Names in use -/

section

variable {a b : Aliases} {x : String}

theorem Aliases.Named.mem_used {es : List Edge} {steps : List JoinStep}
    (h : Aliases.Named a b x es steps) : ∀ st ∈ steps, st.tableAlias ∈ b.used := by
  intro st hst
  obtain ⟨y, hy⟩ := h.follow
  rw [h.steps] at hst
  obtain ⟨ks, k, -, -, hf⟩ := Aliases.mem_stepsAt hy hst
  exact h.sound.follow_mem_used hf (by simp)

theorem relationSteps_used {parent : Model ι} {f : FieldDef ι} {rel : Relation ι}
    {r : Result (List JoinStep)} (ha : a.Sound)
    (ho : outcome (Naming.relationSteps schema x parent f rel) a = (r, b)) :
    Grown a b ∧ ∀ steps, r = .ok steps → ∀ st ∈ steps, st.tableAlias ∈ b.used := by
  rw [outcome_relationSteps] at ho
  split at ho
  · rename_i es _
    obtain ⟨rfl, rfl⟩ := Prod.mk.inj ho
    have hn := Aliases.nameAll_named ha x es
    refine ⟨⟨hn.sound, hn.extend⟩, fun steps hsteps => ?_⟩
    cases hsteps
    exact hn.mem_used
  · obtain ⟨rfl, rfl⟩ := Prod.mk.inj ho
    exact ⟨⟨ha, .refl _⟩, nofun⟩

theorem hop_used {parent : Model ι} {f : FieldDef ι} {r : Result (List JoinStep)} (ha : a.Sound)
    (ho : outcome (Naming.hop schema x parent f) a = (r, b)) :
    Grown a b ∧ ∀ steps, r = .ok steps → ∀ st ∈ steps, st.tableAlias ∈ b.used := by
  unfold Naming.hop at ho
  split at ho
  · obtain ⟨rfl, rfl⟩ := Prod.mk.inj ho
    exact ⟨⟨ha, .refl _⟩, nofun⟩
  · exact relationSteps_used ha ho

theorem chain_used {chain : List (Hop ι)} {r : Result (List (List JoinStep × String))}
    (ha : a.Sound) (ho : outcome (Naming.chain schema x chain) a = (r, b)) :
    Grown a b ∧ ∀ out, r = .ok out → ∀ st ∈ out.flatMap (·.1), st.tableAlias ∈ b.used := by
  refine ⟨chain_grows ha ho, ?_⟩
  induction chain generalizing a x r with
  | nil =>
    rintro out rfl st hst
    obtain ⟨ho, -⟩ := Prod.mk.inj ho
    cases ho
    exact absurd hst List.not_mem_nil
  | cons h chain ih =>
    rintro out rfl
    have hy : Yields (Naming.chain schema x (h :: chain)) a out b := ho
    simp only [Naming.chain, Yields.bind_iff, Yields.pure_iff] at hy
    obtain ⟨steps, c, hs, rest, _, hr, rfl, rfl⟩ := hy
    obtain ⟨hgrown, hsteps⟩ := relationSteps_used ha hs
    rw [List.flatMap_cons]
    refine List.forall_mem_append.2 ⟨fun st hst => ?_, ih hgrown.1 hr rest rfl⟩
    exact (chain_grows hgrown.1 hr).2.used (hsteps steps rfl st hst)

/-- The alias of a relation that is joined is in use. -/
theorem joinRelation_used {s t : Scope} {m : ι} {f : FieldDef ι} {kind : JoinKind} {y : String}
    (hs : s.aliases.Sound) (hy : Yields (joinRelation schema x m f kind) s y t) :
    y ∈ t.aliases.used := by
  simp only [joinRelation, addSteps, Yields.bind_iff, Yields.pure_iff, Yields.modify_iff] at hy
  obtain ⟨steps, u, hn, _, _, rfl, rfl, rfl⟩ := hy
  rw [Scope.foldl_addStep_aliases]
  obtain ⟨-, hhop⟩ := naming_yields hn
  obtain ⟨-, hused⟩ := hop_used hs hhop
  have hne : steps ≠ [] := by
    rintro rfl
    unfold Naming.hop at hhop
    split at hhop
    · exact Yields.not_throw hhop
    · rename_i r hr
      unfold Yields at hhop
      rw [outcome_relationSteps] at hhop
      split at hhop
      · rename_i es hes
        obtain ⟨e, rest, rfl, -⟩ := relationEdges_key hes hr
        simp [Aliases.nameAll] at hhop
      · cases hhop
  obtain ⟨st, hst⟩ := List.getLast?_isSome.2 hne |> Option.isSome_iff_exists.1
  rw [Naming.reached, hst]
  exact hused steps rfl st (List.mem_of_getLast? hst)

end

/-! ## Paths -/

/-- Names stay sound and the invariant holds, whether the run succeeds or not. -/
abbrev Resolving.Preserves (I : Scope → Prop) {α : Type} (x : Resolving α) : Prop :=
  Keeps (fun s => s.aliases.Sound ∧ I s) x fun _ => True

namespace Scope.Invariant

variable {K : JoinKind → Prop} {I : Scope → Prop} {kind : JoinKind}

theorem foldl (h : Invariant K I) (hk : K kind) {s : Scope} {steps : List JoinStep}
    (hs : ∀ st ∈ steps, st.tableAlias ∈ s.aliases.used) (hi : I s) :
    I (steps.foldl (Scope.addStep kind) s) := by
  induction steps generalizing s with
  | nil => exact hi
  | cons st steps ih =>
    have hsame : (s.addStep kind st).aliases = s.aliases := Scope.foldl_addStep_aliases kind s [st]
    rw [List.forall_mem_cons] at hs
    exact ih (by rw [hsame]; exact hs.2) (h.step s kind st hk hs.1 hi)

theorem ofResult {α : Type} (r : Result α) : Resolving.Preserves I (Resolving.ofResult r) :=
  Keeps.ofResult fun _ _ => trivial

/-- Names are given out, then joins of these names are brought. -/
theorem named (h : Invariant K I) (hk : K kind) {α β : Type} {n : Naming α}
    {stepsOf : α → List JoinStep} {g : α → β}
    (hn : ∀ a r b, a.Sound → outcome n a = (r, b) →
      Grown a b ∧ ∀ out, r = .ok out → ∀ st ∈ stepsOf out, st.tableAlias ∈ b.used) :
    Resolving.Preserves I (do
      let out ← Resolving.naming n
      addSteps kind (stepsOf out)
      return g out) := by
  rintro s ⟨hs, hi⟩
  rw [outcome_bind, outcome_naming]
  rcases ho : outcome n s.aliases with ⟨r, b⟩
  obtain ⟨hgrown, hused⟩ := hn _ _ _ hs ho
  have hb : I { s with aliases := b } := h.names s b hgrown.2 hi
  refine ⟨?_, fun _ _ => trivial⟩
  cases r with
  | error e => exact ⟨hgrown.1, hb⟩
  | ok out =>
    change ((stepsOf out).foldl (Scope.addStep kind) { s with aliases := b }).aliases.Sound ∧
      I ((stepsOf out).foldl (Scope.addStep kind) { s with aliases := b })
    rw [Scope.foldl_addStep_aliases]
    exact ⟨hgrown.1, h.foldl hk (hused out rfl) hb⟩

theorem joinChain (h : Invariant K I) (hk : K kind) (x : String) (chain : List (Hop ι)) :
    Resolving.Preserves I (joinChain schema x chain kind) :=
  h.named hk fun _ _ _ => chain_used

theorem joinRelation (h : Invariant K I) (hk : K kind) (x : String) (m : ι) (f : FieldDef ι) :
    Resolving.Preserves I (joinRelation schema x m f kind) :=
  h.named hk fun _ _ _ => hop_used

/-- The key behind a relation is found once the relation is joined. -/
theorem joinKey (h : Invariant K I) (hk : K kind) (x : String) (m : ι) (f : FieldDef ι) {α : Type}
    (g : String → FieldDef ι → ι → α) : Resolving.Preserves I (do
      let y ← Orm.joinRelation schema x m f kind
      let target ← Resolving.ofResult (targetOf schema m f)
      let pk ← Resolving.ofResult (schema target).pk
      return g y pk target) :=
  (h.joinRelation hk x m f).bind fun _ _ => (ofResult _).bind fun _ _ =>
    (ofResult _).bind fun _ _ => Keeps.of_pure trivial

theorem resolvePath (h : Invariant K I) (hl : K .left) {inner : Bool} (hi : inner = true → K .inner)
    (path : String) : Resolving.Preserves I (resolvePath schema root path inner) := by
  unfold Orm.resolvePath
  refine (ofResult _).bind fun w _ => ?_
  split
  · exact Keeps.of_throw
  · refine (h.joinChain ?_ _ _).bind fun hops _ => ?_
    · split
      · rename_i hinner
        exact hi (Bool.and_eq_true_iff.1 hinner).1
      · exact hl
    · dsimp only
      split
      · exact Keeps.of_pure trivial
      · exact h.joinKey hl _ _ _ fun y pk _ => [y, pk.column]

theorem resolveLeft (h : Invariant K I) (hl : K .left) (path : String) :
    Resolving.Preserves I (Orm.resolvePath schema root path false) :=
  h.resolvePath hl (fun hi => absurd hi Bool.false_ne_true) path

/-- Both sides of a condition are joined from the left, also where a side fails. -/
theorem explicitCondition (h : Invariant K I) (hl : K .left) (condition : Option JoinCondition) :
    Keeps (fun s => s.aliases.Sound ∧ I s) (explicitCondition schema root condition)
      fun on => ∀ c, on = some c → c.operator ∈ joinOperators := by
  unfold Orm.explicitCondition
  split
  · rename_i c
    rw [map_eq_pure_bind]
    refine Keeps.bind (Q := fun on : OnCondition => on.operator ∈ joinOperators) ?_
      fun on hon => Keeps.of_pure fun c' hc' => Option.some.inj hc' ▸ hon
    unfold resolveCondition
    split
    · exact Keeps.of_throw
    · rename_i op hop
      exact ((h.resolveLeft hl c.left).orElse trivial).bind fun _ _ =>
        ((h.resolveLeft hl c.right).orElse trivial).bind fun _ _ =>
          Keeps.of_pure (joinOperator?_mem hop)
  · exact Keeps.of_pure nofun

theorem followRelation (h : Invariant K I) (hk : K kind) (w : Walk ι) (f : FieldDef ι) :
    Resolving.Preserves I (followRelation schema root kind w f) :=
  (h.joinChain hk _ _).bind fun _ _ => h.joinRelation hk _ _ _

/-! ## Projection -/

theorem projectPath (h : Invariant K I) (hl : K .left) (dedupe : Bool) (s : ScanPlan ι)
    (path : String) : Resolving.Preserves I (projectPath schema root dedupe s path) := by
  unfold Orm.projectPath
  refine (ofResult _).bind fun w _ => (h.joinChain hl _ _).bind fun hops _ => ?_
  dsimp only
  split
  · exact Keeps.of_pure trivial
  · rename_i n _
    split
    · exact Keeps.of_pure trivial
    · rename_i f _
      split
      · exact Keeps.of_pure trivial
      · exact h.joinKey hl _ _ _ fun y pk target =>
          ((ensureChain schema s 0 (w.chain.zip hops)).1.ensureNode _ f target y).1.project
            ((ensureChain schema s 0 (w.chain.zip hops)).1.ensureNode _ f target y).2 pk dedupe

theorem projectPaths (h : Invariant K I) (hl : K .left) (dedupe : Bool) :
    ∀ (paths : List String) (s : ScanPlan ι),
      Resolving.Preserves I (projectPaths schema root dedupe s paths)
  | [], _ => Keeps.of_pure trivial
  | path :: rest, s => (h.projectPath hl dedupe s path).bind fun s' _ =>
      h.projectPaths hl dedupe rest s'

theorem projection (h : Invariant K I) (hl : K .left) (dedupe : Bool) (paths : List String) :
    Resolving.Preserves I (projection schema root dedupe paths) := by
  unfold Orm.projection
  dsimp only
  split
  · exact Keeps.of_pure trivial
  · exact h.projectPaths hl dedupe paths _

end Scope.Invariant

/-! ## Explicit joins -/

namespace Scope.ExplicitInvariant

variable {I : Scope → Prop} {joins : List ExplicitJoin} {s t : Scope}

theorem addExplicit {j : ExplicitJoin} (h : ExplicitInvariant schema root joins I) (hj : j ∈ joins)
    (hs : s.aliases.Sound) (hi : I s) (hy : Yields (addExplicit schema root j) s ⟨⟩ t) :
    t.aliases.Sound ∧ I t := by
  rw [addExplicit_eq] at hy
  obtain ⟨condition, u, hc, ht⟩ := Yields.bind_iff.1 hy
  obtain ⟨⟨hu, hi⟩, hknown⟩ := (h.explicitCondition trivial j.condition).of_yields ⟨hs, hi⟩ hc
  unfold joinTarget at ht
  split at ht
  · rename_i w f hrel
    obtain ⟨y, v, hf, hm⟩ := Yields.bind_iff.1 ht
    obtain ⟨⟨hv, hi⟩, -⟩ := (h.followRelation trivial w f).of_yields ⟨hu, hi⟩ hf
    obtain ⟨hops, v', hjc, hjr⟩ := Yields.bind_iff.1 hf
    obtain ⟨⟨hv', -⟩, -⟩ := (h.joinChain trivial _ _).of_yields ⟨hu, ‹I u›⟩ hjc
    obtain rfl := Yields.modify_iff.1 hm
    cases condition with
    | none => exact ⟨hv, hi⟩
    | some c => exact ⟨hv, h.condition v y c (joinRelation_used hv' hjr) (hknown c rfl) hi⟩
  · rename_i hrel
    split at ht
    · exact absurd ht Yields.not_throw
    · rename_i hcond
      obtain rfl := Yields.modify_iff.1 ht
      refine ⟨hu, h.table j hj hrel u condition ?_ hknown hi⟩
      cases condition <;> simp_all

theorem addExplicits (h : ExplicitInvariant schema root joins I) :
    ∀ {some : List ExplicitJoin} {s : Scope}, some ⊆ joins → s.aliases.Sound → I s →
      Yields (addExplicits schema root some) s ⟨⟩ t → t.aliases.Sound ∧ I t
  | [], _, _, hs, hi, hy => by
    obtain ⟨-, rfl⟩ := Yields.pure_iff.1 hy
    exact ⟨hs, hi⟩
  | j :: rest, _, hsub, hs, hi, hy => by
    obtain ⟨⟨⟩, u, hj, hrest⟩ := Yields.bind_iff.1 hy
    obtain ⟨hu, hi⟩ := h.addExplicit (hsub List.mem_cons_self) hs hi hj
    exact h.addExplicits (fun i hi => hsub (List.mem_cons_of_mem j hi)) hu hi hrest

end Scope.ExplicitInvariant

/-! ## Stages -/

section

variable {I : Scope → Prop} {p : Plan ι} {s t : Scope}

/-- What an invariant says of two scopes one of which follows the other. -/
def Scope.Preserved (I : Scope → Prop) (s t : Scope) : Prop :=
  s.aliases.Sound ∧ I s → t.aliases.Sound ∧ I t

instance : Std.Refl (Scope.Preserved I) where
  refl _ h := h

instance : IsTrans Scope (Scope.Preserved I) where
  trans _ _ _ h h' hs := h' (h hs)

theorem Scope.Invariant.advances (h : Scope.Invariant (fun _ => True) I) (path : String)
    (inner : Bool) :
    Advances (Scope.Preserved I) (Orm.resolvePath schema root path inner) fun _ _ => True :=
  fun _ _ _ hy => ⟨fun hs => ((h.resolvePath trivial (fun _ => trivial) path).of_yields hs hy).1,
    fun _ _ => trivial⟩

/-- An invariant that holds once the columns are projected holds of the whole query. -/
theorem Plan.Stages.preserved_projected {paths : List String} {asNested dedupe : Bool}
    {r : ResolvedSelect ι} (h : Scope.Invariant (fun _ => True) I)
    (st : p.Stages schema paths asNested dedupe s r t) : Scope.Preserved I st.projected t := by
  intro hs
  have hs := (resolveNamed_advances (fun path => h.advances path false) p.annotations
    (fun l _ _ => h.advances l.path true) _ _ _ st.annotations).1 hs
  have hs := (resolveFilters_advances (fun path => h.advances path false) p.filters
    (fun l _ _ => h.advances l.path true) _ _ _ st.filters).1 hs
  exact ((Advances.mapM fun item _ => resolveOrderingItem_advances
    (fun path => h.advances path false) _ item) _ _ _ st.ordering).1 hs

/-- An invariant that the explicit joins have established holds of the whole query. -/
theorem Plan.Stages.preserved {paths : List String} {asNested dedupe : Bool} {r : ResolvedSelect ι}
    (h : Scope.Invariant (fun _ => True) I) (st : p.Stages schema paths asNested dedupe s r t) :
    Scope.Preserved I st.explicit t := fun hs =>
  st.preserved_projected h ((h.projection trivial dedupe paths).of_yields hs st.projection).1

end

end Orm
