import Orm.Proofs.Place.Query
import Orm.Proofs.Scope.Invariant

/-
The kinds of explicit joins, and which joins have a condition.

A relation is joined by what reaches it first, and with that kind. The condition of an explicit join is
resolved before its target is followed, so a condition that crosses the target joins it from the left,
whatever kind is asked for (`Plan.Scoped.kind`). The join of a relation always compares its columns; only
a table that the query names itself is joined without a condition, by a cross join
(`Plan.Scoped.conditions`).
-/

namespace Orm

variable {ι : Type} {schema : Schema ι} {root : ι} {s t : Scope}

/-! ## Joins of one name -/

/-- Joins of this name are in scope, all of one kind. -/
structure Scope.Settled (y : String) (kind : JoinKind) (s : Scope) : Prop where
  present : y ∈ s.names
  kinds : ∀ x ∈ s.joins, x.tableAlias = y → x.kind = kind

/-- Joins of this name, if there are any, are of one kind. -/
def Scope.AllOfKind (y : String) (kind : JoinKind) (s : Scope) : Prop :=
  ∀ x ∈ s.joins, x.tableAlias = y → x.kind = kind

theorem mem_addCondition {y : String} {c : OnCondition} {x : Join} : ∀ {joins : List Join},
    x ∈ addCondition y c joins →
      x ∈ joins ∨ ∃ j ∈ joins, j.tableAlias = y ∧ x = { j with on := j.on ++ [c] }
  | [], h => .inl h
  | j :: rest, h => by
    rw [addCondition] at h
    split at h
    · rename_i hj
      rcases List.mem_cons.1 h with rfl | h
      · exact .inr ⟨j, List.mem_cons_self, hj, rfl⟩
      · exact .inl (List.mem_cons_of_mem j h)
    · rcases List.mem_cons.1 h with rfl | h
      · exact .inl List.mem_cons_self
      · refine (mem_addCondition h).imp (List.mem_cons_of_mem j) ?_
        rintro ⟨i, hi, hy, rfl⟩
        exact ⟨i, List.mem_cons_of_mem j hi, hy, rfl⟩

theorem Scope.mem_addStep {kind : JoinKind} {st : JoinStep} {x : Join}
    (h : x ∈ (s.addStep kind st).joins) : x ∈ s.joins ∨ st.tableAlias ∉ s.names ∧ x = st.join kind := by
  by_cases hst : st.tableAlias ∈ s.names
  · rw [Scope.addStep_of_mem hst] at h
    exact .inl h
  · rw [Scope.addStep_of_not_mem hst] at h
    exact (List.mem_append.1 h).imp_right fun h => ⟨hst, List.mem_singleton.1 h⟩

theorem Scope.names_subset_addStep (s : Scope) (kind : JoinKind) (st : JoinStep) :
    s.names ⊆ (s.addStep kind st).names := by
  by_cases hst : st.tableAlias ∈ s.names
  · rw [Scope.addStep_of_mem hst]
    exact List.Subset.refl _
  · rw [Scope.addStep_of_not_mem hst, Scope.names, Scope.names, List.map_append]
    exact List.subset_append_left _ _

namespace Scope.Settled

variable {y : String} {kind : JoinKind}

theorem addCondition (h : s.Settled y kind) (z : String) (c : OnCondition) :
    Scope.Settled y kind { s with joins := addCondition z c s.joins } where
  present := by
    rw [Scope.names, names_addCondition]
    exact h.present
  kinds x hx hy := by
    rcases mem_addCondition hx with hx | ⟨j, hj, -, rfl⟩
    · exact h.kinds x hx hy
    · exact h.kinds j hj hy

theorem conditionOn (h : s.Settled y kind) (z : String) (condition : Option OnCondition) :
    (Orm.conditionOn z condition s).Settled y kind := by
  cases condition with
  | none => exact h
  | some c => exact h.addCondition z c

/-- A name that is taken stays with its joins. -/
theorem invariant (y : String) (kind : JoinKind) : Invariant (fun _ => True) (Settled y kind) where
  names _ _ _ h := ⟨h.present, h.kinds⟩
  step s k st _ _ h := by
    refine ⟨s.names_subset_addStep k st h.present, fun x hx hy => ?_⟩
    rcases mem_addStep hx with hx | ⟨hst, rfl⟩
    · exact h.kinds x hx hy
    · obtain rfl : st.tableAlias = y := hy
      exact absurd h.present hst

theorem explicitInvariant {joins : List ExplicitJoin} (kind : JoinKind)
    (hy : ∀ j ∈ joins, joinedRelation? schema root j.target = none → j.target ≠ y) :
    ExplicitInvariant schema root joins (Settled y kind) where
  toInvariant := invariant y kind
  condition _ z c _ _ h := h.addCondition z c
  table j hj hrel s condition _ _ h := by
    refine ⟨?_, fun x hx hx' => ?_⟩
    · rw [joinTable, Scope.names, List.map_append]
      exact List.mem_append_left _ h.present
    · rcases List.mem_append.1 hx with hx | hx
      · exact h.kinds x hx hx'
      · obtain rfl := List.mem_singleton.1 hx
        exact absurd hx' (hy j hj hrel)

end Scope.Settled

theorem Scope.allOfKind_invariant (y : String) (kind : JoinKind) :
    Scope.Invariant (· = kind) (Scope.AllOfKind y kind) where
  names _ _ _ h := h
  step s k st hk _ h x hx hy := by
    rcases Scope.mem_addStep hx with hx | ⟨-, rfl⟩
    · exact h x hx hy
    · exact hk

theorem Scope.extends_invariant (a : Aliases) :
    Scope.Invariant (fun _ => True) fun s => Aliases.Extends a s.aliases where
  names _ _ he h := h.trans he
  step s kind st _ _ h := by
    have hsame : (s.addStep kind st).aliases = s.aliases := Scope.foldl_addStep_aliases kind s [st]
    rwa [hsame]

/-! ## Texts of queries -/

variable {p : Plan ι} {sql : Sql}

/-- The tables that resolving a SELECT of the given paths leaves in scope. -/
def Plan.scopeOf (schema : Schema ι) (p : Plan ι) (paths : List String) (asNested dedupe : Bool) :
    Scope :=
  (outcome (p.resolve schema paths asNested dedupe) {}).2

/-- The texts that a query is compiled to, alone or nested in another, with the tables in scope. -/
inductive Plan.Text (schema : Schema ι) (p : Plan ι) : Scope → Sql → Prop
  | select {c : Compiled ι} (h : compileSelect schema p = .ok c) :
    Text schema p (p.scopeOf schema p.select false true) c.statement.sql
  | values {paths : List String} {c : Compiled ι} (h : compileValues schema p paths = .ok c) :
    Text schema p (Plan.scopeOf schema { p with annotations := [] } paths false false)
      c.statement.sql
  | countRows {c : Compiled ι} (h : compileCount schema p = .ok c)
    (hp : (p.paged || p.distinct) = true) :
    Text schema p (p.unordered.scopeOf schema p.select true true) c.statement.sql
  | count {c : Compiled ι} (h : compileCount schema p = .ok c)
    (hp : (p.paged || p.distinct) = false) : Text schema p (p.conditions schema).2 c.statement.sql
  | update {x : Instance ι} {c : Compiled ι} (h : compileUpdate schema p x = .ok c) :
    Text schema p (p.conditions schema).2 c.statement.sql
  | delete {c : Compiled ι} (h : compileDelete schema p = .ok c) :
    Text schema p (p.conditions schema).2 c.statement.sql
  | nested {depth : Nat} {args args' : List Value} {sql : Sql}
    (h : Yields (Plan.writeNested schema depth p) args sql args') :
    Text schema p (p.scopeOf schema p.select true true) sql

/-- The tables in scope of a text: first those of the explicit joins, then those that paths reach. -/
def Plan.Scoped (schema : Schema ι) (p : Plan ι) (t : Scope) : Prop :=
  ∃ s, Yields (addExplicits schema p.model p.joins) {} ⟨⟩ s ∧
    ∀ I, Scope.Invariant (fun _ => True) I → Scope.Preserved I s t

theorem Plan.writeSelect_scoped {nested : Plan ι → Binding Sql} {paths : List String}
    {asNested dedupe : Bool} {args args' : List Value} {out : Sql × ScanPlan ι}
    (h : Yields (p.writeSelect schema nested paths asNested dedupe) args out args') :
    p.Scoped schema (p.scopeOf schema paths asNested dedupe) ∧
      joinsSql (p.scopeOf schema paths asNested dedupe).joins <:+: out.1 := by
  obtain ⟨r, t, computed, mid, predicates, hr, -, -, rfl⟩ := Plan.writeSelect_cases h
  obtain ⟨-, ⟨st⟩⟩ := Plan.stages hr
  have ht : p.scopeOf schema paths asNested dedupe = t := congrArg Prod.snd hr
  rw [ht]
  refine ⟨⟨st.explicit, st.joins, fun I hI => st.preserved hI⟩, ?_⟩
  exact ((List.infix_append _ _ _).trans (List.prefix_append _ (orderingSql r.ordering)).isInfix).trans
    (List.prefix_append _ (pagingSql p.limit p.offset)).isInfix

theorem Plan.conditions_scoped {filters : List (Expression ι)}
    (h : Yields (p.resolveConditions schema) {} filters t) :
    (p.conditions schema).2 = t ∧ p.Scoped schema t := by
  refine ⟨congrArg Prod.snd h, ?_⟩
  obtain ⟨⟨⟩, s, hj, hf⟩ := Yields.bind_iff.1 h
  exact ⟨s, hj, fun I hI => (resolveFilters_advances (fun path => hI.advances path false) p.filters
    (fun l _ _ => hI.advances l.path true) _ _ _ hf).1⟩

theorem writeWhere_scoped {args args' : List Value}
    (h : Yields (writeWhere schema p) args (some sql) args') :
    p.Scoped schema (p.conditions schema).2 ∧ joinsSql (p.conditions schema).2.joins <:+: sql := by
  obtain ⟨filters, t, predicates, hr, -, hsql⟩ := writeWhere_cases h
  obtain ⟨rfl, ht⟩ := Plan.conditions_scoped hr
  refine ⟨ht, ?_⟩
  obtain ⟨hnone, rfl⟩ | ⟨pk, -, rfl⟩ := hsql
  · rw [hnone]
    exact List.nil_infix
  · exact (List.infix_append _ _ (whereSql predicates)).trans (List.prefix_append _ _).isInfix

/-- Every text of a query has the joins in scope in it. -/
theorem Plan.Text.scoped (h : p.Text schema t sql) :
    p.Scoped schema t ∧ joinsSql t.joins <:+: sql := by
  cases h with
  | select h =>
    obtain ⟨sql, scan, args, hw, rfl⟩ := compileSelect_cases h
    exact Plan.writeSelect_scoped hw
  | values h =>
    obtain ⟨sql, scan, args, hw, rfl⟩ := compileValues_cases h
    obtain ⟨ht, hi⟩ := Plan.writeSelect_scoped hw
    exact ⟨ht, hi⟩
  | countRows h hp =>
    obtain ⟨-, sql, args, hy, rfl⟩ := compileCount_cases h
    rw [if_pos hp] at hy
    obtain ⟨sub, scan, hs, rfl⟩ := writeCountNested_cases hy
    obtain ⟨ht, hi⟩ := Plan.writeSelect_scoped hs
    exact ⟨ht, hi.trans (List.infix_append _ _ _)⟩
  | count h hp =>
    obtain ⟨-, sql, args, hy, rfl⟩ := compileCount_cases h
    rw [hp, if_neg Bool.false_ne_true] at hy
    obtain ⟨filters, t, predicates, hr, -, rfl⟩ := writeCountPlain_cases hy
    obtain ⟨rfl, ht⟩ := Plan.conditions_scoped hr
    exact ⟨ht, List.infix_append _ _ _⟩
  | update h =>
    obtain ⟨fields, sets, mid, predicate, args, -, -, hw, rfl⟩ := compileUpdate_cases h
    obtain ⟨ht, hi⟩ := writeWhere_scoped hw
    exact ⟨ht, hi.trans (List.suffix_append _ _).isInfix⟩
  | delete h =>
    obtain ⟨predicate, args, hw, rfl⟩ := compileDelete_cases h
    obtain ⟨ht, hi⟩ := writeWhere_scoped hw
    exact ⟨ht, hi.trans (List.suffix_append _ _).isInfix⟩
  | nested h =>
    rename_i depth args args'
    cases depth with
    | zero => exact absurd h Yields.not_throw
    | succ depth =>
      unfold Plan.writeNested at h
      obtain ⟨⟨sub, scan⟩, _, hw, hp⟩ := Yields.bind_iff.1 h
      obtain ⟨rfl, -⟩ := Yields.pure_iff.1 hp
      exact Plan.writeSelect_scoped hw

/-! ## Conditions -/

/-- The tables that the explicit joins of a query name themselves. -/
def Plan.namedTables (schema : Schema ι) (p : Plan ι) : List String :=
  (p.joins.filter fun j => (joinedRelation? schema p.model j.target).isNone).map (·.target)

theorem Plan.mem_namedTables {j : ExplicitJoin} (hj : j ∈ p.joins)
    (h : joinedRelation? schema p.model j.target = none) : j.target ∈ p.namedTables schema :=
  List.mem_map_of_mem (List.mem_filter.2 ⟨hj, by simp [h]⟩)

theorem Plan.Scoped.of_explicit {I : Scope → Prop} (h : p.Scoped schema t)
    (hI : Scope.ExplicitInvariant schema p.model p.joins I) (hi : I {}) : I t := by
  obtain ⟨s, hs, hlater⟩ := h
  have hs' := hI.addExplicits (List.Subset.refl p.joins) Aliases.sound_empty hi hs
  exact (hlater I hI.toInvariant hs').2

/-- A join without a condition is a cross join with a table that the query names. -/
theorem Plan.Scoped.conditions (h : p.Scoped schema t) {x : Join} (hx : x ∈ t.joins)
    (hon : x.on = []) : x.kind = .cross ∧ x.tableAlias ∈ p.namedTables schema := by
  refine h.of_explicit (I := fun s => ∀ x ∈ s.joins, x.on = [] →
    x.kind = .cross ∧ x.tableAlias ∈ p.namedTables schema) ?_ (by simp) x hx hon
  refine ⟨⟨fun _ _ _ h => h, fun s kind st _ _ h x hx hon => ?_⟩, fun s y c _ _ h x hx hon => ?_,
    fun j hj hrel s condition hcond _ h x hx hon => ?_⟩
  · rcases Scope.mem_addStep hx with hx | ⟨-, rfl⟩
    · exact h x hx hon
    · cases hon
  · rcases mem_addCondition hx with hx | ⟨j, -, -, rfl⟩
    · exact h x hx hon
    · simp at hon
  · rcases List.mem_append.1 hx with hx | hx
    · exact h x hx hon
    · obtain rfl := List.mem_singleton.1 hx
      refine ⟨?_, Plan.mem_namedTables hj hrel⟩
      by_contra hne
      cases condition <;> simp_all

/-- A cross join with a table that the query names has no condition. -/
theorem Plan.Scoped.cross (h : p.Scoped schema t)
    (hc : ∀ y ∈ p.namedTables schema, y ∉ t.aliases.used) {x : Join} (hx : x ∈ t.joins)
    (hkind : x.kind = .cross) (hname : x.tableAlias ∈ p.namedTables schema) : x.on = [] := by
  refine h.of_explicit (I := fun s => (∀ y ∈ p.namedTables schema, y ∉ s.aliases.used) →
    ∀ x ∈ s.joins, x.kind = .cross → x.tableAlias ∈ p.namedTables schema → x.on = [])
    ?_ (by simp) hc x hx hkind hname
  refine ⟨⟨fun s a he h hc => ?_, fun s kind st _ hst h hc x hx hkind hname => ?_⟩,
    fun s y c hy _ h hc x hx hkind hname => ?_,
    fun j hj hrel s condition hcond _ h hc x hx hkind hname => ?_⟩
  · exact h fun y hy hu => hc y hy (he.used hu)
  · have hsame : (s.addStep kind st).aliases = s.aliases := Scope.foldl_addStep_aliases kind s [st]
    rw [hsame] at hc
    rcases Scope.mem_addStep hx with hx | ⟨-, rfl⟩
    · exact h hc x hx hkind hname
    · exact absurd hst (hc _ hname)
  · rcases mem_addCondition hx with hx | ⟨j, -, rfl, rfl⟩
    · exact h hc x hx hkind hname
    · exact absurd hy (hc _ hname)
  · rcases List.mem_append.1 hx with hx | hx
    · exact h hc x hx hkind hname
    · obtain rfl := List.mem_singleton.1 hx
      exact if_pos hkind

/-! ## Kinds -/

theorem addExplicits_append (before after : List ExplicitJoin) :
    addExplicits schema root (before ++ after) =
      addExplicits schema root before >>= fun _ => addExplicits schema root after := by
  induction before with
  | nil => rfl
  | cons j before ih =>
    rw [List.cons_append, addExplicits, addExplicits, ih, bind_assoc]

section

variable [DecidableEq ι] {others : List String} {joined : List (List (Hop ι))} {α : Type}

/-- The joins that lead to a place are made, and they are of one kind. -/
def SettledAt (schema : Schema ι) (root : ι) (s : Scope) (c : List (Hop ι)) (kind : JoinKind) :
    Prop :=
  Placed schema root s.aliases c ∧
    ∀ st ∈ s.aliases.placeSteps schema root c, s.Settled st.tableAlias kind

omit [DecidableEq ι] in
theorem SettledAt.mono {c : List (Hop ι)} {kind : JoinKind} (h : SettledAt schema root s c kind)
    (he : Aliases.Extends s.aliases t.aliases)
    (hkeep : ∀ st ∈ s.aliases.placeSteps schema root c,
      s.Settled st.tableAlias kind → t.Settled st.tableAlias kind) :
    SettledAt schema root t c kind := by
  obtain ⟨hplaced, hset⟩ := h
  refine ⟨hplaced.extend he, fun st hst => ?_⟩
  rw [hplaced.placeSteps_eq he] at hst
  exact hkeep st hst (hset st hst)

/-- A run whose joins are all of one kind settles the places that it is the first to visit. -/
theorem Covers.settles {x : Resolving α} {visits : List (Visit ι)} {kind : JoinKind}
    (h : Covers schema root others x visits) (hk : JoinKeysDistinct schema)
    (honly : ∀ y, Resolving.Preserves (Scope.AllOfKind y kind) x)
    (hm : Mapped schema root others s joined) {a : α} (hy : Yields x s a t)
    (hc : Clean schema root others t.aliases) {c : List (Hop ι)} {g : Hop ι}
    (hfirst : c ++ [g] ∉ joined) (hvisit : ∃ v ∈ visits, v.place = c ++ [g]) :
    SettledAt schema root t (c ++ [g]) kind := by
  have hm' := h.mapped s joined a t hm hy hc
  have hmem : c ++ [g] ∈ joinedAfter joined visits := mem_joinedAfter.2 (.inr hvisit)
  have hplaced := hm'.placed _ hmem
  refine ⟨hplaced, fun st hst => ⟨hm'.present _ hmem st hst, ?_⟩⟩
  have hfresh : st.tableAlias ∉ s.names :=
    (hm.name hm'.sound (h.grows.extends hm.sound hy)).fresh hk hc hplaced hfirst st hst
  have hnone : s.AllOfKind st.tableAlias kind := fun x hx he =>
    absurd (List.mem_map.2 ⟨x, hx, he⟩) hfresh
  exact ((honly st.tableAlias).of_yields ⟨hm.sound, hnone⟩ hy).1.2

/-- An explicit join settles the relation that it is the first to reach, by its kind, or from the left if
its own condition crosses the relation. -/
theorem followRelation_settles (hk : JoinKeysDistinct schema) {j : ExplicitJoin} {w : Walk ι}
    {f : FieldDef ι} {r : Relation ι} (hr : f.relation = some r)
    (hl : Leads schema root (w.chain ++ [⟨w.model, f, r⟩]) r.target) {u : Scope}
    (hm : Mapped schema root others s joined) {on : Option OnCondition} {y : String}
    (hcond : Yields (explicitCondition schema root j.condition) s on u)
    (hfollow : Yields (followRelation schema root j.kind w f) u y t)
    (hc : Clean schema root others t.aliases) (hfirst : w.chain ++ [⟨w.model, f, r⟩] ∉ joined) :
    SettledAt schema root t (w.chain ++ [⟨w.model, f, r⟩])
      (if ∃ v ∈ conditionVisits schema root j.condition, v.place = w.chain ++ [⟨w.model, f, r⟩]
        then .left else j.kind) := by
  have hcovC : Covers schema root others (explicitCondition schema root j.condition) _ :=
    explicitCondition_covers hk _
  have hcovF : Covers schema root others (followRelation schema root j.kind w f) _ :=
    followRelation_covers hk hr hl j.kind
  have hsound := hcovC.grows.sound hm.sound hcond
  have hextends := hcovF.grows.extends hsound hfollow
  have hclean := hc.of_extends hextends
  split
  case isTrue hvisit =>
    have hleft : ∀ z, Resolving.Preserves (Scope.AllOfKind z .left)
        (explicitCondition schema root j.condition) := fun z =>
      ((Scope.allOfKind_invariant z .left).explicitCondition rfl j.condition).imp fun _ _ => trivial
    refine (hcovC.settles hk hleft hm hcond hclean hfirst hvisit).mono hextends fun st _ hset => ?_
    exact (((Scope.Settled.invariant _ _).followRelation trivial w f).of_yields
      ⟨hsound, hset⟩ hfollow).1.2
  case isFalse hvisit =>
    refine hcovF.settles hk (fun z => (Scope.allOfKind_invariant z j.kind).followRelation rfl w f)
      (hcovC.mapped _ _ _ _ hm hcond hclean) hfollow hc (fun hmem => ?_) ?_
    · exact (mem_joinedAfter.1 hmem).elim hfirst hvisit
    · exact ⟨⟨j.kind, _⟩, List.mem_map_of_mem (mem_placesFrom.2 (by simp)), rfl⟩

/-- The relation that an explicit join is the first to reach is joined by that kind, or from the left
if the join's own condition crosses the relation. -/
theorem Plan.Scoped.kind (hk : JoinKeysDistinct schema) (h : p.Scoped schema t)
    (hc : Clean schema p.model (p.namedTables schema) t.aliases) {before after : List ExplicitJoin}
    {j : ExplicitJoin} (hj : p.joins = before ++ j :: after) {w : Walk ι} {f : FieldDef ι}
    {r : Relation ι} (hrel : joinedRelation? schema p.model j.target = some (w, f))
    (hr : f.relation = some r)
    (hfirst : ∀ v ∈ before.flatMap (ExplicitJoin.visits schema p.model),
      v.place ≠ w.chain ++ [⟨w.model, f, r⟩]) :
    SettledAt schema p.model t (w.chain ++ [⟨w.model, f, r⟩])
      (if ∃ v ∈ conditionVisits schema p.model j.condition, v.place = w.chain ++ [⟨w.model, f, r⟩]
        then .left else j.kind) := by
  obtain ⟨s, hs, hlater⟩ := h
  rw [hj, addExplicits_append] at hs
  obtain ⟨⟨⟩, s₀, hbefore, hs⟩ := Yields.bind_iff.1 hs
  obtain ⟨⟨⟩, s₃, hs, hafter⟩ := Yields.bind_iff.1 hs
  rw [addExplicit_eq] at hs
  obtain ⟨condition, s₁, hcond, hs⟩ := Yields.bind_iff.1 hs
  rw [joinTarget, hrel] at hs
  obtain ⟨y, s₂, hfollow, hs⟩ := Yields.bind_iff.1 hs
  obtain rfl := Yields.modify_iff.1 hs
  have hraw : ∀ i ∈ before ++ j :: after, joinedRelation? schema p.model i.target = none →
      i.target ∈ p.namedTables schema := fun i hi => Plan.mem_namedTables (hj ▸ hi)
  have hcov : ∀ joins : List ExplicitJoin, (∀ i ∈ joins, i ∈ before ++ j :: after) →
      Covers schema p.model (p.namedTables schema) (addExplicits schema p.model joins)
        (joins.flatMap (ExplicitJoin.visits schema p.model)) :=
    fun _ hsub => addExplicits_covers hk fun i hi => hraw i (hsub i hi)
  have hbefore' := hcov before fun i hi => by simp [hi]
  have hafter' := hcov after fun i hi => by simp [hi]
  obtain ⟨hw, hf, -⟩ := joinedRelation?_eq_some hrel
  obtain ⟨-, -, hl, hmem⟩ := walk_ok hw
  have hl : Leads schema p.model (w.chain ++ [⟨w.model, f, r⟩]) r.target :=
    hl.append ⟨rfl, hmem f hf, hr, rfl⟩
  have hgrowsC : Grows (explicitCondition schema p.model j.condition) :=
    (explicitCondition_covers hk j.condition : Covers schema p.model [] _ _).grows
  have hgrowsF : Grows (followRelation schema p.model j.kind w f) :=
    (followRelation_covers hk hr hl j.kind : Covers schema p.model [] _ _).grows
  -- the names that each run gives out stay, up to those of the whole query
  have sound₀ := hbefore'.grows.sound Aliases.sound_empty hbefore
  have sound₁ := hgrowsC.sound sound₀ hcond
  have sound₂ := hgrowsF.sound sound₁ hfollow
  have same : (conditionOn y condition s₂).aliases = s₂.aliases := by cases condition <;> rfl
  have sound₃ : (conditionOn y condition s₂).aliases.Sound := same.symm ▸ sound₂
  have ext₃ := hafter'.grows.extends sound₃ hafter
  rw [same] at ext₃
  have soundₛ := hafter'.grows.sound sound₃ hafter
  obtain ⟨-, ext₂⟩ := hlater _ (Scope.extends_invariant s₂.aliases) ⟨soundₛ, ext₃⟩
  have clean₂ := hc.of_extends ext₂
  have clean₀ := (clean₂.of_extends (hgrowsF.extends sound₁ hfollow)).of_extends
    (hgrowsC.extends sound₀ hcond)
  have hm₀ := hbefore'.mapped {} [] ⟨⟩ s₀ (Mapped.empty schema p.model _) hbefore clean₀
  have hnot : w.chain ++ [⟨w.model, f, r⟩] ∉
      joinedAfter [] (before.flatMap (ExplicitJoin.visits schema p.model)) := by
    rw [mem_joinedAfter]
    rintro (h | ⟨v, hv, he⟩)
    · exact absurd h List.not_mem_nil
    · exact hfirst v hv he
  have hsettled := followRelation_settles hk hr hl hm₀ hcond hfollow clean₂ hnot
  -- what is settled stays so: later joins neither take its names nor change its kind
  refine hsettled.mono ext₂ fun st hst hset => ?_
  have hused : st.tableAlias ∈ t.aliases.used := ext₂.used (hsettled.1.mem_used sound₂ hst)
  have hother : ∀ i ∈ after, joinedRelation? schema p.model i.target = none →
      i.target ≠ st.tableAlias :=
    fun i hi hnone he => hc.others _ (hraw i (by simp [hi]) hnone) (he ▸ hused)
  have hsetₛ := (Scope.Settled.explicitInvariant _ hother).addExplicits (List.Subset.refl _)
    sound₃ (hset.conditionOn y condition) hafter
  exact (hlater _ (Scope.Settled.invariant _ _) hsetₛ).2

/-! ## Statements -/

/-- The joins in scope are those that the explicit joins ask for, as far as they are. -/
structure Plan.WritesExplicit (schema : Schema ι) (p : Plan ι) (t : Scope) : Prop where
  /-- Only a table that the query names itself, in a cross join, is joined without a condition. -/
  condition : ∀ x ∈ t.joins,
    x.on = [] ↔ x.kind = .cross ∧ x.tableAlias ∈ p.namedTables schema
  /-- The first explicit join to reach a relation gives its kind, unless its own condition crosses
  the relation. -/
  kind : ∀ (before : List ExplicitJoin) (j : ExplicitJoin) (after : List ExplicitJoin) (w : Walk ι)
    (f : FieldDef ι) (r : Relation ι), p.joins = before ++ j :: after →
    joinedRelation? schema p.model j.target = some (w, f) → f.relation = some r →
    (∀ v ∈ before.flatMap (ExplicitJoin.visits schema p.model),
      v.place ≠ w.chain ++ [⟨w.model, f, r⟩]) →
    ReachedByJoins schema p.model t.aliases w.chain ⟨w.model, f, r⟩ ∧
      ∀ st ∈ t.aliases.placeSteps schema p.model (w.chain ++ [⟨w.model, f, r⟩]),
        t.Settled st.tableAlias
          (if ∃ v ∈ conditionVisits schema p.model j.condition,
              v.place = w.chain ++ [⟨w.model, f, r⟩] then .left else j.kind)

/-- In every text of a query the explicit joins are written as `Plan.WritesExplicit` says. -/
theorem compile_explicitJoins (hk : JoinKeysDistinct schema) (h : p.Text schema t sql)
    (hc : Clean schema p.model (p.namedTables schema) t.aliases) :
    joinsSql t.joins <:+: sql ∧ p.WritesExplicit schema t := by
  obtain ⟨ht, hi⟩ := h.scoped
  refine ⟨hi, fun x hx => ⟨ht.conditions hx, fun ⟨hkind, hname⟩ => ?_⟩, ?_⟩
  · exact ht.cross hc.others hx hkind hname
  · intro before j after w f r hj hrel hr hfirst
    obtain ⟨hplaced, hset⟩ := ht.kind hk hc hj hrel hr hfirst
    exact ⟨hplaced.reachedByJoins, hset⟩

end

/-- Todos beside every category, with whoever has to do them and only if they are labelled. -/
def labelledTodos : Plan Sample where
  model := .todo
  select := ["title"]
  joins := [⟨.right, "user", some ⟨"title", "<>", "categories.name"⟩⟩, ⟨.cross, "categories", none⟩,
    ⟨.inner, "tags", none⟩]

theorem labelledTodos_explicitJoins : ∃ c,
    compileSelect Sample.schema labelledTodos = .ok c ∧
    (labelledTodos.scope Sample.schema).joins.map (·.kind) = [.right, .cross, .inner, .inner] ∧
    joinsSql (labelledTodos.scope Sample.schema).joins <:+: c.statement.sql ∧
    labelledTodos.WritesExplicit Sample.schema (labelledTodos.scope Sample.schema) := by
  obtain ⟨c, hc⟩ : ∃ c, compileSelect Sample.schema labelledTodos = .ok c :=
    exists_eq_ok (by decide +kernel)
  have hclean : Clean Sample.schema .todo (labelledTodos.namedTables Sample.schema)
      (labelledTodos.scope Sample.schema).aliases := ⟨by decide +kernel, by decide +kernel⟩
  exact ⟨c, hc, by decide +kernel,
    compile_explicitJoins sample_joinKeysDistinct (.select hc) hclean⟩

/-- Todos named after whoever has to do them. -/
def namesakeTodos : Plan Sample where
  model := .todo
  select := ["id"]
  joins := [⟨.inner, "user", some ⟨"user.name", "=", "title"⟩⟩]

/-- Todos crossed with the people behind them. -/
def crossedTodos : Plan Sample where
  model := .todo
  select := ["id"]
  joins := [⟨.cross, "user", none⟩]

/-- An inner join is written as a left join because its condition names a column of its target, and a
cross join with a relation is written with a condition. -/
theorem explicitJoins_differ :
    (∃ c, compileSelect Sample.schema namesakeTodos = .ok c ∧
      c.statement.sql = [.text "SELECT ", .ident ["todos", "id"], .text " AS ", .ident ["todos_id"],
        .text " FROM ", .ident ["todos"], .text " LEFT JOIN ", .ident ["users"], .text " AS ",
        .ident ["user_id_users_1"], .text " ON ", .ident ["todos", "user_id"], .text " = ",
        .ident ["user_id_users_1", "id"], .text " AND ", .ident ["user_id_users_1", "name"],
        .text " = ", .ident ["todos", "title"]]) ∧
    ∃ c, compileSelect Sample.schema crossedTodos = .ok c ∧
      c.statement.sql = [.text "SELECT ", .ident ["todos", "id"], .text " AS ", .ident ["todos_id"],
        .text " FROM ", .ident ["todos"], .text " CROSS JOIN ", .ident ["users"], .text " AS ",
        .ident ["user_id_users_1"], .text " ON ", .ident ["todos", "user_id"], .text " = ",
        .ident ["user_id_users_1", "id"]] :=
  ⟨⟨_, rfl, rfl⟩, _, rfl, rfl⟩

end Orm
