import Orm.Proofs.Place.Columns

/-
The places that explicit joins visit: those along the relations that they follow, and those along the
paths of their conditions.

A side of a condition that is no path stands for itself, but what its path has joined before it fails
stays joined (`sideVisits`).
-/

namespace Orm

variable {ι α β : Type} {schema : Schema ι} {root : ι}

/-! ## Visits -/

/-- Whether the columns of a relation's joins are found. -/
def Hop.crossable (schema : Schema ι) (h : Hop ι) : Bool := (h.edges schema).toBool

/-- The places that one side of a condition visits. -/
def sideVisits (schema : Schema ι) (root : ι) (side : String) : List (Visit ι) :=
  match walk schema root side with
  | .error _ => []
  | .ok w =>
    if w.field.isSome && w.chain.all (Hop.crossable schema) then
      (placesFrom [] w.chain).map (Visit.mk .left) ++
        (placesFrom w.chain (w.last?.toList.filter (Hop.crossable schema))).map (Visit.mk .left)
    else []

def conditionVisits (schema : Schema ι) (root : ι) : Option JoinCondition → List (Visit ι)
  | none => []
  | some c => sideVisits schema root c.left ++ sideVisits schema root c.right

/-- The places on the way to the relation that an explicit join follows, and the place it leads to. -/
def targetVisits (schema : Schema ι) (root : ι) (j : ExplicitJoin) : List (Visit ι) :=
  match joinedRelation? schema root j.target with
  | none => []
  | some (w, f) =>
    (placesFrom [] (w.chain ++ (f.relation.map (Hop.mk w.model f)).toList)).map (Visit.mk j.kind)

def ExplicitJoin.visits (schema : Schema ι) (root : ι) (j : ExplicitJoin) : List (Visit ι) :=
  conditionVisits schema root j.condition ++ targetVisits schema root j

/-! ## Joins that fail -/

section

variable {others : List String} {s t : Scope} {joined : List (List (Hop ι))}
  {base rest : List (Hop ι)} {kind : JoinKind}

theorem crossable_of_placed {a : Aliases} (h : Placed schema root a (base ++ rest)) :
    rest.all (Hop.crossable schema) = true := by
  refine List.all_eq_true.2 fun g hg => ?_
  obtain ⟨es, hes⟩ := h.joinable.edges g (List.mem_append_right base hg)
  rw [Hop.crossable, hes]
  rfl

/-- A chain that cannot be joined joins nothing. -/
theorem joinChain_failed (hm : Mapped schema root others s joined)
    (hb : base = [] ∨ base ∈ joined) (hl : ∃ m, Leads schema root (base ++ rest) m) {e : Error}
    (ho : outcome (joinChain schema (s.aliases.placeAlias schema root base) rest kind) s =
      (.error e, t)) :
    Mapped schema root others t joined ∧ rest.all (Hop.crossable schema) = false := by
  rw [joinChain, outcome_bind, outcome_naming] at ho
  rcases hn : outcome (Naming.chain schema (s.aliases.placeAlias schema root base) rest) s.aliases
    with ⟨r, b⟩
  rw [hn] at ho
  have hnamed := chain_named hm.sound (hm.placed_base hb) hl hn
  cases r with
  | ok out => cases ho
  | error e =>
    cases ho
    refine ⟨hm.name hnamed.grown.1 hnamed.grown.2, ?_⟩
    obtain ⟨h, hh, hne⟩ := hnamed.error e rfl
    refine List.all_eq_false.2 ⟨h, hh, ?_⟩
    rw [Hop.crossable]
    cases he : h.edges schema with
    | ok es => exact absurd he (hne es)
    | error e => simp [Except.toBool]

/-- A change of the joins that leaves their names. -/
theorem Mapped.of_names (hm : Mapped schema root others s joined) (ha : t.aliases = s.aliases)
    (hn : t.names = s.names) (ht : t.toMany = s.toMany) : Mapped schema root others t joined where
  sound := ha ▸ hm.sound
  placed := ha ▸ hm.placed
  closed := hm.closed
  present := by
    rw [hn, ha]
    exact hm.present
  known := by
    rw [hn, ha]
    exact hm.known
  toMany := ht ▸ hm.toMany

theorem names_addCondition (y : String) (c : OnCondition) : ∀ joins : List Join,
    (addCondition y c joins).map (·.tableAlias) = joins.map (·.tableAlias)
  | [] => rfl
  | j :: rest => by
    rw [addCondition]
    split
    · rfl
    · rw [List.map_cons, List.map_cons, names_addCondition y c rest]

variable [DecidableEq ι]

/-- A chain visits its places if it can be joined, and none otherwise. -/
theorem joinChain_covers (hk : JoinKeysDistinct schema) (hm : Mapped schema root others s joined)
    (hb : base = [] ∨ base ∈ joined) (hl : ∃ m, Leads schema root (base ++ rest) m)
    {r : Result (List String)}
    (ho : outcome (joinChain schema (s.aliases.placeAlias schema root base) rest kind) s = (r, t))
    (hc : Clean schema root others t.aliases) :
    Mapped schema root others t (joinedAfter joined
      (if rest.all (Hop.crossable schema) then (placesFrom base rest).map (Visit.mk kind)
        else [])) := by
  cases r with
  | ok hops =>
    obtain ⟨hv, hplaced, -⟩ := joinChain_visited hk hm hb hl ho hc
    rw [if_pos (crossable_of_placed hplaced)]
    exact hv.mapped
  | error e =>
    obtain ⟨hm', hnot⟩ := joinChain_failed hm hb hl ho
    rw [hnot, if_neg Bool.false_ne_true, joinedAfter_nil]
    exact hm'

theorem joinRelation_covers (hk : JoinKeysDistinct schema) (hm : Mapped schema root others s joined)
    (hb : base = [] ∨ base ∈ joined) {m : ι} {f : FieldDef ι} {rel : Relation ι}
    (hr : f.relation = some rel) (hl : Leads schema root (base ++ [⟨m, f, rel⟩]) rel.target)
    {r : Result String}
    (ho : outcome (joinRelation schema (s.aliases.placeAlias schema root base) m f kind) s = (r, t))
    (hc : Clean schema root others t.aliases) :
    Mapped schema root others t (joinedAfter joined
      ((placesFrom base ([⟨m, f, rel⟩].filter (Hop.crossable schema))).map (Visit.mk kind))) := by
  rw [joinRelation_eq _ m kind hr, outcome_bind] at ho
  rcases hj : outcome (joinChain schema (s.aliases.placeAlias schema root base) [⟨m, f, rel⟩] kind) s
    with ⟨r', u⟩
  rw [hj] at ho
  obtain rfl : u = t := by
    cases r' <;> exact congrArg Prod.snd ho
  have := joinChain_covers hk hm hb ⟨_, hl⟩ hj hc
  by_cases hx : Hop.crossable schema ⟨m, f, rel⟩ = true
  · simpa [hx] using this
  · simpa [hx, placesFrom] using this

/-- The relation in which a path ends is visited after its chain, also when its target has no key. -/
theorem pathEnd_covers (hk : JoinKeysDistinct schema) (hm : Mapped schema root others s joined)
    {w : Walk ι} {f : FieldDef ι} (hb : w.chain = [] ∨ w.chain ∈ joined) (hf : w.field = some f)
    (hmem : f ∈ (schema w.model).fields) (hl : Leads schema root w.chain w.model) {r : Result Column}
    (ho : outcome (pathEnd schema w f (s.aliases.placeAlias schema root w.chain)) s = (r, t))
    (hc : Clean schema root others t.aliases) :
    Mapped schema root others t (joinedAfter joined
      ((placesFrom w.chain (w.last?.toList.filter (Hop.crossable schema))).map (Visit.mk .left))) := by
  rw [pathEnd] at ho
  by_cases hcol : f.hasColumn = true
  · rw [if_pos hcol] at ho
    cases ho
    rw [Walk.last?_of_hasColumn hf hcol, Option.toList_none, List.filter_nil, placesFrom, List.map_nil,
      joinedAfter_nil]
    exact hm
  · have hcol := Bool.eq_false_iff.2 hcol
    rw [hcol, if_neg Bool.false_ne_true, outcome_bind] at ho
    obtain ⟨rel, hr, -⟩ := FieldDef.relation_of_not_hasColumn hcol
    rw [Walk.last?_of_relation hf hcol hr]
    rcases hrel : outcome (joinRelation schema (s.aliases.placeAlias schema root w.chain) w.model f
      .left) s with ⟨r', v⟩
    rw [hrel] at ho
    obtain rfl : v = t := by
      cases r' with
      | error e => exact congrArg Prod.snd ho
      | ok y =>
        simp only [Resolving.ofResult, outcome_bind, outcome_mk_pure] at ho
        split at ho
        · split at ho <;> simp_all
        · simp_all
    exact joinRelation_covers hk hm hb hr (hl.append ⟨rfl, hmem, hr, rfl⟩) hrel hc

/-- A path visits what it joins, also when it fails in the end. -/
theorem resolvePath_covers (hk : JoinKeysDistinct schema) (hm : Mapped schema root others s joined)
    {side : String} {r : Result Column}
    (ho : outcome (resolvePath schema root side false) s = (r, t))
    (hc : Clean schema root others t.aliases) :
    Mapped schema root others t (joinedAfter joined (sideVisits schema root side)) := by
  unfold sideVisits
  cases hw : walk schema root side with
  | error e =>
    rw [resolvePath, Resolving.ofResult, outcome_bind, outcome_mk_pure, hw] at ho
    cases ho
    rwa [joinedAfter_nil]
  | ok w =>
  obtain ⟨-, -, hl, hmem⟩ := walk_ok hw
  dsimp only
  cases hf : w.field with
  | none =>
    rw [resolvePath, Resolving.ofResult, outcome_bind, outcome_mk_pure, hw] at ho
    dsimp only at ho
    rw [hf] at ho
    cases ho
    rwa [Option.isSome_none, Bool.false_and, if_neg Bool.false_ne_true, joinedAfter_nil]
  | some f =>
  rw [resolvePath_of_walk hw hf, outcome_bind] at ho
  have hkind : w.joinKind false = .left := rfl
  rw [Option.isSome_some, Bool.true_and]
  rw [hkind] at ho
  rcases hj : outcome (joinChain schema (schema root).table w.chain .left) s with ⟨r', u⟩
  rw [hj] at ho
  have hstart : outcome (joinChain schema (s.aliases.placeAlias schema root []) w.chain .left) s =
      (r', u) := hj
  cases r' with
  | error e =>
    cases ho
    obtain ⟨hm', hnot⟩ := joinChain_failed hm (.inl rfl) ⟨_, hl⟩ hstart
    rwa [hnot, if_neg Bool.false_ne_true, joinedAfter_nil]
  | ok hops =>
    have hsound := (joinChain_grows _ _ _).sound hm.sound hj
    have hcu := hc.of_extends ((pathEnd_grows _ _ _).grown hsound ho).2
    obtain ⟨hv, hplaced, -, hlast⟩ := joinRoot_visited hk hm ⟨_, hl⟩ hj hcu
    have hall : w.chain.all (Hop.crossable schema) = true :=
      crossable_of_placed (show Placed schema root u.aliases ([] ++ w.chain) from hplaced)
    rw [hall, if_pos rfl, joinedAfter_append]
    dsimp only at ho
    rw [hlast] at ho
    exact pathEnd_covers hk hv.mapped (chain_mem_joinedAfter joined .left w.chain) hf (hmem f hf) hl ho hc

/-! ## Explicit joins -/

/-- A run after which the places of some visits are joined. -/
structure Covers (schema : Schema ι) (root : ι) (others : List String) (x : Resolving α)
    (visits : List (Visit ι)) : Prop where
  grows : Grows x
  mapped : ∀ s joined a t, Mapped schema root others s joined → Yields x s a t →
    Clean schema root others t.aliases → Mapped schema root others t (joinedAfter joined visits)

namespace Covers

variable {x : Resolving α} {visits more : List (Visit ι)}

theorem of_pure {a : α} : Covers schema root others (pure a) [] where
  grows := .of_pure
  mapped s joined a' t hm hy _ := by
    obtain ⟨-, rfl⟩ := Yields.pure_iff.1 hy
    rwa [joinedAfter_nil]

theorem of_throw {e : Error} : Covers schema root others (throw e : Resolving α) visits where
  grows := .of_throw
  mapped _ _ _ _ _ hy _ := absurd hy Yields.not_throw

theorem bind {f : α → Resolving β} (hx : Covers schema root others x visits)
    (hf : ∀ a, Covers schema root others (f a) more) :
    Covers schema root others (x >>= f) (visits ++ more) where
  grows := hx.grows.bind fun a => (hf a).grows
  mapped s joined b u hm hy hc := by
    obtain ⟨a, t, hy, hy'⟩ := Yields.bind_iff.1 hy
    have hext := (hf a).grows.extends (hx.grows.sound hm.sound hy) hy'
    rw [joinedAfter_append]
    exact (hf a).mapped t _ b u (hx.mapped s joined a t hm hy (hc.of_extends hext)) hy' hc

theorem map {g : α → β} (hx : Covers schema root others x visits) :
    Covers schema root others (x >>= fun a => pure (g a)) visits := by
  have := hx.bind fun a => (of_pure : Covers schema root others (pure (g a)) [])
  rwa [List.append_nil] at this

theorem of_modify {g : Scope → Scope} (ha : ∀ s, (g s).aliases = s.aliases)
    (hm : ∀ s joined, Mapped schema root others s joined →
      Mapped schema root others (g s) joined) : Covers schema root others (modify g) [] where
  grows before := Keeps.of_modify (fun s h => by rwa [ha s]) trivial
  mapped s joined _ t hs hy _ := by
    obtain rfl := Yields.modify_iff.1 hy
    rw [joinedAfter_nil]
    exact hm s joined hs

end Covers

theorem conditionSide_covers (hk : JoinKeysDistinct schema) (side : String) :
    Covers schema root others (conditionSide schema root side) (sideVisits schema root side) where
  grows before := (resolvePath_grows side false before).orElse trivial
  mapped s joined a t hm hy hc := by
    unfold Yields conditionSide at hy
    rw [outcome_orElse] at hy
    rcases ho : outcome (resolvePath schema root side false) s with ⟨r, u⟩
    rw [ho] at hy
    obtain rfl : u = t := by
      cases r <;> exact congrArg Prod.snd hy
    exact resolvePath_covers hk hm ho hc

theorem explicitCondition_covers (hk : JoinKeysDistinct schema)
    (condition : Option JoinCondition) :
    Covers schema root others (explicitCondition schema root condition)
      (conditionVisits schema root condition) := by
  unfold explicitCondition conditionVisits
  cases condition with
  | none => exact .of_pure
  | some c =>
    dsimp only
    rw [map_eq_pure_bind]
    refine .map ?_
    unfold resolveCondition
    cases joinOperator? c.operator with
    | none => exact .of_throw
    | some op =>
      exact (conditionSide_covers hk c.left).bind fun left => (conditionSide_covers hk c.right).map

theorem followRelation_covers (hk : JoinKeysDistinct schema) {w : Walk ι} {f : FieldDef ι}
    {rel : Relation ι} (hr : f.relation = some rel)
    (hl : Leads schema root (w.chain ++ [⟨w.model, f, rel⟩]) rel.target) (kind : JoinKind) :
    Covers schema root others (followRelation schema root kind w f)
      ((placesFrom [] (w.chain ++ [⟨w.model, f, rel⟩])).map (Visit.mk kind)) where
  grows := (joinChain_grows _ _ _).bind fun _ => joinRelation_grows _ _ _ _
  mapped s joined a t hm hy hc := by
    obtain ⟨hops, u, hj, hrel⟩ := Yields.bind_iff.1 hy
    have hsound := (joinChain_grows _ _ _).sound hm.sound hj
    obtain ⟨n, hl', -⟩ := hl.of_append
    obtain ⟨hv, -, -, hlast⟩ := joinRoot_visited hk hm ⟨n, hl'⟩ hj
      (hc.of_extends ((joinRelation_grows _ _ _ _).extends hsound hrel))
    rw [hlast] at hrel
    obtain ⟨hv', -, -⟩ := joinRelation_visited hk hv.mapped
      (chain_mem_joinedAfter joined kind w.chain) hr hl hrel hc
    rw [placesFrom_append, List.map_append]
    exact (hv.trans hv').mapped

/-- An explicit join visits the places of its condition and those on the way to its target. -/
theorem addExplicit_covers (hk : JoinKeysDistinct schema) {j : ExplicitJoin}
    (ho : joinedRelation? schema root j.target = none → j.target ∈ others) :
    Covers schema root others (addExplicit schema root j) (j.visits schema root) := by
  rw [addExplicit_eq, ExplicitJoin.visits]
  refine (explicitCondition_covers hk j.condition).bind fun condition => ?_
  unfold joinTarget targetVisits
  cases hj : joinedRelation? schema root j.target with
  | none =>
    dsimp only
    split
    · exact .of_throw
    · refine .of_modify (fun s => rfl) fun s joined hm => ?_
      refine ⟨hm.sound, hm.placed, hm.closed, fun c hc st hst => ?_, fun y hy => ?_, hm.toMany⟩
      · rw [joinTable, Scope.names, List.map_append]
        exact List.mem_append_left _ (hm.present c hc st hst)
      · simp only [joinTable, Scope.names, List.map_append, List.mem_append] at hy
        rcases hy with hy | hy
        · exact hm.known y hy
        · exact .inl (List.mem_singleton.1 hy ▸ ho hj)
  | some e =>
    obtain ⟨w, f⟩ := e
    obtain ⟨hw, hf, hrel⟩ := joinedRelation?_eq_some hj
    obtain ⟨r, hr⟩ := Option.isSome_iff_exists.1 hrel
    obtain ⟨-, -, hl, hmem⟩ := walk_ok hw
    dsimp only
    rw [hr, ← List.append_nil (List.map _ _)]
    refine (followRelation_covers hk hr (hl.append ⟨rfl, hmem f hf, hr, rfl⟩) j.kind).bind
      fun targetAlias => .of_modify (fun s => ?_) fun s joined hm => ?_
    · cases condition <;> rfl
    · cases condition with
      | none => exact hm
      | some c => exact hm.of_names rfl (names_addCondition _ _ _) rfl

theorem addExplicits_covers (hk : JoinKeysDistinct schema) : ∀ {joins : List ExplicitJoin},
    (∀ j ∈ joins, joinedRelation? schema root j.target = none → j.target ∈ others) →
    Covers schema root others (addExplicits schema root joins)
      (joins.flatMap (ExplicitJoin.visits schema root))
  | [], _ => .of_pure
  | j :: rest, ho => by
    unfold addExplicits
    rw [List.flatMap_cons]
    exact (addExplicit_covers hk (ho j List.mem_cons_self)).bind fun _ =>
      addExplicits_covers hk fun i hi => ho i (List.mem_cons_of_mem j hi)

end

end Orm
