import Orm.Proofs.Place.Scope

/-
Visits of places, and the joins they bring into scope.

A path visits the places along its relations. The first visit joins a place; `arrivals` are those first
visits, and `Mapped` says that the joins in scope are those of the places joined so far, besides tables
that a query names itself.
-/

namespace Orm

variable {ι : Type} {schema : Schema ι} {root : ι}

/-! ## Visits -/

/-- The places along a chain that starts at a place. -/
def placesFrom (base : List (Hop ι)) : List (Hop ι) → List (List (Hop ι))
  | [] => []
  | h :: rest => (base ++ [h]) :: placesFrom (base ++ [h]) rest

theorem placesFrom_append (base a b : List (Hop ι)) :
    placesFrom base (a ++ b) = placesFrom base a ++ placesFrom (base ++ a) b := by
  induction a generalizing base with
  | nil => simp [placesFrom]
  | cons h a ih => simp [placesFrom, ih]

theorem mem_placesFrom {base rest c : List (Hop ι)} :
    c ∈ placesFrom base rest ↔ base <+: c ∧ c ≠ base ∧ c <+: base ++ rest := by
  induction rest using List.reverseRecOn with
  | nil =>
    simp only [placesFrom, List.not_mem_nil, List.append_nil, false_iff, not_and]
    exact fun h hne h' => hne (h'.eq_of_length (Nat.le_antisymm h'.length_le h.length_le))
  | append_singleton rest h ih =>
    rw [placesFrom_append, List.mem_append, ih, ← List.append_assoc, List.prefix_concat_iff]
    simp only [placesFrom, List.mem_singleton]
    constructor
    · rintro (⟨hb, hne, hp⟩ | rfl)
      · exact ⟨hb, hne, .inr hp⟩
      · exact ⟨⟨rest ++ [h], by simp⟩, by simp, .inl rfl⟩
    · rintro ⟨hb, hne, rfl | hp⟩
      · exact .inr rfl
      · exact .inl ⟨hb, hne, hp⟩

theorem getLast?_placesFrom (base rest : List (Hop ι)) :
    (placesFrom base rest).getLast?.getD base = base ++ rest := by
  induction rest generalizing base with
  | nil => simp [placesFrom]
  | cons h rest ih =>
    rw [placesFrom, List.getLast?_cons, Option.getD_some, ih]
    simp

/-- A place on the way of a query, with the join it would bring. -/
structure Visit (ι : Type) where
  kind : JoinKind
  place : List (Hop ι)
  deriving DecidableEq

theorem exists_visit_append {xs ys : List (Visit ι)} {c : List (Hop ι)} :
    (∃ v ∈ xs ++ ys, v.place = c) ↔ (∃ v ∈ xs, v.place = c) ∨ ∃ v ∈ ys, v.place = c := by
  simp only [List.mem_append, or_and_right, exists_or]

theorem exists_visit_flatMap {α : Type} {l : List α} {f : α → List (Visit ι)} {c : List (Hop ι)} :
    (∃ v ∈ l.flatMap f, v.place = c) ↔ ∃ x ∈ l, ∃ v ∈ f x, v.place = c := by
  simp only [List.mem_flatMap]
  constructor
  · rintro ⟨v, ⟨x, hx, hv⟩, hc⟩
    exact ⟨x, hx, v, hv, hc⟩
  · rintro ⟨x, hx, v, hv, hc⟩
    exact ⟨v, ⟨x, hx, hv⟩, hc⟩

section

variable [DecidableEq ι]

/-- The first visit to each place that is not among the given ones. -/
def arrivals (joined : List (List (Hop ι))) : List (Visit ι) → List (Visit ι)
  | [] => []
  | v :: rest =>
    if v.place ∈ joined then arrivals joined rest
    else v :: arrivals (joined ++ [v.place]) rest

/-- The places that are joined after some visits. -/
def joinedAfter (joined : List (List (Hop ι))) (visits : List (Visit ι)) : List (List (Hop ι)) :=
  joined ++ (arrivals joined visits).map (·.place)

variable {joined : List (List (Hop ι))} {v : Visit ι} {visits more : List (Visit ι)}

theorem joinedAfter_nil (joined : List (List (Hop ι))) : joinedAfter joined [] = joined := by
  simp [joinedAfter, arrivals]

theorem joinedAfter_cons_of_mem (h : v.place ∈ joined) :
    joinedAfter joined (v :: visits) = joinedAfter joined visits := by
  rw [joinedAfter, joinedAfter, arrivals, if_pos h]

theorem joinedAfter_cons_of_not_mem (h : v.place ∉ joined) :
    joinedAfter joined (v :: visits) = joinedAfter (joined ++ [v.place]) visits := by
  rw [joinedAfter, joinedAfter, arrivals, if_neg h]
  simp

theorem arrivals_append (joined : List (List (Hop ι))) (visits more : List (Visit ι)) :
    arrivals joined (visits ++ more) =
      arrivals joined visits ++ arrivals (joinedAfter joined visits) more := by
  induction visits generalizing joined with
  | nil => simp [joinedAfter, arrivals]
  | cons v visits ih =>
    rw [List.cons_append, arrivals, arrivals]
    by_cases h : v.place ∈ joined
    · rw [if_pos h, if_pos h, joinedAfter_cons_of_mem h, ih]
    · rw [if_neg h, if_neg h, joinedAfter_cons_of_not_mem h, ih, List.cons_append]

theorem joinedAfter_append (joined : List (List (Hop ι))) (visits more : List (Visit ι)) :
    joinedAfter joined (visits ++ more) = joinedAfter (joinedAfter joined visits) more := by
  rw [joinedAfter, arrivals_append, List.map_append, ← List.append_assoc]
  rfl

theorem mem_joinedAfter {c : List (Hop ι)} :
    c ∈ joinedAfter joined visits ↔ c ∈ joined ∨ ∃ v ∈ visits, v.place = c := by
  induction visits generalizing joined with
  | nil => simp [joinedAfter_nil]
  | cons v visits ih =>
    by_cases h : v.place ∈ joined
    · rw [joinedAfter_cons_of_mem h, ih]
      simp only [List.mem_cons, exists_eq_or_imp]
      refine ⟨Or.imp_right .inr, ?_⟩
      rintro (hc | rfl | hc)
      · exact .inl hc
      · exact .inl h
      · exact .inr hc
    · rw [joinedAfter_cons_of_not_mem h, ih, List.mem_append, List.mem_singleton]
      simp only [List.mem_cons, exists_eq_or_imp, or_assoc, @eq_comm _ c]

/-- A chain that is visited ends at a joined place. -/
theorem chain_mem_joinedAfter (joined : List (List (Hop ι))) (kind : JoinKind)
    (chain : List (Hop ι)) : chain = [] ∨
      chain ∈ joinedAfter joined ((placesFrom [] chain).map (Visit.mk kind)) := by
  refine or_iff_not_imp_left.2 fun hne => mem_joinedAfter.2 (.inr ?_)
  exact ⟨⟨kind, chain⟩, List.mem_map_of_mem (mem_placesFrom.2 (by simp [hne])), rfl⟩

theorem joinedAfter_nodup (h : joined.Nodup) : (joinedAfter joined visits).Nodup := by
  induction visits generalizing joined with
  | nil => rwa [joinedAfter_nil]
  | cons v visits ih =>
    by_cases hv : v.place ∈ joined
    · rw [joinedAfter_cons_of_mem hv]
      exact ih h
    · rw [joinedAfter_cons_of_not_mem hv]
      refine ih (List.nodup_append.2 ⟨h, List.nodup_singleton _, fun c hc d hd he => ?_⟩)
      rw [List.mem_singleton] at hd
      exact hv (hd ▸ he ▸ hc)

end

/-! ## Adding joins -/

def JoinStep.join (kind : JoinKind) (s : JoinStep) : Join :=
  ⟨kind, s.table, s.tableAlias, [⟨[s.parentAlias, s.parentColumn], "=", [s.tableAlias, s.column]⟩]⟩

/-- The aliases of the joins in scope. -/
def Scope.names (s : Scope) : List String := s.joins.map (·.tableAlias)

theorem Scope.addStep_of_mem {kind : JoinKind} {s : Scope} {st : JoinStep}
    (h : st.tableAlias ∈ s.names) : s.addStep kind st = s := by
  obtain ⟨j, hj, he⟩ := List.mem_map.1 h
  have : s.joins.any (·.tableAlias == st.tableAlias) = true :=
    List.any_eq_true.2 ⟨j, hj, beq_iff_eq.2 he⟩
  rw [addStep, if_pos this]

theorem Scope.addStep_of_not_mem {kind : JoinKind} {s : Scope} {st : JoinStep}
    (h : st.tableAlias ∉ s.names) : s.addStep kind st =
      { s with toMany := s.toMany || st.toMany, joins := s.joins ++ [st.join kind] } := by
  rw [addStep, if_neg]
  · rfl
  · intro ha
    obtain ⟨j, hj, he⟩ := List.any_eq_true.1 ha
    exact h (List.mem_map.2 ⟨j, hj, beq_iff_eq.1 he⟩)

theorem Scope.foldl_addStep_aliases (kind : JoinKind) (s : Scope) (steps : List JoinStep) :
    (steps.foldl (Scope.addStep kind) s).aliases = s.aliases := by
  induction steps generalizing s with
  | nil => rfl
  | cons st steps ih =>
    rw [List.foldl_cons, ih, Scope.addStep]
    split <;> rfl

theorem Scope.foldl_addStep_of_mem (kind : JoinKind) (s : Scope) {steps : List JoinStep}
    (h : ∀ st ∈ steps, st.tableAlias ∈ s.names) : steps.foldl (Scope.addStep kind) s = s := by
  induction steps with
  | nil => rfl
  | cons st steps ih =>
    rw [List.foldl_cons, Scope.addStep_of_mem (h st List.mem_cons_self)]
    exact ih fun st' hst => h st' (List.mem_cons_of_mem st hst)

theorem Scope.foldl_addStep_of_not_mem (kind : JoinKind) (s : Scope) {steps : List JoinStep}
    (hn : (steps.map (·.tableAlias)).Nodup) (h : ∀ st ∈ steps, st.tableAlias ∉ s.names) :
    steps.foldl (Scope.addStep kind) s =
      { s with
        toMany := s.toMany || steps.any (·.toMany)
        joins := s.joins ++ steps.map (JoinStep.join kind) } := by
  induction steps generalizing s with
  | nil => simp
  | cons st steps ih =>
    obtain ⟨hst, hn⟩ := List.nodup_cons.1 hn
    rw [List.foldl_cons, Scope.addStep_of_not_mem (h st List.mem_cons_self), ih _ hn]
    · simp [Bool.or_assoc]
    · intro st' hst' hmem
      simp only [Scope.names, List.map_append, List.mem_append] at hmem
      rcases hmem with hmem | hmem
      · exact h st' (List.mem_cons_of_mem st hst') hmem
      · obtain he : st'.tableAlias = st.tableAlias := List.mem_singleton.1 hmem
        exact hst (List.mem_map.2 ⟨st', hst', he⟩)

/-! ## Joined places -/

/-- No name that is used otherwise is given to a table. -/
structure Clean (schema : Schema ι) (root : ι) (others : List String) (a : Aliases) : Prop where
  root : (schema root).table ∉ a.used
  others : ∀ y ∈ others, y ∉ a.used

theorem Clean.of_extends {others : List String} {a b : Aliases} (h : Clean schema root others b)
    (he : Aliases.Extends a b) : Clean schema root others a :=
  ⟨fun hr => h.root (he.used hr), fun y hy hu => h.others y hy (he.used hu)⟩

def arrivesAtMany (c : List (Hop ι)) : Bool := c.getLast?.any (·.relation.toMany)

/-- The joins in scope are those of the places joined and those of other tables. -/
structure Mapped (schema : Schema ι) (root : ι) (others : List String) (s : Scope)
    (joined : List (List (Hop ι))) : Prop where
  sound : s.aliases.Sound
  placed : ∀ c ∈ joined, Placed schema root s.aliases c
  closed : ∀ c h, c ++ [h] ∈ joined → c = [] ∨ c ∈ joined
  present : ∀ c ∈ joined, ∀ st ∈ s.aliases.placeSteps schema root c, st.tableAlias ∈ s.names
  known : ∀ y ∈ s.names, y ∈ others ∨
    ∃ c ∈ joined, ∃ st ∈ s.aliases.placeSteps schema root c, st.tableAlias = y
  toMany : s.toMany = joined.any arrivesAtMany

namespace Mapped

variable {others : List String} {s : Scope} {joined : List (List (Hop ι))}

theorem empty (schema : Schema ι) (root : ι) (others : List String) :
    Mapped schema root others {} [] where
  sound := Aliases.sound_empty
  placed := by simp
  closed := by simp
  present := by simp
  known := by simp [Scope.names]
  toMany := rfl

theorem prefix_mem (hm : Mapped schema root others s joined) {c d : List (Hop ι)}
    (hc : c ∈ joined) (hp : d <+: c) (hd : d ≠ []) : d ∈ joined := by
  induction c using List.reverseRecOn with
  | nil => exact absurd (List.prefix_nil.1 hp) hd
  | append_singleton c h ih =>
    rcases List.prefix_concat_iff.1 hp with rfl | hp
    · exact hc
    · rcases hm.closed c h hc with rfl | hc'
      · exact absurd (List.prefix_nil.1 hp) hd
      · exact ih hc' hp

theorem name (hm : Mapped schema root others s joined) {b : Aliases} (hb : b.Sound)
    (he : Aliases.Extends s.aliases b) :
    Mapped schema root others { s with aliases := b } joined where
  sound := hb
  placed c hc := (hm.placed c hc).extend he
  closed := hm.closed
  present c hc st hst := by
    rw [(hm.placed c hc).placeSteps_eq he] at hst
    exact hm.present c hc st hst
  known y hy := by
    refine (hm.known y hy).imp id ?_
    rintro ⟨c, hc, st, hst, rfl⟩
    exact ⟨c, hc, st, (hm.placed c hc).placeSteps_eq he ▸ hst, rfl⟩
  toMany := hm.toMany

end Mapped

/-! ## Aliases of different places -/

section

variable {a : Aliases} {c d : List (Hop ι)} {h : Hop ι} {st st' : JoinStep}

theorem Placed.mem_used (hs : a.Sound) (hc : Placed schema root a c)
    (hst : st ∈ a.placeSteps schema root c) : st.tableAlias ∈ a.used := by
  obtain rfl | ⟨c, h, rfl⟩ := List.eq_nil_or_concat c
  · cases hst
  · rw [List.concat_eq_append] at hc hst
    obtain ⟨es, he, hrel, -, -⟩ := hc.placeSteps_snoc
    obtain ⟨keys, hp, -, hf⟩ := Aliases.mem_placeSteps hc.reaches he hrel hst
    refine hs.follow_mem_used hf ?_
    rintro rfl
    simp at hp

/-- A join on the way to a place has an alias of its own on the way to any other. -/
theorem Placed.prefix_of_alias_eq (hk : JoinKeysDistinct schema) (hs : a.Sound)
    (hr : (schema root).table ∉ a.used) (hc : Placed schema root a (c ++ [h]))
    (hd : Placed schema root a d) (hst : st ∈ a.placeSteps schema root (c ++ [h]))
    (hst' : st' ∈ a.placeSteps schema root d) (he : st.tableAlias = st'.tableAlias) :
    c ++ [h] <+: d := by
  obtain rfl | ⟨d, g, rfl⟩ := List.eq_nil_or_concat d
  · cases hst'
  rw [List.concat_eq_append] at hd hst' ⊢
  obtain ⟨es, hes, hrel, -, -⟩ := hc.placeSteps_snoc
  obtain ⟨es', hes', hrel', -, -⟩ := hd.placeSteps_snoc
  obtain ⟨keys, hp, -, hf⟩ := Aliases.mem_placeSteps hc.reaches hes hrel hst
  obtain ⟨keys', -, hp', hf'⟩ := Aliases.mem_placeSteps hd.reaches hes' hrel' hst'
  obtain rfl : keys = keys' := hs.follow_injective hr hf (he ▸ hf')
  obtain ⟨⟨m, hl⟩, hedges⟩ := hc.joinable
  obtain ⟨⟨m', hl'⟩, hedges'⟩ := hd.joinable
  exact chain_prefix_of_keys hk hl hedges hl' hedges' (hp.trans hp')

theorem Aliases.stepsAt_nodup {r x y : String} {es : List Edge} {keys : List String} (hs : a.Sound)
    (hr : r ∉ a.used) (hx : a.follow r keys = some x) (hf : a.follow x (es.map (·.key)) = some y) :
    ((a.stepsAt x es).map (·.tableAlias)).Nodup := by
  induction es generalizing x keys with
  | nil => exact List.nodup_nil
  | cons e es ih =>
    rw [List.map_cons, Aliases.follow, Option.bind_eq_some_iff] at hf
    obtain ⟨z, hz, hf⟩ := hf
    have hkeys : a.follow r (keys ++ [e.key]) = some z := by
      rw [Aliases.follow_snoc, hx]
      exact hz
    rw [Aliases.stepsAt_cons hz, List.map_cons]
    refine List.nodup_cons.2 ⟨fun hmem => ?_, ih hkeys hf⟩
    obtain ⟨st, hst, he⟩ := List.mem_map.1 hmem
    obtain ⟨ks, k, -, -, ht⟩ := Aliases.mem_stepsAt hf hst
    have hlong : a.follow r (keys ++ [e.key] ++ (ks ++ [k])) = some z := by
      rw [Aliases.follow_append, hkeys, Option.bind_some, ht, he]
      rfl
    have := hs.follow_injective hr hlong hkeys
    simp at this

theorem Placed.steps_nodup (hs : a.Sound) (hr : (schema root).table ∉ a.used)
    (hc : Placed schema root a c) :
    ((a.placeSteps schema root c).map (·.tableAlias)).Nodup := by
  obtain rfl | ⟨c, h, rfl⟩ := List.eq_nil_or_concat c
  · exact List.nodup_nil
  · rw [List.concat_eq_append] at hc ⊢
    obtain ⟨es, -, -, hf, hst⟩ := hc.placeSteps_snoc
    rw [hst]
    exact Aliases.stepsAt_nodup hs hr (hc.of_prefix (List.prefix_append c [h])).reaches hf

theorem Placed.steps_toMany (hc : Placed schema root a (c ++ [h])) :
    (a.placeSteps schema root (c ++ [h])).any (·.toMany) = h.relation.toMany := by
  obtain ⟨es, hes, -, -, hst⟩ := hc.placeSteps_snoc
  have hany : ∀ (x : String) (es : List Edge),
      (a.stepsAt x es).any (·.toMany) = es.any (·.toMany) := by
    intro x es
    induction es generalizing x with
    | nil => rfl
    | cons e es ih => rw [Aliases.stepsAt, List.any_cons, List.any_cons, ih, Edge.step]
  rw [hst, hany]
  exact relationEdges_toMany hes

/-- The joins of a place that is not joined yet have names that no join has. -/
theorem Mapped.fresh {others : List String} {s : Scope} {joined : List (List (Hop ι))}
    (hm : Mapped schema root others s joined) (hk : JoinKeysDistinct schema)
    (hclean : Clean schema root others s.aliases) (hc : Placed schema root s.aliases (c ++ [h]))
    (hmem : c ++ [h] ∉ joined) :
    ∀ st ∈ s.aliases.placeSteps schema root (c ++ [h]), st.tableAlias ∉ s.names := by
  intro st hst hname
  rcases hm.known _ hname with ho | ⟨d, hd, st', hst', he⟩
  · exact hclean.others _ ho (hc.mem_used hm.sound hst)
  · have hp := Placed.prefix_of_alias_eq hk hm.sound hclean.root hc (hm.placed d hd) hst hst' he.symm
    exact hmem (hm.prefix_mem hd hp (by simp))

end

/-! ## Arriving -/

def joinsOf (schema : Schema ι) (root : ι) (a : Aliases) (visits : List (Visit ι)) : List Join :=
  visits.flatMap fun v => (a.placeSteps schema root v.place).map (JoinStep.join v.kind)

/-- What visits make of a scope. -/
structure Visited [DecidableEq ι] (schema : Schema ι) (root : ι) (others : List String) (s : Scope)
    (joined : List (List (Hop ι))) (visits : List (Visit ι)) (t : Scope) : Prop where
  mapped : Mapped schema root others t (joinedAfter joined visits)
  extend : Aliases.Extends s.aliases t.aliases
  joins : t.joins = s.joins ++ joinsOf schema root t.aliases (arrivals joined visits)

section

variable [DecidableEq ι] {others : List String} {s t u : Scope} {joined : List (List (Hop ι))}
  {visits more : List (Visit ι)}

theorem mem_arrivals {v : Visit ι} (h : v ∈ arrivals joined visits) :
    v.place ∈ joinedAfter joined visits :=
  List.mem_append_right _ (List.mem_map_of_mem h)

theorem Mapped.joinsOf_eq {b : Aliases}
    (hm : Mapped schema root others t (joinedAfter joined visits))
    (he : Aliases.Extends t.aliases b) : joinsOf schema root b (arrivals joined visits) =
      joinsOf schema root t.aliases (arrivals joined visits) := by
  unfold joinsOf
  refine List.flatMap_congr fun v hv => ?_
  rw [(hm.placed _ (mem_arrivals hv)).placeSteps_eq he]

theorem Visited.refl (hm : Mapped schema root others s joined) :
    Visited schema root others s joined [] s where
  mapped := (joinedAfter_nil joined).symm ▸ hm
  extend := .refl _
  joins := by simp [arrivals, joinsOf]

theorem Visited.trans (h : Visited schema root others s joined visits t)
    (h' : Visited schema root others t (joinedAfter joined visits) more u) :
    Visited schema root others s joined (visits ++ more) u where
  mapped := joinedAfter_append joined visits more ▸ h'.mapped
  extend := h.extend.trans h'.extend
  joins := by
    rw [h'.joins, h.joins, arrivals_append, List.append_assoc, ← h.mapped.joinsOf_eq h'.extend]
    simp [joinsOf]

/-- The first visit to a place brings its joins, and no other. -/
theorem Mapped.arrive (hm : Mapped schema root others s joined) (hk : JoinKeysDistinct schema)
    (hclean : Clean schema root others s.aliases) {c : List (Hop ι)} {h : Hop ι}
    (hc : Placed schema root s.aliases (c ++ [h])) (hparent : c = [] ∨ c ∈ joined)
    (kind : JoinKind) : Visited schema root others s joined [⟨kind, c ++ [h]⟩]
      ((s.aliases.placeSteps schema root (c ++ [h])).foldl (Scope.addStep kind) s) := by
  by_cases hmem : c ++ [h] ∈ joined
  · rw [Scope.foldl_addStep_of_mem kind s (hm.present _ hmem)]
    refine ⟨?_, .refl _, ?_⟩
    · rw [joinedAfter_cons_of_mem hmem, joinedAfter_nil]
      exact hm
    · simp [arrivals, hmem, joinsOf]
  · rw [Scope.foldl_addStep_of_not_mem kind s (hc.steps_nodup hm.sound hclean.root)
      (hm.fresh hk hclean hc hmem)]
    refine ⟨?_, .refl _, ?_⟩
    · rw [joinedAfter_cons_of_not_mem hmem, joinedAfter_nil]
      refine ⟨hm.sound, ?_, ?_, ?_, ?_, ?_⟩
      · intro d hd
        rcases List.mem_append.1 hd with hd | hd
        · exact hm.placed d hd
        · exact List.mem_singleton.1 hd ▸ hc
      · intro d g hd
        rcases List.mem_append.1 hd with hd | hd
        · exact (hm.closed d g hd).imp_right (List.mem_append_left _)
        · obtain ⟨rfl, -⟩ := List.append_inj' (List.mem_singleton.1 hd) rfl
          exact hparent.imp_right (List.mem_append_left _)
      · intro d hd st hst
        simp only [Scope.names, List.map_append, List.mem_append]
        rcases List.mem_append.1 hd with hd | hd
        · exact .inl (hm.present d hd st hst)
        · rw [List.mem_singleton.1 hd] at hst
          exact .inr (List.mem_map.2 ⟨st.join kind, List.mem_map_of_mem hst, rfl⟩)
      · intro y hy
        simp only [Scope.names, List.map_append, List.mem_append] at hy
        rcases hy with hy | hy
        · refine (hm.known y hy).imp_right ?_
          rintro ⟨d, hd, st, hst, rfl⟩
          exact ⟨d, List.mem_append_left _ hd, st, hst, rfl⟩
        · simp only [List.map_map, List.mem_map, Function.comp_apply] at hy
          obtain ⟨st, hst, rfl⟩ := hy
          exact .inr ⟨c ++ [h], by simp, st, hst, rfl⟩
      · simp only [List.any_append, hm.toMany, hc.steps_toMany]
        simp [arrivesAtMany]
    · simp [arrivals, hmem, joinsOf]

/-- Visiting the places along a chain. -/
theorem Mapped.visitFrom (hk : JoinKeysDistinct schema) (kind : JoinKind) {s : Scope}
    {joined : List (List (Hop ι))} {base rest : List (Hop ι)}
    (hm : Mapped schema root others s joined) (hclean : Clean schema root others s.aliases)
    (hplaced : Placed schema root s.aliases (base ++ rest)) (hbase : base = [] ∨ base ∈ joined) :
    Visited schema root others s joined ((placesFrom base rest).map (Visit.mk kind))
      (((placesFrom base rest).flatMap (s.aliases.placeSteps schema root)).foldl
        (Scope.addStep kind) s) := by
  induction rest generalizing s joined base with
  | nil => exact Visited.refl hm
  | cons h rest ih =>
    have hplaced' : Placed schema root s.aliases (base ++ [h] ++ rest) := by simpa using hplaced
    have hv := hm.arrive hk hclean (hplaced'.of_prefix (List.prefix_append _ _)) hbase kind
    rw [placesFrom, List.flatMap_cons, List.foldl_append, List.map_cons]
    have hsame := Scope.foldl_addStep_aliases kind s (s.aliases.placeSteps schema root (base ++ [h]))
    have hlater : Placed schema root ((s.aliases.placeSteps schema root (base ++ [h])).foldl
        (Scope.addStep kind) s).aliases (base ++ [h] ++ rest) := by rwa [hsame]
    have hv' := ih hv.mapped (by rwa [hsame]) hlater
      (.inr (mem_joinedAfter.2 (.inr ⟨⟨kind, base ++ [h]⟩, by simp, rfl⟩)))
    rw [hsame] at hv'
    exact hv.trans hv'

end

end Orm
