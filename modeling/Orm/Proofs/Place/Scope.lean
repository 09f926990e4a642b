import Orm.Proofs.Place.Edge

/-
Places and their aliases.

A place is a chain of relations from the root. A place that has an alias keeps it, and naming a relation
of a place gives a place.
-/

namespace Orm

variable {ι : Type} {schema : Schema ι} {root : ι}

/-! ## Aliases of places -/

namespace Aliases

def Reaches (a : Aliases) (schema : Schema ι) (root : ι) (c : List (Hop ι)) (y : String) : Prop :=
  a.follow (schema root).table (chainKeys schema c) = some y

/-- The table alias of a place. -/
def placeAlias (a : Aliases) (schema : Schema ι) (root : ι) (c : List (Hop ι)) : String :=
  (a.follow (schema root).table (chainKeys schema c)).getD ""

/-- The joins by which a place is reached from the one before it. -/
def placeSteps (a : Aliases) (schema : Schema ι) (root : ι) (c : List (Hop ι)) : List JoinStep :=
  match c.getLast? with
  | none => []
  | some h =>
    match h.edges schema with
    | .ok es => a.stepsAt (a.placeAlias schema root c.dropLast) es
    | .error _ => []

variable {a b : Aliases} {c : List (Hop ι)} {h : Hop ι} {x y : String} {es : List Edge}

theorem Reaches.placeAlias (hr : a.Reaches schema root c y) : a.placeAlias schema root c = y := by
  rw [Aliases.placeAlias, hr]
  rfl

theorem Reaches.extend (hr : a.Reaches schema root c y) (he : Extends a b) :
    b.Reaches schema root c y :=
  he.follow hr

theorem placeSteps_snoc (hx : a.Reaches schema root c x) (he : h.edges schema = .ok es) :
    a.placeSteps schema root (c ++ [h]) = a.stepsAt x es := by
  simp only [placeSteps, List.getLast?_concat, List.dropLast_concat, he, hx.placeAlias]

theorem reaches_snoc (hx : a.Reaches schema root c x) (he : h.edges schema = .ok es) :
    a.Reaches schema root (c ++ [h]) y ↔ a.follow x (es.map (·.key)) = some y := by
  have hkeys : chainKeys schema (c ++ [h]) = chainKeys schema c ++ es.map (·.key) := by
    rw [chainKeys_append]
    simp [chainKeys, Hop.keys_of_edges he]
  have hx' : a.follow (schema root).table (chainKeys schema c) = some x := hx
  rw [Reaches, hkeys, follow_append, hx']
  rfl

theorem Reaches.of_prefix {d : List (Hop ι)} (hr : a.Reaches schema root c y) (hp : d <+: c) :
    ∃ x, a.Reaches schema root d x := by
  obtain ⟨e, rfl⟩ := hp
  rw [Reaches, chainKeys_append, follow_append, Option.bind_eq_some_iff] at hr
  obtain ⟨x, hx, -⟩ := hr
  exact ⟨x, hx⟩

/-- The joins of a place have their aliases on the way to it. -/
theorem mem_placeSteps (hr : a.Reaches schema root (c ++ [h]) y) (he : h.edges schema = .ok es)
    (hrel : h.field.relation = some h.relation) {s : JoinStep}
    (hs : s ∈ a.placeSteps schema root (c ++ [h])) :
    ∃ keys, chainKeys schema c ++ [h.field.key] <+: keys ∧ keys <+: chainKeys schema (c ++ [h]) ∧
      a.follow (schema root).table keys = some s.tableAlias := by
  obtain ⟨x, hx⟩ := hr.of_prefix (List.prefix_append c [h])
  have hf := (reaches_snoc hx he).1 hr
  rw [placeSteps_snoc hx he] at hs
  obtain ⟨ks, k, hp, -, ht⟩ := mem_stepsAt hf hs
  refine ⟨chainKeys schema c ++ (ks ++ [k]), ?_, ?_, ?_⟩
  · refine (List.prefix_append_right_inj _).2 ?_
    obtain ⟨e, rest, rfl, hkey⟩ := relationEdges_key he hrel
    rw [← hkey]
    cases ks with
    | nil => simp_all
    | cons k' ks => simp_all
  · rw [chainKeys_append]
    refine (List.prefix_append_right_inj _).2 ?_
    simpa [chainKeys, Hop.keys_of_edges he] using hp
  · have hx' : a.follow (schema root).table (chainKeys schema c) = some x := hx
    rw [follow_append, hx']
    exact ht

theorem Extends.placeSteps (hext : Extends a b) (hr : a.Reaches schema root c y) :
    b.placeSteps schema root c = a.placeSteps schema root c := by
  obtain rfl | ⟨c, h, rfl⟩ := List.eq_nil_or_concat c
  · rfl
  · rw [List.concat_eq_append] at hr ⊢
    obtain ⟨x, hx⟩ := hr.of_prefix (List.prefix_append c [h])
    cases he : h.edges schema with
    | error e => simp only [Aliases.placeSteps, List.getLast?_concat, he]
    | ok es =>
      rw [placeSteps_snoc hx he, placeSteps_snoc (hx.extend hext) he]
      exact hext.stepsAt ((reaches_snoc hx he).1 hr)

end Aliases

/-- A chain of relations that can be joined and has an alias. -/
structure Placed (schema : Schema ι) (root : ι) (a : Aliases) (c : List (Hop ι)) : Prop where
  joinable : Joinable schema root c
  reached : ∃ y, a.Reaches schema root c y

section

variable {a b : Aliases} {c d : List (Hop ι)} {h : Hop ι}

theorem Placed.nil (a : Aliases) : Placed schema root a [] := ⟨.nil root, (schema root).table, rfl⟩

theorem Placed.of_prefix (hc : Placed schema root a c) (hd : d <+: c) : Placed schema root a d := by
  obtain ⟨y, hy⟩ := hc.reached
  exact ⟨hc.joinable.of_prefix hd, hy.of_prefix hd⟩

theorem Placed.extend (hc : Placed schema root a c) (he : Aliases.Extends a b) :
    Placed schema root b c := by
  obtain ⟨y, hy⟩ := hc.reached
  exact ⟨hc.joinable, y, hy.extend he⟩

theorem Placed.reaches (hc : Placed schema root a c) :
    a.Reaches schema root c (a.placeAlias schema root c) := by
  obtain ⟨y, hy⟩ := hc.reached
  rwa [hy.placeAlias]

theorem Placed.placeAlias_eq (hc : Placed schema root a c) (he : Aliases.Extends a b) :
    b.placeAlias schema root c = a.placeAlias schema root c :=
  (hc.reaches.extend he).placeAlias

theorem Placed.placeSteps_eq (hc : Placed schema root a c) (he : Aliases.Extends a b) :
    b.placeSteps schema root c = a.placeSteps schema root c :=
  he.placeSteps hc.reaches

theorem Placed.placeSteps_snoc (hc : Placed schema root a (c ++ [h])) :
    ∃ es, h.edges schema = .ok es ∧ h.field.relation = some h.relation ∧
      a.follow (a.placeAlias schema root c) (es.map (·.key)) =
        some (a.placeAlias schema root (c ++ [h])) ∧
      a.placeSteps schema root (c ++ [h]) = a.stepsAt (a.placeAlias schema root c) es := by
  obtain ⟨es, he⟩ := hc.joinable.edges h (by simp)
  obtain ⟨m, hl⟩ := hc.joinable.leads
  have hx := (hc.of_prefix (List.prefix_append c [h])).reaches
  exact ⟨es, he, (hl.mem h (by simp)).2, (Aliases.reaches_snoc hx he).1 hc.reaches,
    Aliases.placeSteps_snoc hx he⟩

/-- Naming a relation of a place gives a place. -/
theorem Placed.name {es : List Edge} {steps : List JoinStep} (hc : Placed schema root a c)
    (hl : ∃ m, Leads schema root (c ++ [h]) m) (he : h.edges schema = .ok es)
    (hn : Aliases.Named a b (a.placeAlias schema root c) es steps) :
    Placed schema root b (c ++ [h]) ∧ steps = b.placeSteps schema root (c ++ [h]) := by
  have hx := hc.reaches.extend hn.extend
  obtain ⟨y, hy⟩ := hn.follow
  refine ⟨⟨⟨hl, fun g hg => ?_⟩, y, (Aliases.reaches_snoc hx he).2 hy⟩, ?_⟩
  · rcases List.mem_append.1 hg with hg | hg
    · exact hc.joinable.edges g hg
    · exact ⟨es, List.mem_singleton.1 hg ▸ he⟩
  · rw [hn.steps, Aliases.placeSteps_snoc hx he]

end

end Orm
