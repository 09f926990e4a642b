import Orm.Proofs.Place.Alias

/-
The joins that relations take, before they have names.

A relation takes one join, or two if there is a junction between. Naming them never fails; all that can
fail is finding the columns that they compare (`outcome_relationSteps`).
-/

namespace Orm

structure Edge where
  parentTable : String
  /-- What the alias is counted by, beside the alias of the parent. -/
  key : String
  table : String
  parentColumn : String
  column : String
  toMany : Bool
  deriving DecidableEq

def Edge.step (e : Edge) (parentAlias tableAlias : String) : JoinStep :=
  ⟨parentAlias, e.table, tableAlias, e.parentColumn, e.column, e.toMany⟩

/-- What tells the fields of a model apart: the column, or the name of a relation without one. -/
def FieldDef.key {ι : Type} (f : FieldDef ι) : String := if f.hasColumn then f.column else f.name

namespace Aliases

/-- Names for edges that lead from an alias one after the other. -/
def nameAll (a : Aliases) : String → List Edge → List JoinStep × Aliases
  | _, [] => ([], a)
  | x, e :: es =>
    let (y, b) := a.tableAlias x e.parentTable e.key e.table
    let (steps, c) := b.nameAll y es
    (e.step x y :: steps, c)

/-- The joins of edges that have names. -/
def stepsAt (a : Aliases) : String → List Edge → List JoinStep
  | _, [] => []
  | x, e :: es =>
    let y := (a.assigned.lookup (x, e.key)).getD ""
    e.step x y :: a.stepsAt y es

variable {a b : Aliases} {x y : String} {es : List Edge}

theorem stepsAt_cons {e : Edge} (h : a.assigned.lookup (x, e.key) = some y) :
    a.stepsAt x (e :: es) = e.step x y :: a.stepsAt y es := by
  rw [stepsAt, h]
  rfl

theorem Extends.stepsAt (h : Extends a b) (hf : a.follow x (es.map (·.key)) = some y) :
    b.stepsAt x es = a.stepsAt x es := by
  induction es generalizing x with
  | nil => rfl
  | cons e es ih =>
    rw [List.map_cons, Aliases.follow, Option.bind_eq_some_iff] at hf
    obtain ⟨z, hz, hf⟩ := hf
    rw [stepsAt_cons hz, stepsAt_cons (h.assigned _ _ hz), ih hf]

theorem reached_stepsAt (hf : a.follow x (es.map (·.key)) = some y) :
    Naming.reached x (a.stepsAt x es) = y := by
  induction es generalizing x with
  | nil => exact Option.some.inj hf
  | cons e es ih =>
    rw [List.map_cons, Aliases.follow, Option.bind_eq_some_iff] at hf
    obtain ⟨z, hz, hf⟩ := hf
    rw [stepsAt_cons hz]
    have := ih hf
    unfold Naming.reached at this ⊢
    cases hl : (a.stepsAt z es).getLast? with
    | none =>
      rw [List.getLast?_eq_none_iff] at hl
      rw [hl] at this
      rw [hl, ← this]
      rfl
    | some s =>
      rw [hl] at this
      rw [List.getLast?_cons, hl]
      exact this

theorem mem_stepsAt {s : JoinStep} (hf : a.follow x (es.map (·.key)) = some y)
    (hm : s ∈ a.stepsAt x es) : ∃ ks k, ks ++ [k] <+: es.map (·.key) ∧
      a.follow x ks = some s.parentAlias ∧ a.follow x (ks ++ [k]) = some s.tableAlias := by
  induction es generalizing x with
  | nil => exact absurd hm List.not_mem_nil
  | cons e es ih =>
    rw [List.map_cons, Aliases.follow, Option.bind_eq_some_iff] at hf
    obtain ⟨z, hz, hf⟩ := hf
    rw [stepsAt_cons hz] at hm
    rcases List.mem_cons.1 hm with rfl | hm
    · refine ⟨[], e.key, by simp, rfl, ?_⟩
      rw [follow_snoc]
      exact hz
    · obtain ⟨ks, k, hp, hp', ht⟩ := ih hf hm
      refine ⟨e.key :: ks, k, by simpa using hp, ?_, ?_⟩
      · rw [Aliases.follow, hz]
        exact hp'
      · rw [List.cons_append, Aliases.follow, hz]
        exact ht

/-- Every alias of `b` is one of `a`, or lies on the way along the edges. -/
def OnlyAlong (a b : Aliases) (x : String) (keys : List String) : Prop :=
  ∀ z k y, b.assigned.lookup (z, k) = some y →
    a.assigned.lookup (z, k) = some y ∨ ∃ ks, ks ++ [k] <+: keys ∧ b.follow x ks = some z

/-- What naming edges comes to. -/
structure Named (a b : Aliases) (x : String) (es : List Edge) (steps : List JoinStep) : Prop where
  sound : b.Sound
  extend : Extends a b
  follow : ∃ y, b.follow x (es.map (·.key)) = some y
  steps : steps = b.stepsAt x es
  onlyAlong : OnlyAlong a b x (es.map (·.key))

theorem nameAll_named (hs : a.Sound) (x : String) (es : List Edge) :
    Named a (a.nameAll x es).2 x es (a.nameAll x es).1 := by
  induction es generalizing a x with
  | nil => exact ⟨hs, .refl a, ⟨x, rfl⟩, rfl, fun z k y h => .inl h⟩
  | cons e es ih =>
    have hname := hs.tableAlias x e.parentTable e.key e.table
    rw [nameAll]
    rcases ht : a.tableAlias x e.parentTable e.key e.table with ⟨y, b⟩
    rw [ht] at hname
    obtain ⟨hb, hext, hy, honly⟩ := hname
    have h := ih hb y
    dsimp only
    have hy' := h.extend.assigned _ _ hy
    obtain ⟨w, hw⟩ := h.follow
    refine ⟨h.sound, hext.trans h.extend, ⟨w, ?_⟩, ?_, fun z k v hv => ?_⟩
    · rw [List.map_cons, Aliases.follow, hy']
      exact hw
    · rw [stepsAt_cons hy', h.steps]
    · obtain h' | ⟨ks, hks, hz⟩ := h.onlyAlong z k v hv
      · refine (honly _ _ h').imp id fun hk => ⟨[], ?_⟩
        obtain ⟨rfl, rfl⟩ := Prod.mk.inj hk
        exact ⟨by simp, rfl⟩
      · refine .inr ⟨e.key :: ks, by simpa using hks, ?_⟩
        rw [Aliases.follow, hy']
        exact hz

end Aliases

/-! ## Relations -/

variable {ι : Type} {schema : Schema ι}

/-- The joins of a relation that `parent` declares as `f`. -/
def relationEdges (schema : Schema ι) (parent : Model ι) (f : FieldDef ι) (r : Relation ι) :
    Result (List Edge) := do
  let target := schema r.target
  let targetPk ← target.pk
  if r.ownsColumn then
    return [⟨parent.table, f.column, target.table, f.column, targetPk.column, false⟩]
  let parentPk ← parent.pk
  if r.kind = .manyToMany then
    let junction ← r.junction schema parent f.name
    return [⟨parent.table, f.name, junction.table, parentPk.column, junction.sourceColumn, true⟩,
      ⟨junction.table, junction.targetColumn, target.table, junction.targetColumn, targetPk.column,
        false⟩]
  match r.relatedField with
  | none => throw (.unknownField target.table ("<reverse of " ++ f.name ++ ">"))
  | some related =>
    let related ← target.field related
    return [⟨parent.table, f.name, target.table, parentPk.column, related.column, r.toMany⟩]

/-- Finding the columns of a relation's joins may fail; naming them does not. -/
theorem outcome_relationSteps (x : String) (parent : Model ι) (f : FieldDef ι) (r : Relation ι)
    (a : Aliases) : outcome (Naming.relationSteps schema x parent f r) a =
      match relationEdges schema parent f r with
      | .ok es => (.ok (a.nameAll x es).1, (a.nameAll x es).2)
      | .error e => (.error e, a) := by
  unfold Naming.relationSteps relationEdges
  dsimp only
  rcases (schema r.target).pk with e | targetPk
  · rfl
  by_cases how : r.ownsColumn = true
  · rw [how]
    rfl
  rw [Bool.eq_false_iff.2 how]
  rcases parent.pk with e | parentPk
  · rfl
  by_cases hk : r.kind = .manyToMany
  · simp only [hk, if_true]
    rcases r.junction schema parent f.name with e | junction <;> rfl
  · simp only [hk, if_false]
    rcases r.relatedField with _ | related
    · rfl
    dsimp only
    rcases (schema r.target).field related with e | g <;> rfl

/-- A relation with a column takes one join, any other relation one too unless a junction is between. -/
theorem relationEdges_cases {parent : Model ι} {f : FieldDef ι} {r : Relation ι} {es : List Edge}
    (h : relationEdges schema parent f r = .ok es) :
    ∃ targetPk, (schema r.target).pk = .ok targetPk ∧
      (r.ownsColumn = true ∧
          es = [⟨parent.table, f.column, (schema r.target).table, f.column, targetPk.column, false⟩] ∨
        r.ownsColumn = false ∧ ∃ parentPk, parent.pk = .ok parentPk ∧
          (r.kind = .manyToMany ∧ (∃ j, r.junction schema parent f.name = .ok j ∧
              es = [⟨parent.table, f.name, j.table, parentPk.column, j.sourceColumn, true⟩,
                ⟨j.table, j.targetColumn, (schema r.target).table, j.targetColumn, targetPk.column,
                  false⟩]) ∨
            r.kind ≠ .manyToMany ∧ ∃ related g, r.relatedField = some related ∧
              (schema r.target).field related = .ok g ∧
              es = [⟨parent.table, f.name, (schema r.target).table, parentPk.column, g.column,
                r.toMany⟩])) := by
  simp only [relationEdges, bind_eq_ok] at h
  obtain ⟨targetPk, ht, h⟩ := h
  refine ⟨targetPk, ht, ?_⟩
  split at h
  · rename_i how
    exact .inl ⟨how, (pure_eq_ok.1 h).symm⟩
  · rename_i how
    refine .inr ⟨Bool.eq_false_iff.2 how, ?_⟩
    obtain ⟨parentPk, hp, h⟩ := bind_eq_ok.1 h
    refine ⟨parentPk, hp, ?_⟩
    split at h
    · rename_i hk
      obtain ⟨j, hj, h⟩ := bind_eq_ok.1 h
      exact .inl ⟨hk, j, hj, (pure_eq_ok.1 h).symm⟩
    · rename_i hk
      split at h
      · exact absurd h throw_ne_ok
      · rename_i related hr
        obtain ⟨g, hg, h⟩ := bind_eq_ok.1 h
        exact .inr ⟨hk, related, g, hr, hg, (pure_eq_ok.1 h).symm⟩

section

variable {parent : Model ι} {f : FieldDef ι} {r : Relation ι} {es : List Edge}

theorem relationEdges_key (h : relationEdges schema parent f r = .ok es) (hr : f.relation = some r) :
    ∃ e rest, es = e :: rest ∧ e.key = f.key := by
  have hcol : f.hasColumn = r.ownsColumn := by rw [FieldDef.hasColumn, hr]
  obtain ⟨_, -, ⟨how, rfl⟩ | ⟨how, _, -, ⟨-, _, -, rfl⟩ | ⟨-, _, _, -, -, rfl⟩⟩⟩ :=
    relationEdges_cases h
  all_goals exact ⟨_, _, rfl, by simp [FieldDef.key, hcol, how]⟩

/-- A relation to many takes a join to many. -/
theorem relationEdges_toMany (h : relationEdges schema parent f r = .ok es) :
    es.any (·.toMany) = r.toMany := by
  obtain ⟨_, -, ⟨how, rfl⟩ | ⟨how, _, -, ⟨hk, _, -, rfl⟩ | ⟨-, _, _, -, -, rfl⟩⟩⟩ :=
    relationEdges_cases h
  · simp [Relation.toMany_eq_false how]
  · simp [Relation.toMany, hk]
  · simp

theorem relationEdges_length (h : relationEdges schema parent f r = .ok es) :
    es.length = if r.kind = .manyToMany then 2 else 1 := by
  obtain ⟨_, -, ⟨how, rfl⟩ | ⟨how, _, -, ⟨hk, _, -, rfl⟩ | ⟨hk, _, _, -, -, rfl⟩⟩⟩ :=
    relationEdges_cases h
  · have : r.kind ≠ .manyToMany := by
      rintro hk
      simp [Relation.ownsColumn, hk] at how
    rw [if_neg this]
    rfl
  · rw [if_pos hk]
    rfl
  · rw [if_neg hk]
    rfl

end

/-! ## Chains -/

def Hop.edges (schema : Schema ι) (h : Hop ι) : Result (List Edge) :=
  relationEdges schema (schema h.source) h.field h.relation

/-- What the aliases of a hop's joins are counted by. -/
def Hop.keys (schema : Schema ι) (h : Hop ι) : List String :=
  match h.edges schema with
  | .ok es => es.map (·.key)
  | .error _ => []

def chainKeys (schema : Schema ι) (chain : List (Hop ι)) : List String :=
  chain.flatMap (Hop.keys schema)

/-- No two relation fields of a model have one key. -/
def JoinKeysDistinct (schema : Schema ι) : Prop :=
  ∀ i, ∀ f ∈ (schema i).fields, ∀ g ∈ (schema i).fields,
    f.isRelation = true → g.isRelation = true → f.key = g.key → f = g

/-- A chain of relations that can be joined. -/
structure Joinable (schema : Schema ι) (root : ι) (chain : List (Hop ι)) : Prop where
  leads : ∃ m, Leads schema root chain m
  edges : ∀ h ∈ chain, ∃ es, h.edges schema = .ok es

theorem Joinable.nil (root : ι) : Joinable schema root [] := ⟨⟨root, rfl⟩, by simp⟩

theorem Joinable.of_append {root : ι} {a b : List (Hop ι)} (h : Joinable schema root (a ++ b)) :
    Joinable schema root a := by
  obtain ⟨⟨m, hl⟩, he⟩ := h
  obtain ⟨n, ha, -⟩ := hl.of_append
  exact ⟨⟨n, ha⟩, fun x hx => he x (List.mem_append_left b hx)⟩

theorem Joinable.of_prefix {root : ι} {a b : List (Hop ι)} (h : Joinable schema root b)
    (hp : a <+: b) : Joinable schema root a := by
  obtain ⟨c, rfl⟩ := hp
  exact h.of_append

theorem chainKeys_append (a b : List (Hop ι)) :
    chainKeys schema (a ++ b) = chainKeys schema a ++ chainKeys schema b :=
  List.flatMap_append

theorem Hop.keys_of_edges {h : Hop ι} {es : List Edge} (he : h.edges schema = .ok es) :
    h.keys schema = es.map (·.key) := by
  rw [Hop.keys, he]

theorem Hop.keys_eq_cons {h : Hop ι} {es : List Edge} (he : h.edges schema = .ok es)
    (hr : h.field.relation = some h.relation) : ∃ ks, h.keys schema = h.field.key :: ks := by
  obtain ⟨e, rest, rfl, hk⟩ := relationEdges_key he hr
  exact ⟨rest.map (·.key), by rw [Hop.keys_of_edges he, List.map_cons, hk]⟩

theorem Hop.eq_of_key (hk : JoinKeysDistinct schema) {g h : Hop ι} (hs : g.source = h.source)
    (hg : g.field ∈ (schema g.source).fields) (hh : h.field ∈ (schema h.source).fields)
    (hgr : g.field.relation = some g.relation) (hhr : h.field.relation = some h.relation)
    (he : g.field.key = h.field.key) : g = h := by
  have hf : g.field = h.field :=
    hk g.source g.field hg h.field (hs ▸ hh) (by simp [FieldDef.isRelation, hgr])
      (by simp [FieldDef.isRelation, hhr]) he
  have hr : g.relation = h.relation := by
    rw [hf, hhr] at hgr
    exact (Option.some.inj hgr).symm
  cases g
  cases h
  simp_all

/-- Keys say which relations a chain crosses. -/
theorem chain_prefix_of_keys (hk : JoinKeysDistinct schema) {m k k' : ι} {c c' : List (Hop ι)}
    {h : Hop ι} (hl : Leads schema m (c ++ [h]) k) (he : ∀ x ∈ c ++ [h], ∃ es, x.edges schema = .ok es)
    (hl' : Leads schema m c' k') (he' : ∀ x ∈ c', ∃ es, x.edges schema = .ok es)
    (hp : chainKeys schema c ++ [h.field.key] <+: chainKeys schema c') : c ++ [h] <+: c' := by
  induction c generalizing m c' with
  | nil =>
    obtain ⟨hs, hf, hr, -⟩ := hl
    cases c' with
    | nil => simp [chainKeys] at hp
    | cons g c' =>
      obtain ⟨hs', hf', hr', -⟩ := hl'
      obtain ⟨es, hes⟩ := he' g List.mem_cons_self
      obtain ⟨ks, hks⟩ := Hop.keys_eq_cons hes hr'
      have hkey : h.field.key = g.field.key := by
        simp only [chainKeys, List.flatMap_nil, List.nil_append, List.flatMap_cons, hks,
          List.cons_append, List.cons_prefix_cons] at hp
        exact hp.1
      have : h = g := Hop.eq_of_key hk (hs.trans hs'.symm) (hs ▸ hf) (hs' ▸ hf') hr hr' hkey
      simp [this]
  | cons g c ih =>
    obtain ⟨hs, hf, hr, hl⟩ := hl
    cases c' with
    | nil =>
      have := hp.length_le
      simp [chainKeys] at this
    | cons g' c' =>
      obtain ⟨hs', hf', hr', hl'⟩ := hl'
      obtain ⟨es, hes⟩ := he g List.mem_cons_self
      obtain ⟨es', hes'⟩ := he' g' List.mem_cons_self
      obtain ⟨ks, hks⟩ := Hop.keys_eq_cons hes hr
      obtain ⟨ks', hks'⟩ := Hop.keys_eq_cons hes' hr'
      have hkey : g.field.key = g'.field.key := by
        simp only [chainKeys, List.flatMap_cons, hks, hks', List.cons_append,
          List.cons_prefix_cons] at hp
        exact hp.1
      obtain rfl : g = g' := Hop.eq_of_key hk (hs.trans hs'.symm) (hs ▸ hf) (hs' ▸ hf') hr hr' hkey
      have hp' : chainKeys schema c ++ [h.field.key] <+: chainKeys schema c' := by
        simpa [chainKeys, List.append_assoc, List.prefix_append_right_inj] using hp
      have := ih hl (fun x hx => he x (List.mem_cons_of_mem g hx)) hl'
        (fun x hx => he' x (List.mem_cons_of_mem g hx)) hp'
      simpa using this

end Orm
