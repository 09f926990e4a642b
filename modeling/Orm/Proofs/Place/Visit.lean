import Orm.Proofs.Place.Joined

/-
What resolving a path does: it visits the places along the path, and no other (`resolvePath_visits`).
-/

namespace Orm

variable {ι α β : Type} {schema : Schema ι} {root : ι}

/-! ## Naming a chain -/

/-- Names given out so far stay, and are given to one relation each. -/
def Grown (before a : Aliases) : Prop := a.Sound ∧ Aliases.Extends before a

theorem Grown.named {before a b : Aliases} {x : String} {es : List Edge} {steps : List JoinStep}
    (h : Grown before a) (hn : Aliases.Named a b x es steps) : Grown before b :=
  ⟨hn.sound, h.2.trans hn.extend⟩

theorem relationSteps_grown (before : Aliases) (x : String) (parent : Model ι) (f : FieldDef ι)
    (r : Relation ι) :
    Keeps (Grown before) (Naming.relationSteps schema x parent f r) fun _ => True := by
  intro a ha
  rw [outcome_relationSteps]
  cases relationEdges schema parent f r with
  | error e => exact ⟨ha, fun _ _ => trivial⟩
  | ok es => exact ⟨ha.named (Aliases.nameAll_named ha.1 x es), fun _ _ => trivial⟩

theorem chain_grown (before : Aliases) (x : String) (chain : List (Hop ι)) :
    Keeps (Grown before) (Naming.chain schema x chain) fun _ => True := by
  induction chain generalizing x with
  | nil => exact Keeps.of_pure trivial
  | cons h chain ih =>
    unfold Naming.chain
    exact (relationSteps_grown before x _ _ _).bind fun _ _ => (ih _).bind fun _ _ =>
      Keeps.of_pure trivial

theorem hop_grown (before : Aliases) (x : String) (parent : Model ι) (f : FieldDef ι) :
    Keeps (Grown before) (Naming.hop schema x parent f) fun _ => True := by
  unfold Naming.hop
  split
  · exact Keeps.of_throw
  · exact relationSteps_grown before x parent f _

/-- What naming the relations of a chain comes to. -/
structure ChainNamed (schema : Schema ι) (root : ι) (base rest : List (Hop ι)) (a : Aliases)
    (r : Result (List (List JoinStep × String))) (b : Aliases) : Prop where
  grown : Grown a b
  ok : ∀ out, r = .ok out → Placed schema root b (base ++ rest) ∧
    out = (placesFrom base rest).map fun c =>
      (b.placeSteps schema root c, b.placeAlias schema root c)
  error : ∀ e, r = .error e → ∃ h ∈ rest, ∀ es, h.edges schema ≠ .ok es

theorem reached_placeSteps {a b : Aliases} {base : List (Hop ι)} {h : Hop ι}
    (hb : Placed schema root a base) (hp : Placed schema root b (base ++ [h]))
    (he : Aliases.Extends a b) :
    Naming.reached (a.placeAlias schema root base) (b.placeSteps schema root (base ++ [h])) =
      b.placeAlias schema root (base ++ [h]) := by
  obtain ⟨es, -, -, hf, hst⟩ := hp.placeSteps_snoc
  rw [hb.placeAlias_eq he] at hf hst
  rw [hst]
  exact Aliases.reached_stepsAt hf

theorem chain_grows {a b : Aliases} {x : String} {chain : List (Hop ι)}
    {r : Result (List (List JoinStep × String))} (ha : a.Sound)
    (ho : outcome (Naming.chain schema x chain) a = (r, b)) : Grown a b := by
  have hkeeps : Keeps (Grown a) (Naming.chain schema x chain) fun _ => True :=
    chain_grown a x chain
  have := (hkeeps a ⟨ha, .refl a⟩).1
  rwa [ho] at this

theorem chain_named {a b : Aliases} {base rest : List (Hop ι)}
    {r : Result (List (List JoinStep × String))} (ha : a.Sound) (hb : Placed schema root a base)
    (hl : ∃ m, Leads schema root (base ++ rest) m)
    (ho : outcome (Naming.chain schema (a.placeAlias schema root base) rest) a = (r, b)) :
    ChainNamed schema root base rest a r b := by
  have hgrown := chain_grows ha ho
  induction rest generalizing a base r b with
  | nil =>
    cases ho
    refine ⟨hgrown, fun out h => ⟨by rwa [List.append_nil], ?_⟩, fun e h => by cases h⟩
    cases h
    rfl
  | cons h rest ih =>
    have hstep := @outcome_relationSteps ι schema (a.placeAlias schema root base)
      (schema h.source) h.field h.relation a
    rw [Naming.chain, outcome_bind, hstep] at ho
    cases he : relationEdges schema (schema h.source) h.field h.relation with
    | error e =>
      rw [he] at ho
      cases ho
      refine ⟨hgrown, fun out h => (by cases h), fun e' _ => ⟨h, List.mem_cons_self, fun es hes => ?_⟩⟩
      rw [Hop.edges, he] at hes
      cases hes
    | ok es =>
      rw [he] at ho
      dsimp only at ho
      have hn := Aliases.nameAll_named ha (a.placeAlias schema root base) es
      rcases hname : a.nameAll (a.placeAlias schema root base) es with ⟨steps, c⟩
      rw [hname] at hn ho
      dsimp only at hn
      have hl' : ∃ m, Leads schema root (base ++ [h] ++ rest) m := by simpa using hl
      obtain ⟨n, hleads, -⟩ := hl'.choose_spec.of_append
      obtain ⟨hplaced, rfl⟩ := hb.name ⟨n, hleads⟩ he hn
      rw [reached_placeSteps hb hplaced hn.extend, outcome_bind] at ho
      rcases hrest : outcome (Naming.chain schema (c.placeAlias schema root (base ++ [h])) rest) c
        with ⟨r', d⟩
      have hnamed := ih hn.sound hplaced hl' hrest (chain_grows hn.sound hrest)
      rw [hrest] at ho
      cases r' with
      | error e =>
        cases ho
        refine ⟨hgrown, fun out h => (by cases h), fun e' _ => ?_⟩
        obtain ⟨g, hg, hne⟩ := hnamed.error e rfl
        exact ⟨g, List.mem_cons_of_mem h hg, hne⟩
      | ok more =>
        cases ho
        obtain ⟨hlast, hmore⟩ := hnamed.ok more rfl
        refine ⟨hgrown, fun out hout => ⟨by simpa using hlast, ?_⟩, fun e h => by cases h⟩
        cases hout
        rw [placesFrom, List.map_cons, ← hmore, hplaced.placeSteps_eq hnamed.grown.2,
          hplaced.placeAlias_eq hnamed.grown.2]

/-! ## Joining -/

theorem joinRelation_eq (x : String) (m : ι) {f : FieldDef ι} {r : Relation ι} (kind : JoinKind)
    (hr : f.relation = some r) (s : Scope) : outcome (joinRelation schema x m f kind) s =
      outcome (joinChain schema x [⟨m, f, r⟩] kind >>= fun hops =>
        pure (hops.getLast?.getD x)) s := by
  unfold joinRelation joinChain Naming.hop Naming.chain Naming.chain
  simp only [hr, bind_assoc, pure_bind, outcome_bind, outcome_naming]
  rcases outcome (Naming.relationSteps schema x (schema m) f r) s.aliases with ⟨steps | e, b⟩
  · rfl
  · simp

theorem last_placesFrom (a : Aliases) (schema : Schema ι) (root : ι) (base rest : List (Hop ι)) :
    ((placesFrom base rest).map (a.placeAlias schema root)).getLast?.getD
      (a.placeAlias schema root base) = a.placeAlias schema root (base ++ rest) := by
  rw [List.getLast?_map, ← getLast?_placesFrom base rest]
  cases (placesFrom base rest).getLast? <;> rfl

/-! ## Runs that only add names -/

def Grows (x : Resolving α) : Prop :=
  ∀ before, Keeps (fun s => Grown before s.aliases) x fun _ => True

theorem Grows.grown {x : Resolving α} (h : Grows x) {s t : Scope} {r : Result α}
    (hs : s.aliases.Sound) (ho : outcome x s = (r, t)) : Grown s.aliases t.aliases := by
  have := (h s.aliases s ⟨hs, .refl _⟩).1
  rwa [ho] at this

theorem Grows.extends {x : Resolving α} (h : Grows x) {s t : Scope} {a : α}
    (hs : s.aliases.Sound) (hy : Yields x s a t) : Aliases.Extends s.aliases t.aliases :=
  (h.grown hs hy).2

theorem Grows.sound {x : Resolving α} (h : Grows x) {s t : Scope} {a : α} (hs : s.aliases.Sound)
    (hy : Yields x s a t) : t.aliases.Sound :=
  (h.grown hs hy).1

theorem Grows.bind {x : Resolving α} {f : α → Resolving β} (hx : Grows x) (hf : ∀ a, Grows (f a)) :
    Grows (x >>= f) :=
  fun before => (hx before).bind fun a _ => hf a before

theorem Grows.of_pure {a : α} : Grows (pure a) := fun _ => Keeps.of_pure trivial

theorem Grows.of_throw {e : Error} : Grows (throw e : Resolving α) := fun _ => Keeps.of_throw

theorem Grows.ofResult {r : Result α} : Grows (Resolving.ofResult r) :=
  fun _ => Keeps.ofResult fun _ _ => trivial

theorem Grows.mapM {f : β → Resolving α} {l : List β} (h : ∀ b ∈ l, Grows (f b)) :
    Grows (l.mapM f) :=
  fun before => (Keeps.mapM fun b hb => h b hb before).imp fun _ _ => trivial

theorem joinChain_grows (x : String) (chain : List (Hop ι)) (kind : JoinKind) :
    Grows (joinChain schema x chain kind) := by
  intro before
  refine ((chain_grown before x chain).naming (fun s h => h) fun s a _ h => h).bind fun hops _ => ?_
  refine Keeps.bind (Q := fun _ => True) (Keeps.of_modify (fun s h => ?_) trivial) fun _ _ =>
    Keeps.of_pure trivial
  rw [Scope.foldl_addStep_aliases]
  exact h

theorem joinRelation_grows (x : String) (m : ι) (f : FieldDef ι) (kind : JoinKind) :
    Grows (joinRelation schema x m f kind) := by
  intro before
  refine ((hop_grown before x (schema m) f).naming (fun s h => h) fun s a _ h => h).bind
    fun steps _ => ?_
  refine Keeps.bind (Q := fun _ => True) (Keeps.of_modify (fun s h => ?_) trivial) fun _ _ =>
    Keeps.of_pure trivial
  rw [Scope.foldl_addStep_aliases]
  exact h

/-! ## Joining places -/

section

variable {others : List String} {s t : Scope} {joined : List (List (Hop ι))}
  {base rest : List (Hop ι)} {kind : JoinKind}

theorem Mapped.placed_base (hm : Mapped schema root others s joined)
    (hb : base = [] ∨ base ∈ joined) : Placed schema root s.aliases base := by
  rcases hb with rfl | hb
  · exact .nil _
  · exact hm.placed base hb

/-- A chain that is joined has the names of its places, and joins them under these. -/
theorem joinChain_named (hs : s.aliases.Sound) (hb : Placed schema root s.aliases base)
    (hl : ∃ m, Leads schema root (base ++ rest) m) {hops : List String}
    (hy : Yields (joinChain schema (s.aliases.placeAlias schema root base) rest kind) s hops t) :
    Grown s.aliases t.aliases ∧ Placed schema root t.aliases (base ++ rest) ∧
      hops = (placesFrom base rest).map (t.aliases.placeAlias schema root) ∧
      t = ((placesFrom base rest).flatMap (t.aliases.placeSteps schema root)).foldl
        (Scope.addStep kind) { s with aliases := t.aliases } := by
  simp only [joinChain, addSteps, Yields.bind_iff, Yields.pure_iff, Yields.modify_iff] at hy
  obtain ⟨out, _, hn, _, _, rfl, rfl, rfl⟩ := hy
  unfold Yields at hn
  rw [outcome_naming] at hn
  rcases ho : outcome (Naming.chain schema (s.aliases.placeAlias schema root base) rest) s.aliases
    with ⟨r, b⟩
  rw [ho] at hn
  cases hn
  have hnamed := chain_named hs hb hl ho
  obtain ⟨hplaced, rfl⟩ := hnamed.ok out rfl
  rw [Scope.foldl_addStep_aliases, List.flatMap_map]
  exact ⟨hnamed.grown, hplaced, by simp, rfl⟩

/-- A relation that is joined has the name of its place. -/
theorem joinRelation_named (hs : s.aliases.Sound) (hb : Placed schema root s.aliases base) {m n : ι}
    {f : FieldDef ι} {r : Relation ι} (hr : f.relation = some r)
    (hl : Leads schema root (base ++ [⟨m, f, r⟩]) n) {y : String}
    (hy : Yields (joinRelation schema (s.aliases.placeAlias schema root base) m f kind) s y t) :
    Placed schema root t.aliases (base ++ [⟨m, f, r⟩]) ∧
      y = t.aliases.placeAlias schema root (base ++ [⟨m, f, r⟩]) := by
  unfold Yields at hy
  rw [joinRelation_eq _ m kind hr] at hy
  obtain ⟨hops, t', hj, hp⟩ := Yields.bind_iff.1 hy
  obtain ⟨rfl, rfl⟩ := Yields.pure_iff.1 hp
  obtain ⟨hgrown, hplaced, rfl, -⟩ := joinChain_named hs hb ⟨_, hl⟩ hj
  refine ⟨hplaced, ?_⟩
  rw [← hb.placeAlias_eq hgrown.2, last_placesFrom]

variable [DecidableEq ι]

/-- A chain that is joined is visited. -/
theorem joinChain_visited (hk : JoinKeysDistinct schema)
    (hm : Mapped schema root others s joined) (hb : base = [] ∨ base ∈ joined)
    (hl : ∃ m, Leads schema root (base ++ rest) m) {hops : List String}
    (hy : Yields (joinChain schema (s.aliases.placeAlias schema root base) rest kind) s hops t)
    (hc : Clean schema root others t.aliases) :
    Visited schema root others s joined ((placesFrom base rest).map (Visit.mk kind)) t ∧
      Placed schema root t.aliases (base ++ rest) ∧
      hops = (placesFrom base rest).map (t.aliases.placeAlias schema root) := by
  obtain ⟨hgrown, hplaced, hhops, ht⟩ := joinChain_named hm.sound (hm.placed_base hb) hl hy
  have hv := (hm.name hgrown.1 hgrown.2).visitFrom hk kind hc hplaced hb
  rw [← ht] at hv
  exact ⟨⟨hv.mapped, hgrown.2, hv.joins⟩, hplaced, hhops⟩

theorem joinRoot_visited (hk : JoinKeysDistinct schema) (hm : Mapped schema root others s joined)
    {chain : List (Hop ι)} (hl : ∃ m, Leads schema root chain m) {hops : List String}
    (hy : Yields (joinChain schema (schema root).table chain kind) s hops t)
    (hc : Clean schema root others t.aliases) :
    Visited schema root others s joined ((placesFrom [] chain).map (Visit.mk kind)) t ∧
      Placed schema root t.aliases chain ∧
      hops = (placesFrom [] chain).map (t.aliases.placeAlias schema root) ∧
      hops.getLast?.getD (schema root).table = t.aliases.placeAlias schema root chain := by
  have hstart : Yields (joinChain schema (s.aliases.placeAlias schema root []) chain kind) s
      hops t :=
    hy
  obtain ⟨hv, hplaced, rfl⟩ := joinChain_visited hk hm (.inl rfl) hl hstart hc
  exact ⟨hv, hplaced, rfl, last_placesFrom t.aliases schema root [] chain⟩

/-- A relation that is joined is visited. -/
theorem joinRelation_visited (hk : JoinKeysDistinct schema)
    (hm : Mapped schema root others s joined) (hb : base = [] ∨ base ∈ joined) {m : ι}
    {f : FieldDef ι} {r : Relation ι} (hr : f.relation = some r)
    (hl : Leads schema root (base ++ [⟨m, f, r⟩]) r.target) {y : String}
    (hy : Yields (joinRelation schema (s.aliases.placeAlias schema root base) m f kind) s y t)
    (hc : Clean schema root others t.aliases) :
    Visited schema root others s joined [⟨kind, base ++ [⟨m, f, r⟩]⟩] t ∧
      Placed schema root t.aliases (base ++ [⟨m, f, r⟩]) ∧
      y = t.aliases.placeAlias schema root (base ++ [⟨m, f, r⟩]) := by
  refine ⟨?_, joinRelation_named hm.sound (hm.placed_base hb) hr hl hy⟩
  unfold Yields at hy
  rw [joinRelation_eq _ m kind hr] at hy
  obtain ⟨hops, t', hj, hp⟩ := Yields.bind_iff.1 hy
  obtain ⟨rfl, rfl⟩ := Yields.pure_iff.1 hp
  exact (joinChain_visited hk hm hb ⟨_, hl⟩ hj hc).1

/-! ## Runs that visit places -/

/-- A run that visits places; what holds of its result holds however many names follow. -/
structure Visits (schema : Schema ι) (root : ι) (others : List String) (x : Resolving α)
    (visits : List (Visit ι)) (Q : Aliases → α → Prop) : Prop where
  grows : Grows x
  visited : ∀ s joined a t, Mapped schema root others s joined → Yields x s a t →
    Clean schema root others t.aliases → Visited schema root others s joined visits t ∧
      ∀ b, Aliases.Extends t.aliases b → Q b a

namespace Visits

variable {x : Resolving α} {visits more : List (Visit ι)} {Q : Aliases → α → Prop}

theorem of_pure {a : α} (h : ∀ b, Q b a) : Visits schema root others (pure a) [] Q where
  grows := .of_pure
  visited s joined a' t hm hy _ := by
    obtain ⟨rfl, rfl⟩ := Yields.pure_iff.1 hy
    exact ⟨.refl hm, fun b _ => h b⟩

theorem of_throw {e : Error} : Visits schema root others (throw e) visits Q where
  grows := .of_throw
  visited _ _ _ _ _ hy _ := absurd hy Yields.not_throw

theorem of_result {r : Result α} (h : ∀ a b, r = .ok a → Q b a) :
    Visits schema root others (Resolving.ofResult r) [] Q where
  grows := .ofResult
  visited s joined a' t hm hy _ := by
    obtain ⟨hr, rfl⟩ := Yields.mk_pure_iff.1 hy
    exact ⟨.refl hm, fun b _ => h a' b hr⟩

theorem bind {f : α → Resolving β} {R : α → Aliases → β → Prop} {S : Aliases → β → Prop}
    (hx : Visits schema root others x visits Q)
    (hf : ∀ a, Visits schema root others (f a) more (R a))
    (hs : ∀ b a c, Q b a → R a b c → S b c) :
    Visits schema root others (x >>= f) (visits ++ more) S where
  grows := hx.grows.bind fun a => (hf a).grows
  visited s joined c u hm hy hc := by
    obtain ⟨a, t, hy, hy'⟩ := Yields.bind_iff.1 hy
    have hext := (hf a).grows.extends (hx.grows.sound hm.sound hy) hy'
    obtain ⟨hv, hq⟩ := hx.visited s joined a t hm hy (hc.of_extends hext)
    obtain ⟨hv', hr⟩ := (hf a).visited t _ c u hv.mapped hy' hc
    exact ⟨hv.trans hv', fun b hb => hs b a c (hq b (hv'.extend.trans hb)) (hr b hb)⟩

/-- A result that is only put into a larger one. -/
theorem map {g : α → β} {F : Aliases → α}
    (hx : Visits schema root others x visits fun b a => a = F b) :
    Visits schema root others (x >>= fun a => pure (g a)) visits fun b c => c = g (F b) := by
  have h := hx.bind (R := fun a _ c => c = g a) (S := fun b c => c = g (F b))
    (fun a => of_pure fun _ => rfl) fun b a c ha hc => by rw [hc, ha]
  rwa [List.append_nil] at h

/-- A check before a run. -/
theorem after_result {r : Result α} {f : α → Resolving β} {S : Aliases → β → Prop}
    (hf : ∀ a, r = .ok a → Visits schema root others (f a) visits S) :
    Visits schema root others (Resolving.ofResult r >>= f) visits S := by
  cases r with
  | ok a => exact hf a rfl
  | error e => exact of_throw

theorem mapM {f : β → Resolving α} {visitsOf : β → List (Visit ι)} {g : Aliases → β → α}
    {l : List β} (h : ∀ c ∈ l, Visits schema root others (f c) (visitsOf c) fun b a => a = g b c) :
    Visits schema root others (l.mapM f) (l.flatMap visitsOf) fun b as => as = l.map (g b) := by
  induction l with
  | nil => exact of_pure fun _ => rfl
  | cons c l ih =>
    rw [List.mapM_cons, List.flatMap_cons]
    refine (h c List.mem_cons_self).bind
      (fun a => (ih fun c' hc' => h c' (List.mem_cons_of_mem c hc')).map) ?_
    rintro b a as rfl rfl
    rfl

end Visits

end

end Orm
