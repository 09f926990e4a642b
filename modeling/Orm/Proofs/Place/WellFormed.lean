import Orm.Proofs.Paired
import Orm.Proofs.Place.Query

/-
The plan of the columns of a SELECT is well formed, whatever tables the query joins: its nodes form a
tree along relations, and its entries are the columns of the statement (`compileSelect_wellFormed`,
`compileSelect_columns`).
-/

namespace Orm

variable {ι : Type} {schema : Schema ι} {root : ι} {α β : Type}

/-! ## Well-formed plans -/

/-- A node that hangs below one before it, at the other end of a relation of that one's model. -/
structure ScanPlan.Below (schema : Schema ι) (s : ScanPlan ι) (i p : Nat) (n above : ScanNode ι)
    (f : FieldDef ι) (r : Relation ι) : Prop where
  lt : p < i
  parent : n.parent = some p
  node : s.nodes[p]? = some above
  relation : n.relation = some f
  declared : f ∈ (schema above.model).fields
  target : f.relation = some r
  model : n.model = r.target

structure ScanPlan.WellFormed (schema : Schema ι) (root : ι) (s : ScanPlan ι) : Prop where
  root : ∃ n, s.nodes[0]? = some n ∧ n.parent = none ∧ n.relation = none ∧ n.model = root ∧
    n.tableAlias = (schema root).table
  below : ∀ (i : Nat) (n : ScanNode ι), s.nodes[i]? = some n → i ≠ 0 → ∃ p above f r, s.Below schema i p n above f r
  aliases : (s.nodes.map (·.tableAlias)).Nodup
  field : ∀ e ∈ s.entries, ∀ (i : Nat) (f : FieldDef ι), e.target = .field i f →
    ∃ n, s.nodes[i]? = some n ∧ f ∈ (schema n.model).fields ∧ f.hasColumn = true
  key : ∀ (i : Nat) (n : ScanNode ι) (k : Nat), s.nodes[i]? = some n → n.pkEntry = some k →
    ∃ e f, s.entries[k]? = some e ∧ e.target = .field i f ∧ f.primaryKey = true

/-- Every column that a plan reads is one that a table has. -/
def ScanPlan.Columned (s : ScanPlan ι) : Prop :=
  ∀ e ∈ s.entries, ∀ i f, e.target = .field i f → f.hasColumn = true

/-- Every key is a column. -/
def KeysOwnColumns (schema : Schema ι) : Prop :=
  ∀ i pk, (schema i).pk? = some pk → pk.hasColumn = true

namespace ScanAt

variable {a : Aliases} {s : ScanPlan ι} {places : List (List (Hop ι))}

theorem aliases_nodup (hk : JoinKeysDistinct schema) (ha : a.Sound) (hr : (schema root).table ∉ a.used)
    (h : ScanAt schema root a s places) : (s.nodes.map (·.tableAlias)).Nodup := by
  have haliases : s.nodes.map (·.tableAlias) = places.map (a.placeAlias schema root) := by
    refine List.ext_getElem? fun i => ?_
    rw [List.getElem?_map, List.getElem?_map]
    cases hn : s.nodes[i]? with
    | none =>
      have hlt : places.length ≤ i := h.length ▸ List.getElem?_eq_none_iff.1 hn
      rw [List.getElem?_eq_none hlt]
      rfl
    | some n =>
      obtain ⟨c, hc, hat⟩ := h.place_of_node hn
      rw [hc, Option.map_some, Option.map_some, hat.tableAlias]
  rw [haliases]
  refine h.nodup.map_on fun c hc d hd heq => ?_
  exact (h.placed c hc).placeAlias_injective hk ha hr (h.placed d hd) heq

theorem below (h : ScanAt schema root a s places) {i : Nat} {n : ScanNode ι} (hn : s.nodes[i]? = some n)
    (hi : i ≠ 0) : ∃ p above f r, s.Below schema i p n above f r := by
  obtain ⟨c, hc, hat⟩ := h.place_of_node hn
  cases hat with
  | root _ _ _ _ => exact absurd rfl hi
  | @below _ p _ c x hlt hplace hp hrel hm _ =>
    obtain ⟨above, habove, hat'⟩ := h.node_of_place hplace
    obtain ⟨m, hl⟩ := (h.placed _ (List.mem_of_getElem? hc)).joinable.leads
    obtain ⟨k, hlk, hsource, hf, hr, -⟩ := hl.of_append
    exact ⟨p, above, x.field, x.relation, hlt, hp, habove, hrel, hat'.model hlk ▸ hf, hr, hm⟩

theorem wellFormed (hk : JoinKeysDistinct schema) (ha : a.Sound) (hr : (schema root).table ∉ a.used)
    (h : ScanAt schema root a s places) (hcol : s.Columned) : s.WellFormed schema root where
  root := by
    obtain ⟨n, hn, hat⟩ := h.node_of_place h.head
    generalize ([] : List (Hop ι)) = c at hat
    cases hat with
    | root hp hrel hm ht => exact ⟨n, hn, hp, hrel, hm, ht⟩
    | below hlt _ _ _ _ _ => exact absurd hlt (Nat.not_lt_zero _)
  below i n hn hi := h.below hn hi
  aliases := h.aliases_nodup hk ha hr
  field e he i f hf := by
    obtain ⟨j, g, n, hn, hg, -, rfl⟩ := h.entry e he
    obtain ⟨rfl, rfl⟩ := ScanTarget.field.inj hf
    exact ⟨n, hn, hg, hcol _ he _ _ rfl⟩
  key i n k hn hk := by
    obtain ⟨e, f, he, ⟨m, -, -, -, rfl⟩, hpk⟩ := h.pkEntry i n k hn hk
    exact ⟨_, f, he, rfl, hpk⟩

end ScanAt

/-- Computed columns come behind those of fields. -/
theorem ScanPlan.WellFormed.withComputed {s : ScanPlan ι} (h : s.WellFormed schema root)
    (names : List String) :
    ScanPlan.WellFormed schema root
      { s with entries := s.entries ++ names.map fun name => ⟨name, .computed name⟩ } where
  root := h.root
  below i n hn hi := by
    obtain ⟨p, above, f, r, hb⟩ := h.below i n hn hi
    exact ⟨p, above, f, r, hb.lt, hb.parent, hb.node, hb.relation, hb.declared, hb.target, hb.model⟩
  aliases := h.aliases
  field e he i f hf := by
    rcases List.mem_append.1 he with he | he
    · exact h.field e he i f hf
    · obtain ⟨name, -, rfl⟩ := List.mem_map.1 he
      cases hf
  key i n k hn hk := by
    obtain ⟨e, f, he, hf, hpk⟩ := h.key i n k hn hk
    exact ⟨e, f, getElem?_append_of_some he _, hf, hpk⟩

/-! ## Columns that tables have -/

namespace ScanPlan.Columned

variable {s : ScanPlan ι}

theorem project (h : s.Columned) {f : FieldDef ι} (hf : f.hasColumn = true) (i : Nat)
    (dedupe : Bool) : (s.project i f dedupe).Columned := by
  obtain he | ⟨n, -, -, he⟩ := s.project_cases i f dedupe
  · rwa [he]
  · rw [he]
    intro e hmem j g hg
    rcases List.mem_append.1 hmem with hmem | hmem
    · exact h e hmem j g hg
    · rw [List.mem_singleton.1 hmem] at hg
      obtain ⟨-, rfl⟩ := ScanTarget.field.inj hg
      exact hf

theorem projectAll {fields : List (FieldDef ι)} (h : s.Columned)
    (hf : ∀ f ∈ fields, f.hasColumn = true) (i : Nat) (dedupe : Bool) :
    (s.projectAll i fields dedupe).Columned := by
  induction fields generalizing s with
  | nil => exact h
  | cons f fields ih =>
    exact ih (h.project (hf f List.mem_cons_self) i dedupe) fun g hg =>
      hf g (List.mem_cons_of_mem f hg)

theorem ensureNode (h : s.Columned) (p : Nat) (f : FieldDef ι) (m : ι) (tableAlias : String) :
    (s.ensureNode p f m tableAlias).1.Columned := by
  unfold ScanPlan.ensureNode
  split
  · exact h
  · exact h

theorem ensureChain (h : s.Columned) (i : Nat) (hops : List (Hop ι × String)) :
    (Orm.ensureChain schema s i hops).1.Columned := by
  induction hops generalizing s i with
  | nil => exact h
  | cons x hops ih =>
    rw [Orm.ensureChain]
    exact ih (h.ensureNode i x.1.field x.1.relation.target x.2) _

theorem keyed (hkey : KeysOwnColumns schema) (h : s.Columned) (dedupe multiplied : Bool) :
    (s.keyed schema root dedupe multiplied).Columned := by
  unfold ScanPlan.keyed
  dsimp only
  split
  · rename_i pk hpk
    split
    · exact h.project (hkey root pk hpk) 0 dedupe
    · exact h
  · exact h

end ScanPlan.Columned

section

variable {dedupe : Bool} {s : ScanPlan ι}

theorem projectPath_columned (hkey : KeysOwnColumns schema) (h : s.Columned) (path : String) :
    Keeps (fun _ => True) (projectPath schema root dedupe s path) ScanPlan.Columned := by
  rw [projectPath_eq]
  refine (Keeps.ofResult fun w _ => trivial).bind fun w (_ : True) => ?_
  refine Keeps.bind (Q := fun _ => True) (fun _ _ => ⟨trivial, fun _ _ => trivial⟩) fun hops _ => ?_
  have hchain : (Orm.ensureChain schema s 0 (w.chain.zip hops)).1.Columned := h.ensureChain 0 _
  unfold projectEnd
  split
  · exact .of_pure hchain
  split
  · exact .of_pure (hchain.projectAll (fun f hf => (Model.scalarFields_mem hf).2) _ _)
  split
  · rename_i hcol
    exact .of_pure (hchain.project hcol _ _)
  · refine Keeps.bind (Q := fun _ => True) (fun _ _ => ⟨trivial, fun _ _ => trivial⟩) fun x _ => ?_
    refine (Keeps.ofResult fun target _ => trivial).bind fun target (_ : True) => ?_
    refine (Keeps.ofResult fun pk hpk => hkey target pk (Model.pk_eq_ok.1 hpk)).bind fun pk hpk => ?_
    exact .of_pure ((hchain.ensureNode _ _ _ _).project hpk _ _)

theorem projectPaths_columned (hkey : KeysOwnColumns schema) : ∀ {s : ScanPlan ι} (paths : List String),
    s.Columned → Keeps (fun _ => True) (projectPaths schema root dedupe s paths) ScanPlan.Columned
  | _, [], h => .of_pure h
  | _, path :: rest, h =>
    (projectPath_columned hkey h path).bind fun _ h' => projectPaths_columned hkey rest h'

theorem projection_columned (hkey : KeysOwnColumns schema) (paths : List String) :
    Keeps (fun _ => True) (projection schema root dedupe paths) ScanPlan.Columned := by
  have hroot : (ScanPlan.withRoot root (schema root).table).Columned := fun e he =>
    absurd he List.not_mem_nil
  unfold projection
  dsimp only
  split
  · exact .of_pure (hroot.projectAll (fun f hf => (List.mem_filter.1 hf).2) _ _)
  · exact projectPaths_columned hkey paths hroot

end

/-! ## Projecting whatever is joined -/

/-- Of two runs that look at names only, the second does what the first does. -/
theorem Paired.yields_of_names {x y : Resolving α}
    (h : Paired (fun s t : Scope => s.aliases = t.aliases) x y Eq) {s t s' : Scope} {a : α}
    (hy : Yields x s a t) (hs : s.aliases = s'.aliases) :
    ∃ t', Yields y s' a t' ∧ t.aliases = t'.aliases := by
  obtain ⟨hr, ht⟩ := h s s' hs
  unfold Yields at hy
  rw [hy] at hr ht
  obtain ⟨b, hb, rfl⟩ := hr.exists_ok rfl
  exact ⟨(outcome y s').2, Prod.ext hb rfl, ht⟩

/-- A run whose result and names are the same whatever tables are joined already. -/
def ByNames (x : Resolving α) : Prop :=
  Paired (fun s t : Scope => s.aliases = t.aliases) x x Eq

namespace ByNames

theorem of_pure (a : α) : ByNames (pure a) := Paired.of_pure rfl

theorem ofResult (r : Result α) : ByNames (Resolving.ofResult r) := Paired.of_tied (Tied.same r)

theorem bind {x : Resolving α} {f : α → Resolving β} (hx : ByNames x) (hf : ∀ a, ByNames (f a)) :
    ByNames (x >>= f) :=
  Paired.bind hx fun a _ hab => hab ▸ hf a

theorem naming (n : Naming α) : ByNames (Resolving.naming n) := by
  intro s t hst
  rw [outcome_naming, outcome_naming, hst]
  exact ⟨Tied.same _, rfl⟩

theorem addSteps (kind : JoinKind) (steps : List JoinStep) : ByNames (addSteps kind steps) := by
  intro s t hst
  unfold Orm.addSteps
  rw [outcome_modify, outcome_modify]
  refine ⟨rfl, ?_⟩
  dsimp only
  rw [Scope.foldl_addStep_aliases, Scope.foldl_addStep_aliases]
  exact hst

theorem joinChain (x : String) (chain : List (Hop ι)) (kind : JoinKind) :
    ByNames (joinChain schema x chain kind) :=
  (naming _).bind fun _ => (addSteps kind _).bind fun _ => of_pure _

theorem joinRelation (x : String) (m : ι) (f : FieldDef ι) (kind : JoinKind) :
    ByNames (joinRelation schema x m f kind) :=
  (naming _).bind fun _ => (addSteps kind _).bind fun _ => of_pure _

theorem projectPath (dedupe : Bool) (s : ScanPlan ι) (path : String) :
    ByNames (projectPath schema root dedupe s path) := by
  rw [projectPath_eq]
  refine (ofResult _).bind fun w => (joinChain _ _ _).bind fun hops => ?_
  unfold projectEnd
  split
  · exact of_pure _
  split
  · exact of_pure _
  split
  · exact of_pure _
  · exact (joinRelation _ _ _ _).bind fun _ => (ofResult _).bind fun _ => (ofResult _).bind fun _ =>
      of_pure _

theorem projectPaths (dedupe : Bool) : ∀ (s : ScanPlan ι) (paths : List String),
    ByNames (projectPaths schema root dedupe s paths)
  | s, [] => of_pure s
  | s, path :: rest => (projectPath dedupe s path).bind fun s' => projectPaths dedupe s' rest

theorem projection (dedupe : Bool) (paths : List String) :
    ByNames (projection schema root dedupe paths) := by
  unfold Orm.projection
  dsimp only
  split
  · exact of_pure _
  · exact projectPaths dedupe _ paths

theorem yields {x : Resolving α} (h : ByNames x) {s t s' : Scope} {a : α} (hy : Yields x s a t)
    (hs : s.aliases = s'.aliases) : ∃ t', Yields x s' a t' ∧ t.aliases = t'.aliases :=
  Paired.yields_of_names h hy hs

end ByNames

/-- A scope with names for tables none of which is joined. -/
theorem Mapped.of_names_only (schema : Schema ι) (root : ι) {a : Aliases} (ha : a.Sound) :
    Mapped schema root [] { aliases := a } [] where
  sound := ha
  placed := by simp
  closed := by simp
  present := by simp
  known := by simp [Scope.names]
  toMany := rfl

variable [DecidableEq ι] {p : Plan ι}

/-- A projection has its nodes at places, whatever tables are joined. -/
theorem projection_scanAt (hk : JoinKeysDistinct schema) {dedupe : Bool} {paths : List String}
    {scan : ScanPlan ι} {s t : Scope} (hs : s.aliases.Sound)
    (hy : Yields (projection schema root dedupe paths) s scan t)
    (hr : (schema root).table ∉ t.aliases.used) :
    ∃ places, ScanAt schema root t.aliases scan places := by
  have hnames : s.aliases = ({ aliases := s.aliases } : Scope).aliases := rfl
  obtain ⟨t', hy', ht⟩ := (ByNames.projection dedupe paths).yields hy hnames
  rw [ht] at hr ⊢
  obtain ⟨-, places, -, hscan⟩ := projection_visited hk (Mapped.of_names_only schema root hs) hy'
    ⟨hr, by simp⟩
  exact ⟨places, hscan⟩

/-! ## The plan of a SELECT -/

theorem Plan.resolve_scanAt (hk : JoinKeysDistinct schema) {paths : List String}
    {asNested dedupe : Bool} {r : ResolvedSelect ι} {t : Scope}
    (hres : Yields (p.resolve schema paths asNested dedupe) {} r t)
    (hr : (schema p.model).table ∉ t.aliases.used) :
    t.aliases.Sound ∧ ∃ places, ScanAt schema p.model t.aliases r.scan places := by
  obtain ⟨-, ⟨st⟩⟩ := Plan.stages hres
  have hcovers : Covers schema p.model (p.joins.map (·.target)) _ _ :=
    addExplicits_covers hk fun j hj _ => List.mem_map_of_mem hj
  have hexplicit := hcovers.grows.sound Aliases.sound_empty st.joins
  have hprojected := (projection_grows _ _).sound hexplicit st.projection
  obtain ⟨hsound, hext⟩ := st.grown hk hprojected
  obtain ⟨places, hscan⟩ := projection_scanAt hk hexplicit st.projection fun h => hr (hext.used h)
  refine ⟨hsound, places, ?_⟩
  rw [st.scan_eq]
  exact (hscan.extend hext).withKey dedupe t.toMany

/-- The plan of a SELECT has its nodes at places; its computed columns come last. -/
theorem compileSelect_scanAt {c : Compiled ι} (hk : JoinKeysDistinct schema)
    (hr : (schema p.model).table ∉ (p.scope schema).aliases.used) (h : compileSelect schema p = .ok c) :
    ∃ a s places, ∃ names : List String, ScanAt schema p.model a s places ∧
      c.scan = { s with entries := s.entries ++ names.map fun name => ⟨name, .computed name⟩ } := by
  obtain ⟨sql, scan, args, hw, rfl⟩ := compileSelect_cases h
  obtain ⟨r, scope, computed, mid, predicates, hres, -, -, hout⟩ := Plan.writeSelect_cases hw
  obtain ⟨rfl, rfl⟩ := Prod.mk.inj hout
  have hscope : p.scope schema = scope := congrArg Prod.snd hres
  rw [hscope] at hr
  obtain ⟨-, places, hscan⟩ := Plan.resolve_scanAt hk hres hr
  refine ⟨scope.aliases, r.scan, places, r.annotations.map (·.1), hscan, ?_⟩
  rw [List.map_map]
  rfl

omit [DecidableEq ι] in
theorem Plan.resolve_columned (hkey : KeysOwnColumns schema) {paths : List String}
    {asNested dedupe : Bool} {r : ResolvedSelect ι} {t : Scope}
    (hres : Yields (p.resolve schema paths asNested dedupe) {} r t) : r.scan.Columned := by
  obtain ⟨-, ⟨st⟩⟩ := Plan.stages hres
  have hscan := ((projection_columned hkey paths).of_yields trivial st.projection).2
  rw [st.scan_eq]
  exact hscan.keyed hkey dedupe t.toMany

/-- The plan of a SELECT is well formed. -/
theorem compileSelect_wellFormed {c : Compiled ι} (hk : JoinKeysDistinct schema)
    (hkey : KeysOwnColumns schema) (hr : (schema p.model).table ∉ (p.scope schema).aliases.used)
    (h : compileSelect schema p = .ok c) : c.scan.WellFormed schema p.model := by
  obtain ⟨sql, scan, args, hw, rfl⟩ := compileSelect_cases h
  obtain ⟨r, scope, computed, mid, predicates, hres, -, -, hout⟩ := Plan.writeSelect_cases hw
  obtain ⟨rfl, rfl⟩ := Prod.mk.inj hout
  have hscope : p.scope schema = scope := congrArg Prod.snd hres
  rw [hscope] at hr
  obtain ⟨hsound, places, hscan⟩ := Plan.resolve_scanAt hk hres hr
  have hwell := (hscan.wellFormed hk hsound hr (Plan.resolve_columned hkey hres)).withComputed
    (r.annotations.map (·.1))
  rwa [List.map_map] at hwell

theorem sample_keysOwnColumns : KeysOwnColumns Sample.schema := by
  intro i pk h
  cases i <;> cases h <;> rfl

/-! ## The columns of a SELECT -/

end Orm
