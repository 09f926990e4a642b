import Orm.Proofs.Place.Query
import Orm.Proofs.Scope.Advance

/-
Tables come into scope before their columns are named.

A relation is joined from a table in scope, so the condition of its join compares a column of that
table with one of its own (`JoinsDeclared`), and a path ends at the root or at a table it has
joined. All that resolving finds is therefore a column of the root or of a table in scope. An
explicit join with a condition is the one way around this: a side of the condition that is no path
of the root is written as it stands.
-/

namespace Orm

variable {ι : Type} {schema : Schema ι} {root : ι} {table : String}

/-- The column is one of a table with one of these names. -/
def Column.NamedIn (names : List String) (c : Column) : Prop := ∃ x name, c = [x, name] ∧ x ∈ names

theorem Column.NamedIn.mono {names more : List String} {c : Column} (h : c.NamedIn names)
    (hs : names ⊆ more) : c.NamedIn more := by
  obtain ⟨x, name, rfl, hx⟩ := h
  exact ⟨x, name, rfl, hs hx⟩

/-! ## Joins -/

/-- Each join compares columns of the root, of joins before it and of its own table only. -/
def JoinsDeclared (table : String) (joins : List Join) : Prop :=
  ∀ (i : Nat) (j : Join), joins[i]? = some j → ∀ c ∈ j.on,
    c.left.NamedIn (table :: j.tableAlias :: (joins.take i).map (·.tableAlias)) ∧
    c.right.NamedIn (table :: j.tableAlias :: (joins.take i).map (·.tableAlias))

theorem JoinsDeclared.nil (table : String) : JoinsDeclared table [] := by
  intro i j hj
  simp at hj

theorem JoinsDeclared.concat {joins : List Join} (h : JoinsDeclared table joins) {j : Join}
    (hj : ∀ c ∈ j.on, c.left.NamedIn (table :: j.tableAlias :: joins.map (·.tableAlias)) ∧
      c.right.NamedIn (table :: j.tableAlias :: joins.map (·.tableAlias))) :
    JoinsDeclared table (joins ++ [j]) := by
  intro i k hk
  obtain hk | ⟨rfl, rfl⟩ := getElem?_concat_cases hk
  · rw [List.take_append_of_le_length (Nat.le_of_lt (List.getElem?_eq_some_iff.1 hk).1)]
    exact h i k hk
  · rwa [List.take_left' rfl]

/-- More tables are in scope, and joins that were declared before they were used still are. -/
structure Scope.Widens (table : String) (s t : Scope) : Prop where
  names : s.names ⊆ t.names
  declared : JoinsDeclared table s.joins → JoinsDeclared table t.joins

instance (table : String) : Std.Refl (Scope.Widens table) where
  refl _ := ⟨fun _ h => h, fun h => h⟩

instance (table : String) : IsTrans Scope (Scope.Widens table) where
  trans _ _ _ h h' := ⟨fun _ hx => h'.names (h.names hx), fun hj => h'.declared (h.declared hj)⟩

theorem Scope.Widens.of_joins {s t : Scope} (h : t.joins = s.joins) : Scope.Widens table s t where
  names := by rw [Scope.names, Scope.names, h]; exact List.Subset.refl _
  declared hj := h ▸ hj

theorem Scope.Widens.tables {s t : Scope} (h : Scope.Widens table s t) :
    table :: s.names ⊆ table :: t.names :=
  List.cons_subset_cons table h.names

section

variable {s t : Scope} {x y : String} {kind : JoinKind}

theorem Scope.widens_concat {j : Join}
    (hj : ∀ c ∈ j.on, c.left.NamedIn (table :: j.tableAlias :: s.names) ∧
      c.right.NamedIn (table :: j.tableAlias :: s.names)) {toMany : Bool} :
    Scope.Widens table s { s with joins := s.joins ++ [j], toMany } where
  names x hx := by
    rw [Scope.names, List.map_append]
    exact List.mem_append_left _ hx
  declared h := h.concat hj

/-- A join from a table in scope brings its own table into scope. -/
theorem Scope.addStep_widens (kind : JoinKind) {st : JoinStep}
    (hx : st.parentAlias ∈ table :: s.names) :
    Scope.Widens table s (s.addStep kind st) ∧ st.tableAlias ∈ (s.addStep kind st).names := by
  by_cases h : st.tableAlias ∈ s.names
  · rw [Scope.addStep_of_mem h]
    exact ⟨refl_of _ s, h⟩
  · rw [Scope.addStep_of_not_mem h]
    refine ⟨Scope.widens_concat fun c hc => ?_, by simp [Scope.names, JoinStep.join]⟩
    obtain rfl := List.mem_singleton.1 hc
    refine ⟨⟨_, _, rfl, ?_⟩, ⟨_, _, rfl, by simp [JoinStep.join]⟩⟩
    rcases List.mem_cons.1 hx with hx | hx
    · exact hx ▸ List.mem_cons_self
    · exact List.mem_cons_of_mem _ (List.mem_cons_of_mem _ hx)

/-- Joins each of which starts where the one before it ends. -/
theorem Scope.foldl_addStep_widens (kind : JoinKind) {steps : List JoinStep} (hl : Linked x steps y)
    (hx : x ∈ table :: s.names) :
    Scope.Widens table s (steps.foldl (Scope.addStep kind) s) ∧
      y ∈ table :: (steps.foldl (Scope.addStep kind) s).names := by
  induction steps generalizing x s with
  | nil => exact ⟨refl_of _ s, hl ▸ hx⟩
  | cons st steps ih =>
    obtain ⟨hparent, hl⟩ := hl
    obtain ⟨hw, hst⟩ := Scope.addStep_widens kind (hparent ▸ hx)
    obtain ⟨hw', hy⟩ := ih hl (List.mem_cons_of_mem table hst)
    exact ⟨trans_of _ hw hw', hy⟩

/-! ## Relations and chains -/

theorem Naming.reached_cons (x : String) (st : JoinStep) (steps : List JoinStep) :
    reached x (st :: steps) = reached st.tableAlias steps := by
  unfold reached
  rw [List.getLast?_cons]
  cases steps.getLast? <;> rfl

theorem Aliases.linked_nameAll (a : Aliases) (x : String) (es : List Edge) :
    Linked x (a.nameAll x es).1 (Naming.reached x (a.nameAll x es).1) := by
  induction es generalizing a x with
  | nil => rfl
  | cons e es ih =>
    rw [nameAll]
    rcases a.tableAlias x e.parentTable e.key e.table with ⟨y, b⟩
    dsimp only
    rw [Naming.reached_cons]
    exact ⟨rfl, ih b y⟩

theorem relationSteps_linked {parent : Model ι} {f : FieldDef ι} {r : Relation ι} {a b : Aliases}
    {steps : List JoinStep} (hy : Yields (Naming.relationSteps schema x parent f r) a steps b) :
    Linked x steps (Naming.reached x steps) := by
  unfold Yields at hy
  rw [outcome_relationSteps] at hy
  split at hy
  · obtain ⟨hsteps, -⟩ := Prod.mk.inj hy
    rw [Except.ok.injEq] at hsteps
    exact hsteps ▸ Aliases.linked_nameAll a x _
  · cases hy

/-- The joins of each hop lead from the alias before it to its own. -/
def LinkedHops : String → List (List JoinStep × String) → Prop
  | _, [] => True
  | x, (steps, y) :: rest => Linked x steps y ∧ LinkedHops y rest

theorem chain_linkedHops {chain : List (Hop ι)} {a b : Aliases}
    {out : List (List JoinStep × String)} (hy : Yields (Naming.chain schema x chain) a out b) :
    LinkedHops x out := by
  induction chain generalizing x a out with
  | nil =>
    obtain ⟨rfl, rfl⟩ := Yields.pure_iff.1 hy
    trivial
  | cons h chain ih =>
    simp only [Naming.chain, Yields.bind_iff, Yields.pure_iff] at hy
    obtain ⟨steps, c, hs, rest, _, hr, rfl, rfl⟩ := hy
    exact ⟨relationSteps_linked hs, ih hr⟩

theorem Scope.foldl_hops_widens {hops : List (List JoinStep × String)} (hl : LinkedHops x hops)
    (hx : x ∈ table :: s.names) :
    Scope.Widens table s ((hops.flatMap (·.1)).foldl (Scope.addStep kind) s) ∧
      ∀ y ∈ hops.map (·.2),
        y ∈ table :: ((hops.flatMap (·.1)).foldl (Scope.addStep kind) s).names := by
  induction hops generalizing x s with
  | nil => exact ⟨refl_of _ s, fun y hy => absurd hy List.not_mem_nil⟩
  | cons hop hops ih =>
    obtain ⟨steps, y⟩ := hop
    obtain ⟨hw, hy⟩ := Scope.foldl_addStep_widens kind hl.1 hx
    obtain ⟨hw', hrest⟩ := ih hl.2 hy
    rw [List.flatMap_cons, List.foldl_append, List.map_cons]
    exact ⟨trans_of _ hw hw', List.forall_mem_cons.2 ⟨hw'.tables hy, hrest⟩⟩

theorem joinChain_widens {chain : List (Hop ι)} {hops : List String}
    (hx : x ∈ table :: s.names) (hy : Yields (joinChain schema x chain kind) s hops t) :
    Scope.Widens table s t ∧ ∀ y ∈ hops, y ∈ table :: t.names := by
  simp only [joinChain, addSteps, Yields.bind_iff, Yields.pure_iff, Yields.modify_iff] at hy
  obtain ⟨out, u, hn, _, _, rfl, rfl, rfl⟩ := hy
  obtain ⟨hjoins, hout⟩ := naming_yields hn
  have hu : Scope.Widens table s u := .of_joins hjoins
  obtain ⟨hw, hops⟩ := Scope.foldl_hops_widens (chain_linkedHops hout) (hu.tables hx)
  exact ⟨trans_of _ hu hw, hops⟩

theorem joinChain_reached {chain : List (Hop ι)} {hops : List String}
    (hx : x ∈ table :: s.names) (hy : Yields (joinChain schema x chain kind) s hops t) :
    hops.getLast?.getD x ∈ table :: t.names := by
  obtain ⟨hw, hops⟩ := joinChain_widens hx hy
  rcases hl : List.getLast? _ with _ | y
  · exact hw.tables hx
  · exact hops y (List.mem_of_getLast? hl)

theorem joinRelation_widens {m : ι} {f : FieldDef ι} (hx : x ∈ table :: s.names)
    (hy : Yields (joinRelation schema x m f kind) s y t) :
    Scope.Widens table s t ∧ y ∈ table :: t.names := by
  simp only [joinRelation, addSteps, Yields.bind_iff, Yields.pure_iff, Yields.modify_iff] at hy
  obtain ⟨steps, u, hn, _, _, rfl, rfl, rfl⟩ := hy
  obtain ⟨hjoins, hsteps⟩ := naming_yields hn
  have hu : Scope.Widens table s u := .of_joins hjoins
  have hl : Linked x steps (Naming.reached x steps) := by
    unfold Naming.hop at hsteps
    split at hsteps
    · exact absurd hsteps Yields.not_throw
    · exact relationSteps_linked hsteps
  obtain ⟨hw, hy⟩ := Scope.foldl_addStep_widens kind hl (hu.tables hx)
  exact ⟨trans_of _ hu hw, hy⟩

end

/-! ## Paths -/

/-- The table in scope from which a path is followed, and the column it ends at. -/
theorem pathEnd_widens {w : Walk ι} {f : FieldDef ι} {x : String} {s t : Scope} {c : Column}
    (hx : x ∈ table :: s.names) (hy : Yields (pathEnd schema w f x) s c t) :
    Scope.Widens table s t ∧ c.NamedIn (table :: t.names) := by
  unfold pathEnd at hy
  split at hy
  · obtain ⟨rfl, rfl⟩ := Yields.pure_iff.1 hy
    exact ⟨refl_of _ s, x, f.column, rfl, hx⟩
  · simp only [Resolving.ofResult, Yields.bind_iff, Yields.pure_iff, Yields.mk_pure_iff] at hy
    obtain ⟨y, _, hrel, _, _, ⟨-, rfl⟩, pk, _, ⟨-, rfl⟩, rfl, rfl⟩ := hy
    obtain ⟨hw, hy⟩ := joinRelation_widens hx hrel
    exact ⟨hw, y, pk.column, rfl, hy⟩

/-- A path ends at a column of the root or of a table in scope. -/
theorem resolvePath_widens (path : String) (inner : Bool) :
    Advances (Scope.Widens (schema root).table) (resolvePath schema root path inner)
      fun u c => c.NamedIn ((schema root).table :: u.names) := by
  intro s c t hy
  have key : Scope.Widens (schema root).table s t ∧
      c.NamedIn ((schema root).table :: t.names) := by
    unfold resolvePath at hy
    simp only [Resolving.ofResult, Yields.bind_iff, Yields.mk_pure_iff] at hy
    obtain ⟨w, _, ⟨-, rfl⟩, hy⟩ := hy
    split at hy
    · exact absurd hy Yields.not_throw
    · rename_i f _
      obtain ⟨hops, u, hj, hend⟩ := Yields.bind_iff.1 hy
      have hroot : (schema root).table ∈ (schema root).table :: s.names := List.mem_cons_self
      obtain ⟨hw, hc⟩ := pathEnd_widens (joinChain_reached hroot hj) hend
      exact ⟨trans_of _ (joinChain_widens hroot hj).1 hw, hc⟩
  exact ⟨key.1, fun u hu => key.2.mono hu.tables⟩

/-! ## Explicit joins -/

/-- An explicit join without a condition. -/
theorem addExplicit_widens {j : ExplicitJoin} (hj : j.condition = none) :
    Advances (Scope.Widens (schema root).table) (addExplicit schema root j) fun _ _ => True := by
  rintro s ⟨⟩ t hy
  refine ⟨?_, fun _ _ => trivial⟩
  rw [addExplicit_eq, hj, explicitCondition, pure_bind, joinTarget] at hy
  split at hy
  · rename_i w f _
    simp only [followRelation, conditionOn, Yields.bind_iff, Yields.modify_iff] at hy
    obtain ⟨y, _, ⟨hops, u, hc, hr⟩, rfl⟩ := hy
    have hroot : (schema root).table ∈ (schema root).table :: s.names := List.mem_cons_self
    exact trans_of _ (joinChain_widens hroot hc).1
      (joinRelation_widens (joinChain_reached hroot hc) hr).1
  · split at hy
    · exact absurd hy Yields.not_throw
    · obtain rfl := Yields.modify_iff.1 hy
      refine Scope.widens_concat fun c hc => ?_
      simp at hc

theorem addExplicits_widens : ∀ {joins : List ExplicitJoin}, (∀ j ∈ joins, j.condition = none) →
    Advances (Scope.Widens (schema root).table) (addExplicits schema root joins) fun _ _ => True
  | [], _ => .of_pure fun _ => trivial
  | j :: _, h => (addExplicit_widens (h j List.mem_cons_self)).bind_true fun _ =>
      addExplicits_widens fun k hk => h k (List.mem_cons_of_mem j hk)

/-! ## Projection -/

/-- The nodes have aliases of these names, and the columns of the result are fields of nodes. -/
structure ScanPlan.NamedIn (names : List String) (s : ScanPlan ι) : Prop where
  nodes : ∀ n ∈ s.nodes, n.tableAlias ∈ names
  entries : ∀ e ∈ s.entries, ∀ i f, e.target = .field i f → i < s.nodes.length

namespace ScanPlan.NamedIn

variable {names more : List String} {s : ScanPlan ι}

theorem mono (h : s.NamedIn names) (hs : names ⊆ more) : s.NamedIn more :=
  ⟨fun n hn => hs (h.nodes n hn), h.entries⟩

theorem withRoot (root : ι) {x : String} (hx : x ∈ names) : (withRoot root x).NamedIn names :=
  ⟨by simpa [ScanPlan.withRoot] using hx, by simp [ScanPlan.withRoot]⟩

theorem project (h : s.NamedIn names) (node : Nat) (f : FieldDef ι) (dedupe : Bool) :
    (s.project node f dedupe).NamedIn names := by
  obtain he | ⟨n, hn, -, he⟩ := s.project_cases node f dedupe
  · rwa [he]
  rw [he]
  generalize hnodes : (if f.primaryKey then setPkEntry s.nodes node s.entries.length
    else s.nodes) = nodes
  have hsame : nodes.length = s.nodes.length ∧ ∀ m ∈ nodes, m.tableAlias ∈ names := by
    rw [← hnodes]
    split
    · refine ⟨List.length_modify .., fun m hm => ?_⟩
      obtain ⟨k, hk, heq⟩ := alias_of_mem_setPkEntry hm
      exact heq ▸ h.nodes k hk
    · exact ⟨rfl, h.nodes⟩
  refine ⟨hsame.2, fun e hmem i g hg => hsame.1 ▸ ?_⟩
  rcases List.mem_append.1 hmem with hmem | hmem
  · exact h.entries e hmem i g hg
  · obtain rfl := List.mem_singleton.1 hmem
    cases hg
    exact (List.getElem?_eq_some_iff.1 hn).1

theorem projectAll (h : s.NamedIn names) (node : Nat) (fields : List (FieldDef ι))
    (dedupe : Bool) : (s.projectAll node fields dedupe).NamedIn names := by
  unfold ScanPlan.projectAll
  induction fields generalizing s with
  | nil => exact h
  | cons f fields ih => exact ih (h.project node f dedupe)

theorem ensureNode (h : s.NamedIn names) (parent : Nat) (f : FieldDef ι) (m : ι) {x : String}
    (hx : x ∈ names) : (s.ensureNode parent f m x).1.NamedIn names := by
  unfold ScanPlan.ensureNode
  split
  · exact h
  · refine ⟨fun n hn => ?_, fun e he i g hg => ?_⟩
    · rcases List.mem_append.1 hn with hn | hn
      · exact h.nodes n hn
      · exact List.mem_singleton.1 hn ▸ hx
    · exact Nat.lt_of_lt_of_le (h.entries e he i g hg) (by simp)

theorem ensureChain {schema : Schema ι} : ∀ {s : ScanPlan ι} {node : Nat}
    {hops : List (Hop ι × String)}, s.NamedIn names → (∀ x ∈ hops, x.2 ∈ names) →
    (ensureChain schema s node hops).1.NamedIn names
  | _, _, [], h, _ => h
  | s, node, (hop, a) :: rest, h, ha => by
    unfold Orm.ensureChain
    exact ensureChain (h.ensureNode node hop.field hop.relation.target (ha _ List.mem_cons_self))
      fun x hx => ha x (List.mem_cons_of_mem _ hx)

end ScanPlan.NamedIn

section

variable {s t : Scope} {scan scan' : ScanPlan ι} {dedupe : Bool}

theorem projectEnd_widens {w : Walk ι} {node : Nat} (h : scan.NamedIn (table :: s.names))
    (hy : Yields (projectEnd schema dedupe w scan node) s scan' t) :
    Scope.Widens table s t ∧ scan'.NamedIn (table :: t.names) := by
  unfold projectEnd at hy
  split at hy
  · obtain ⟨rfl, rfl⟩ := Yields.pure_iff.1 hy
    exact ⟨refl_of _ s, h⟩
  rename_i n hn
  split at hy
  · obtain ⟨rfl, rfl⟩ := Yields.pure_iff.1 hy
    exact ⟨refl_of _ s, h.projectAll _ _ dedupe⟩
  split at hy
  · obtain ⟨rfl, rfl⟩ := Yields.pure_iff.1 hy
    exact ⟨refl_of _ s, h.project _ _ dedupe⟩
  · simp only [Resolving.ofResult, Yields.bind_iff, Yields.pure_iff, Yields.mk_pure_iff] at hy
    obtain ⟨y, _, hrel, target, _, ⟨-, rfl⟩, pk, _, ⟨-, rfl⟩, rfl, rfl⟩ := hy
    obtain ⟨hw, hy⟩ := joinRelation_widens (h.nodes n (List.mem_of_getElem? hn)) hrel
    exact ⟨hw, ((h.mono hw.tables).ensureNode _ _ _ hy).project _ _ dedupe⟩

theorem projectPath_widens {path : String} (h : scan.NamedIn ((schema root).table :: s.names))
    (hy : Yields (projectPath schema root dedupe scan path) s scan' t) :
    Scope.Widens (schema root).table s t ∧ scan'.NamedIn ((schema root).table :: t.names) := by
  simp only [projectPath_eq, Resolving.ofResult, Yields.bind_iff, Yields.mk_pure_iff] at hy
  obtain ⟨w, _, ⟨-, rfl⟩, hops, u, hj, hend⟩ := hy
  obtain ⟨hw, hnames⟩ := joinChain_widens List.mem_cons_self hj
  obtain ⟨hw', h'⟩ := projectEnd_widens
    ((h.mono hw.tables).ensureChain fun x hx => hnames x.2 (List.of_mem_zip hx).2) hend
  exact ⟨trans_of _ hw hw', h'⟩

theorem projectPaths_widens {paths : List String}
    (h : scan.NamedIn ((schema root).table :: s.names))
    (hy : Yields (projectPaths schema root dedupe scan paths) s scan' t) :
    Scope.Widens (schema root).table s t ∧ scan'.NamedIn ((schema root).table :: t.names) := by
  induction paths generalizing s scan with
  | nil =>
    obtain ⟨rfl, rfl⟩ := Yields.pure_iff.1 hy
    exact ⟨refl_of _ s, h⟩
  | cons path rest ih =>
    obtain ⟨mid, u, hp, hrest⟩ := Yields.bind_iff.1 hy
    obtain ⟨hw, hmid⟩ := projectPath_widens h hp
    obtain ⟨hw', h'⟩ := ih hmid hrest
    exact ⟨trans_of _ hw hw', h'⟩

/-- Every projected column is one of the root or of a table in scope. -/
theorem projection_widens {paths : List String}
    (hy : Yields (projection schema root dedupe paths) s scan t) :
    Scope.Widens (schema root).table s t ∧ scan.NamedIn ((schema root).table :: t.names) := by
  have hroot := ScanPlan.NamedIn.withRoot root
    (List.mem_cons_self : (schema root).table ∈ (schema root).table :: s.names)
  unfold projection at hy
  dsimp only at hy
  split at hy
  · obtain ⟨rfl, rfl⟩ := Yields.pure_iff.1 hy
    exact ⟨refl_of _ s, hroot.projectAll _ _ dedupe⟩
  · exact projectPaths_widens hroot hy

end

end Orm
