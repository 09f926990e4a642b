import Orm.Proofs.Demand
import Orm.Proofs.Spelling.Names
import Orm.Proofs.Statement

/-
The characters of queries, at any depth of nesting, and of the joins that they name: those of the names
that a query gives itself, and those of its templates. The aliases of a projection, of its nodes and its
columns, are made of the names of tables, relations and columns.
-/

namespace Orm

variable {ι : Type} {schema : Schema ι} {ok : Char → Prop}

/-! ## Names of queries -/

/-- The names that a query gives itself: those of its computed columns and of the tables it joins. -/
structure Plan.Names (ok : Char → Prop) (schema : Schema ι) (p : Plan ι) : Prop where
  annotations : ∀ a ∈ p.annotations, Text.Only ok a.1
  targets : ∀ j ∈ p.joins, joinedRelation? schema p.model j.target = none → Text.Only ok j.target
  conditions : ∀ j ∈ p.joins, ∀ c, j.condition = some c → Text.Only ok c.left ∧ Text.Only ok c.right

/-- The names in a query, and in those nested in it, are made of such characters. -/
def Plan.Only (ok : Char → Prop) (schema : Schema ι) (p : Plan ι) : Prop :=
  Demand.OnPlan { column := Column.Only ok, template := fun _ => True, plan := Plan.Names ok schema } p

/-- The text of a template, the slots of its parameters aside. -/
def Template.Only (ok : Char → Prop) (t : Template) : Prop := ∀ c ∈ t.text.toList, c ≠ '?' → ok c

structure ScanEntry.Only (ok : Char → Prop) (e : ScanEntry ι) : Prop where
  columnAlias : Text.Only ok e.columnAlias
  field : ∀ node f, e.target = .field node f → Text.Only ok f.column
  computed : ∀ name, e.target = .computed name → Text.Only ok name

structure ScanPlan.Only (ok : Char → Prop) (s : ScanPlan ι) : Prop where
  nodes : ∀ n ∈ s.nodes, Text.Only ok n.tableAlias
  entries : ∀ e ∈ s.entries, e.Only ok

namespace ScanPlan

theorem withRoot_only {root : ι} {a : String} (ha : Text.Only ok a) : (withRoot root a).Only ok :=
  ⟨by simpa [withRoot] using ha, by simp [withRoot]⟩

theorem Only.project [Spells ok] {s : ScanPlan ι} (h : s.Only ok) (node : Nat) {f : FieldDef ι}
    (hf : Text.Only ok f.column) (dedupe : Bool) : (s.project node f dedupe).Only ok := by
  obtain he | ⟨n, hn, -, he⟩ := s.project_cases node f dedupe
  · rwa [he]
  rw [he]
  have columnAlias : Text.Only ok (Aliases.columnAlias n.tableAlias f.column) :=
    ((h.nodes n (List.mem_of_getElem? hn)).append (Text.word (by decide))).append hf
  have field : ∀ i g, (.field node f : ScanTarget ι) = .field i g → Text.Only ok g.column := by
    intro i g hg
    cases hg
    exact hf
  refine ⟨fun m hm => ?_, List.forall_mem_append.2 ⟨h.entries, List.forall_mem_singleton.2 ?_⟩⟩
  · dsimp only at hm
    split at hm
    · obtain ⟨k, hk, heq⟩ := alias_of_mem_setPkEntry hm
      exact heq ▸ h.nodes k hk
    · exact h.nodes m hm
  · exact ⟨columnAlias, field, nofun⟩

theorem Only.projectAll [Spells ok] {s : ScanPlan ι} (h : s.Only ok) (node : Nat) (dedupe : Bool) :
    ∀ {fields : List (FieldDef ι)}, (∀ f ∈ fields, Text.Only ok f.column) →
      (s.projectAll node fields dedupe).Only ok := by
  intro fields hf
  unfold ScanPlan.projectAll
  induction fields generalizing s with
  | nil => exact h
  | cons f fields ih =>
    exact ih (h.project node (hf f List.mem_cons_self) dedupe)
      fun g hg => hf g (List.mem_cons_of_mem f hg)

theorem Only.ensureNode {s : ScanPlan ι} (h : s.Only ok) (parent : Nat) (f : FieldDef ι) (m : ι)
    {a : String} (ha : Text.Only ok a) : (s.ensureNode parent f m a).1.Only ok := by
  unfold ScanPlan.ensureNode
  split
  · exact h
  · exact ⟨List.forall_mem_append.2 ⟨h.nodes, List.forall_mem_singleton.2 ha⟩, h.entries⟩

theorem Only.ensureChain {schema : Schema ι} : ∀ {s : ScanPlan ι} {node : Nat}
    {hops : List (Hop ι × String)}, s.Only ok → (∀ x ∈ hops, Text.Only ok x.2) →
    (ensureChain schema s node hops).1.Only ok
  | _, _, [], h, _ => h
  | s, node, (hop, a) :: rest, h, ha => by
    unfold Orm.ensureChain
    exact Only.ensureChain (h.ensureNode node hop.field hop.relation.target (ha _ List.mem_cons_self))
      fun x hx => ha x (List.mem_cons_of_mem _ hx)

end ScanPlan

variable [Spells ok]

/-! ## Explicit joins -/

theorem conditionSide_only (hs : Schema.Only ok schema) (root : ι) {side : String}
    (h : Text.Only ok side) : Keeps (Scope.Only ok) (conditionSide schema root side) (Column.Only ok) :=
  ((resolvePath_only hs root side false).imp fun _ hc => hc.1).orElse h.split

theorem resolveCondition_only (hs : Schema.Only ok schema) (root : ι) {c : JoinCondition}
    (hl : Text.Only ok c.left) (hr : Text.Only ok c.right) :
    Keeps (Scope.Only ok) (resolveCondition schema root c) (OnCondition.Only ok) := by
  have known : ∀ op ∈ joinOperators, Text.Only Common op := by
    simp only [joinOperators, List.forall_mem_cons]
    decide
  unfold resolveCondition
  split
  case h_1 => exact Keeps.of_throw
  case h_2 op hop =>
    refine (conditionSide_only hs root hl).bind fun left hleft => ?_
    refine (conditionSide_only hs root hr).bind fun right hright => Keeps.of_pure ?_
    exact ⟨hleft, known op (joinOperator?_mem hop), hright⟩

omit [Spells ok] in
theorem addCondition_only {tableAlias : String} {c : OnCondition} (hc : c.Only ok) :
    ∀ {joins : List Join}, (∀ j ∈ joins, j.Only ok) → ∀ j ∈ addCondition tableAlias c joins, j.Only ok
  | [], h => h
  | j :: rest, h => by
    obtain ⟨hj, hrest⟩ := List.forall_mem_cons.1 h
    unfold addCondition
    split
    · refine List.forall_mem_cons.2 ⟨⟨hj.table, hj.tableAlias, fun c' hc' => ?_⟩, hrest⟩
      rcases List.mem_append.1 hc' with hc' | hc'
      · exact hj.on c' hc'
      · exact List.mem_singleton.1 hc' ▸ hc
    · exact List.forall_mem_cons.2 ⟨hj, addCondition_only hc hrest⟩

theorem explicitCondition_only (hs : Schema.Only ok schema) (root : ι)
    {condition : Option JoinCondition}
    (h : ∀ c, condition = some c → Text.Only ok c.left ∧ Text.Only ok c.right) :
    Keeps (Scope.Only ok) (explicitCondition schema root condition)
      fun on => ∀ c, on = some c → OnCondition.Only ok c := by
  unfold explicitCondition
  split
  case h_1 c =>
    obtain ⟨hl, hr⟩ := h c rfl
    rw [map_eq_pure_bind]
    refine (resolveCondition_only hs root hl hr).bind fun on hon => Keeps.of_pure fun c' hc' => ?_
    exact Option.some.inj hc' ▸ hon
  case h_2 => exact Keeps.of_pure nofun

theorem followRelation_only (hs : Schema.Only ok schema) (root : ι) (kind : JoinKind) {w : Walk ι}
    {k : ι} {field : FieldDef ι} (hl : Leads schema root w.chain k)
    (hf : field ∈ (schema w.model).fields) :
    Keeps (Scope.Only ok) (followRelation schema root kind w field) (Text.Only ok) := by
  unfold followRelation
  exact (joinChain_only hs (hs root).table hl _).bind fun names hn =>
    joinRelation_only hs (last_only hn (hs root).table) ((hs _).fields field hf) _

theorem addExplicit_only (hs : Schema.Only ok schema) (root : ι) {j : ExplicitJoin}
    (ht : joinedRelation? schema root j.target = none → Text.Only ok j.target)
    (hc : ∀ c, j.condition = some c → Text.Only ok c.left ∧ Text.Only ok c.right) :
    Keeps (Scope.Only ok) (addExplicit schema root j) fun _ => True := by
  rw [addExplicit_eq]
  refine (explicitCondition_only hs root hc).bind fun condition hon => ?_
  unfold joinTarget
  split
  case h_1 w field hj =>
    obtain ⟨hw, hf, -⟩ := joinedRelation?_eq_some hj
    obtain ⟨-, -, hl, hm⟩ := walk_ok hw
    refine (followRelation_only hs root j.kind hl (hm field hf)).bind fun a _ =>
      Keeps.of_modify (fun s h => ?_) trivial
    cases condition with
    | none => exact h
    | some c => exact ⟨h.aliases, addCondition_only (hon c rfl) h.joins⟩
  case h_2 hj =>
    split
    · exact Keeps.of_throw
    · refine Keeps.of_modify (fun s h => ⟨h.aliases, fun i hi => ?_⟩) trivial
      rcases List.mem_append.1 hi with hi | hi
      · exact h.joins i hi
      · obtain rfl := List.mem_singleton.1 hi
        refine ⟨ht hj, ht hj, fun on hmem => hon on ?_⟩
        dsimp only at hmem
        split at hmem
        · exact absurd hmem List.not_mem_nil
        · simpa using hmem

theorem addExplicits_only (hs : Schema.Only ok schema) (root : ι) : ∀ {joins : List ExplicitJoin},
    (∀ j ∈ joins, joinedRelation? schema root j.target = none → Text.Only ok j.target) →
    (∀ j ∈ joins, ∀ c, j.condition = some c → Text.Only ok c.left ∧ Text.Only ok c.right) →
    Keeps (Scope.Only ok) (addExplicits schema root joins) fun _ => True
  | [], _, _ => Keeps.of_pure trivial
  | j :: rest, ht, hc => by
    obtain ⟨htj, ht⟩ := List.forall_mem_cons.1 ht
    obtain ⟨hcj, hc⟩ := List.forall_mem_cons.1 hc
    unfold addExplicits
    exact (addExplicit_only hs root htj hcj).bind fun _ _ => addExplicits_only hs root ht hc

/-! ## Projections -/

theorem projectPath_only (hs : Schema.Only ok schema) (root : ι) (dedupe : Bool) {s : ScanPlan ι}
    (h : s.Only ok) (path : String) :
    Keeps (Scope.Only ok) (projectPath schema root dedupe s path) (ScanPlan.Only ok) := by
  unfold projectPath
  refine (Keeps.ofResult fun w hw => walk_ok hw).bind fun w ⟨_, _, hl, hf⟩ => ?_
  refine (joinChain_only hs (hs root).table hl _).bind fun names hn => ?_
  have hc : (ensureChain schema s 0 (w.chain.zip names)).1.Only ok :=
    h.ensureChain fun x hx => hn x.2 (List.of_mem_zip hx).2
  dsimp only
  split
  · exact Keeps.of_pure hc
  · rename_i n hnode
    split
    · refine Keeps.of_pure (hc.projectAll _ _ fun f hf => ?_)
      exact ((hs n.model).fields f (List.mem_filter.1 hf).1).column
    · rename_i field hfield
      split
      · exact Keeps.of_pure (hc.project _ ((hs _).fields field (hf field hfield)).column dedupe)
      · have hfield := (hs _).fields field (hf field hfield)
        refine (joinRelation_only hs (hc.nodes n (List.mem_of_getElem? hnode)) hfield .left).bind
          fun targetAlias ht => ?_
        refine Keeps.bind (Q := fun _ => True) (Keeps.ofResult fun _ _ => trivial) fun target _ => ?_
        refine (Keeps.ofResult fun pk hpk => ((hs target).fields pk (Model.pk_mem hpk)).column).bind
          fun pk hpk => Keeps.of_pure ?_
        exact (hc.ensureNode _ field target ht).project _ hpk dedupe

theorem projectPaths_only (hs : Schema.Only ok schema) (root : ι) (dedupe : Bool) :
    ∀ {paths : List String} {s : ScanPlan ι}, s.Only ok →
      Keeps (Scope.Only ok) (projectPaths schema root dedupe s paths) (ScanPlan.Only ok)
  | [], _, h => Keeps.of_pure h
  | path :: rest, s, h => by
    unfold projectPaths
    exact (projectPath_only hs root dedupe h path).bind fun s' h' => projectPaths_only hs root dedupe h'

theorem projection_only (hs : Schema.Only ok schema) (root : ι) (dedupe : Bool)
    (paths : List String) :
    Keeps (Scope.Only ok) (projection schema root dedupe paths) (ScanPlan.Only ok) := by
  have hroot : (ScanPlan.withRoot root (schema root).table).Only ok :=
    ScanPlan.withRoot_only (hs root).table
  unfold projection
  dsimp only
  split
  · refine Keeps.of_pure (hroot.projectAll 0 dedupe fun f hf => ?_)
    exact ((hs root).fields f (List.mem_filter.1 hf).1).column
  · exact projectPaths_only hs root dedupe hroot

theorem ScanPlan.Only.keyed (hs : Schema.Only ok schema) (model : ι) (dedupe multiplied : Bool)
    {s : ScanPlan ι} (h : s.Only ok) : (s.keyed schema model dedupe multiplied).Only ok := by
  have grouped : ∀ s' : ScanPlan ι, s'.Only ok → ∀ groupRows,
      ScanPlan.Only ok { s' with groupRows } := fun s' h' _ => ⟨h'.nodes, h'.entries⟩
  unfold ScanPlan.keyed
  refine grouped _ ?_ _
  split
  · rename_i pk hpk
    have hmem : pk ∈ (schema model).fields := List.mem_of_find?_eq_some hpk
    split
    · exact h.project 0 ((hs model).fields pk hmem).column dedupe
    · exact h
  · exact h

end Orm
