import Orm.Proofs.Place.Columns
import Orm.Proofs.Place.Node

/-
A projection visits the places along its paths, and has nodes there (`projection_visited`).
-/

namespace Orm

variable {ι : Type} {schema : Schema ι} {root : ι}

/-! ## Projecting paths -/

/-- The columns at the end of a path, at the node of the last relation crossed. -/
def projectEnd (schema : Schema ι) (dedupe : Bool) (w : Walk ι) (s : ScanPlan ι) (node : Nat) :
    Resolving (ScanPlan ι) :=
  match s.nodes[node]? with
  | none => return s
  | some n =>
    match w.field with
    | none => return s.projectAll node (schema n.model).scalarFields dedupe
    | some field => do
      if field.hasColumn then return s.project node field dedupe
      let targetAlias ← joinRelation schema n.tableAlias n.model field .left
      let target ← Resolving.ofResult (targetOf schema n.model field)
      let pk ← Resolving.ofResult (schema target).pk
      return (s.ensureNode node field target targetAlias).1.project
        (s.ensureNode node field target targetAlias).2 pk dedupe

theorem projectPath_eq (dedupe : Bool) (s : ScanPlan ι) (path : String) :
    projectPath schema root dedupe s path = (do
      let w ← Resolving.ofResult (walk schema root path)
      let hops ← joinChain schema (schema root).table w.chain .left
      projectEnd schema dedupe w (ensureChain schema s 0 (w.chain.zip hops)).1
        (ensureChain schema s 0 (w.chain.zip hops)).2) := rfl

theorem projectEnd_grows (dedupe : Bool) (w : Walk ι) (s : ScanPlan ι) (node : Nat) :
    Grows (projectEnd schema dedupe w s node) := by
  unfold projectEnd
  split
  · exact .of_pure
  split
  · exact .of_pure
  split
  · exact .of_pure
  · exact (joinRelation_grows _ _ _ _).bind fun _ => Grows.ofResult.bind fun _ =>
      Grows.ofResult.bind fun _ => .of_pure

theorem projectPath_grows (dedupe : Bool) (s : ScanPlan ι) (path : String) :
    Grows (projectPath schema root dedupe s path) :=
  Grows.ofResult.bind fun w => (joinChain_grows _ _ _).bind fun _ => projectEnd_grows dedupe w _ _

theorem projectPaths_grows (dedupe : Bool) : ∀ (s : ScanPlan ι) (paths : List String),
    Grows (projectPaths schema root dedupe s paths)
  | _, [] => .of_pure
  | s, path :: rest => (projectPath_grows dedupe s path).bind fun s' =>
      projectPaths_grows dedupe s' rest

theorem projection_grows (dedupe : Bool) (paths : List String) :
    Grows (projection schema root dedupe paths) := by
  unfold projection
  dsimp only
  split
  · exact .of_pure
  · exact projectPaths_grows _ _ _

variable [DecidableEq ι] {others : List String}

theorem projectEnd_visited (hk : JoinKeysDistinct schema) {dedupe : Bool} {scan scan' : ScanPlan ι}
    {w : Walk ι} {node : Nat} {s t : Scope} {joined places : List (List (Hop ι))}
    (hl : Leads schema root w.chain w.model)
    (hmem : ∀ f, w.field = some f → f ∈ (schema w.model).fields)
    (hm : Mapped schema root others s joined) (hb : w.chain = [] ∨ w.chain ∈ joined)
    (hs : ScanAt schema root s.aliases scan places) (hnode : places[node]? = some w.chain)
    (hy : Yields (projectEnd schema dedupe w scan node) s scan' t)
    (hc : Clean schema root others t.aliases) :
    Visited schema root others s joined
        ((placesFrom w.chain w.last?.toList).map (Visit.mk .left)) t ∧
      ∃ more, (∀ c, c ∈ places ++ more ↔ c ∈ places ∨ c ∈ placesFrom w.chain w.last?.toList) ∧
        ScanAt schema root t.aliases scan' (places ++ more) := by
  obtain ⟨n, hn, hat⟩ := hs.node_of_place hnode
  have hmodel := hat.model hl
  have hsame : ∀ m, scan.nodes[node]? = some m → m.model = w.model := by
    intro m hm
    obtain rfl := Option.some.inj (hn.symm.trans hm)
    exact hmodel
  unfold projectEnd at hy
  simp only [hn] at hy
  cases hf : w.field with
  | none =>
    rw [hf] at hy
    obtain ⟨rfl, rfl⟩ := Yields.pure_iff.1 hy
    have hlast : w.last? = none := by rw [Walk.last?, hf]; rfl
    rw [hlast]
    refine ⟨.refl hm, [], by simp [placesFrom], ?_⟩
    rw [List.append_nil]
    refine hs.projectAll (fun f hf' => ?_) dedupe
    obtain ⟨hmem', hcol⟩ := Model.scalarFields_mem hf'
    exact ⟨hcol, fun m hm => by rw [hsame m hm, ← hmodel]; exact hmem'⟩
  | some f =>
    rw [hf] at hy
    dsimp only at hy
    by_cases hcol : f.hasColumn = true
    · rw [if_pos hcol] at hy
      obtain ⟨rfl, rfl⟩ := Yields.pure_iff.1 hy
      rw [Walk.last?_of_hasColumn hf hcol]
      refine ⟨.refl hm, [], by simp [placesFrom], ?_⟩
      rw [List.append_nil]
      exact hs.project (fun m hm => hsame m hm ▸ hmem f hf) (.inl hcol) dedupe
    · rw [if_neg hcol] at hy
      simp only [Resolving.ofResult, Yields.bind_iff, Yields.mk_pure_iff, Yields.pure_iff] at hy
      obtain ⟨y, _, hy, target, _, ⟨ht, rfl⟩, pk, _, ⟨hpk, rfl⟩, rfl, rfl⟩ := hy
      obtain ⟨r, hr, -⟩ := FieldDef.relation_of_not_hasColumn (Bool.eq_false_iff.2 hcol)
      obtain ⟨r', hr', rfl⟩ := targetOf_eq_ok ht
      obtain rfl : r = r' := Option.some.inj (hr.symm.trans hr')
      rw [hat.tableAlias, hmodel] at hy
      have hleads : Leads schema root (w.chain ++ [⟨w.model, f, r⟩]) r.target :=
        hl.append ⟨rfl, hmem f hf, hr, rfl⟩
      obtain ⟨hv, hplaced, rfl⟩ := joinRelation_visited hk hm hb hr hleads hy hc
      rw [Walk.last?_of_relation hf (Bool.eq_false_iff.2 hcol) hr]
      obtain ⟨more, hmore, hs', hplace⟩ := (hs.extend hv.extend).ensureNode hk hv.mapped.sound
        hc.root hnode hplaced
      refine ⟨by simpa [placesFrom] using hv, more, by simpa [placesFrom] using hmore, ?_⟩
      refine hs'.project (fun m hm => ?_) ?_ dedupe
      · obtain ⟨c, hplace', hat'⟩ := hs'.place_of_node hm
        obtain rfl := Option.some.inj (hplace'.symm.trans hplace)
        rw [hat'.model hleads]
        exact Model.pk_mem hpk
      · exact .inr (Model.pk_primaryKey hpk)

/-- A projected path visits the places along it, and has nodes there. -/
theorem projectPath_visited (hk : JoinKeysDistinct schema) {dedupe : Bool} {scan scan' : ScanPlan ι}
    {path : String} {s t : Scope} {joined places : List (List (Hop ι))}
    (hm : Mapped schema root others s joined) (hs : ScanAt schema root s.aliases scan places)
    (hy : Yields (projectPath schema root dedupe scan path) s scan' t)
    (hc : Clean schema root others t.aliases) :
    Visited schema root others s joined (pathVisits schema root false path) t ∧
      ∃ more, (∀ c, c ∈ places ++ more ↔ c ∈ places ∨ Crosses schema root path c) ∧
        ScanAt schema root t.aliases scan' (places ++ more) := by
  simp only [projectPath_eq, Resolving.ofResult, Yields.bind_iff, Yields.mk_pure_iff] at hy
  obtain ⟨w, _, ⟨hw, rfl⟩, hops, u, hj, hend⟩ := hy
  obtain ⟨-, -, hl, hmem⟩ := walk_ok hw
  have hvisits : pathVisits schema root false path = w.visits .left := by
    simp [pathVisits, hw, Walk.joinKind]
  have hcrosses : ∀ c, Crosses schema root path c ↔ c ∈ placesFrom [] w.crossed := by
    intro c
    rw [← mem_pathVisits false, hvisits, Walk.mem_visits, mem_placesFrom]
    simp [and_comm]
  have hsound := (joinChain_grows _ _ _).sound hm.sound hj
  have hcu := hc.of_extends ((projectEnd_grows _ _ _ _).extends hsound hend)
  obtain ⟨hv, hplaced, rfl, -⟩ := joinRoot_visited hk hm ⟨_, hl⟩ hj hcu
  obtain ⟨first, hfirst, hs', hnode⟩ := (hs.extend hv.extend).ensureChain hk hsound hcu.root
    hs.head hplaced
  obtain ⟨hv', more, hmore, hs''⟩ := projectEnd_visited hk hl hmem hv.mapped
    (chain_mem_joinedAfter joined .left w.chain) hs' hnode hend hc
  rw [hvisits]
  refine ⟨hv.trans hv', first ++ more, fun c => ?_, ?_⟩
  · rw [← List.append_assoc, hmore, hfirst, hcrosses, Walk.crossed, placesFrom_append,
      List.mem_append, or_assoc]
    rfl
  · rw [← List.append_assoc]
    exact hs''

theorem projectPaths_visited (hk : JoinKeysDistinct schema) {dedupe : Bool} :
    ∀ {paths : List String} {scan scan' : ScanPlan ι} {s t : Scope}
      {joined places : List (List (Hop ι))}, Mapped schema root others s joined →
      ScanAt schema root s.aliases scan places →
      Yields (projectPaths schema root dedupe scan paths) s scan' t →
      Clean schema root others t.aliases →
      Visited schema root others s joined (paths.flatMap (pathVisits schema root false)) t ∧
        ∃ more, (∀ c, c ∈ places ++ more ↔
            c ∈ places ∨ ∃ path ∈ paths, Crosses schema root path c) ∧
          ScanAt schema root t.aliases scan' (places ++ more)
  | [], scan, scan', s, t, joined, places, hm, hs, hy, _ => by
    obtain ⟨rfl, rfl⟩ := Yields.pure_iff.1 hy
    refine ⟨.refl hm, [], by simp, ?_⟩
    rwa [List.append_nil]
  | path :: rest, scan, scan', s, t, joined, places, hm, hs, hy, hc => by
    obtain ⟨mid, u, hy, hy'⟩ := Yields.bind_iff.1 hy
    have hsound := (projectPath_grows _ _ _).sound hm.sound hy
    have hcu := hc.of_extends ((projectPaths_grows _ _ _).extends hsound hy')
    obtain ⟨hv, first, hfirst, hs'⟩ := projectPath_visited hk hm hs hy hcu
    obtain ⟨hv', more, hmore, hs''⟩ := projectPaths_visited hk hv.mapped hs' hy' hc
    refine ⟨hv.trans hv', first ++ more, fun c => ?_, ?_⟩
    · rw [← List.append_assoc, hmore, hfirst]
      simp [or_assoc]
    · rw [← List.append_assoc]
      exact hs''

/-- A projection visits the places along its paths, and has nodes there and at the root. -/
theorem projection_visited (hk : JoinKeysDistinct schema) {dedupe : Bool} {paths : List String}
    {scan : ScanPlan ι} {s t : Scope} {joined : List (List (Hop ι))}
    (hm : Mapped schema root others s joined)
    (hy : Yields (projection schema root dedupe paths) s scan t)
    (hc : Clean schema root others t.aliases) :
    Visited schema root others s joined (paths.flatMap (pathVisits schema root false)) t ∧
      ∃ places, (∀ c, c ∈ places ↔ c = [] ∨ ∃ path ∈ paths, Crosses schema root path c) ∧
        ScanAt schema root t.aliases scan places := by
  have hroot : ScanAt schema root s.aliases _ _ := .withRoot s.aliases
  unfold projection at hy
  dsimp only at hy
  split at hy
  · rename_i hempty
    obtain rfl := List.isEmpty_iff.1 hempty
    obtain ⟨rfl, rfl⟩ := Yields.pure_iff.1 hy
    refine ⟨.refl hm, [[]], by simp, hroot.projectAll (fun f hf => ?_) dedupe⟩
    obtain ⟨hmem, hcol⟩ := List.mem_filter.1 hf
    refine ⟨hcol, fun n hn => ?_⟩
    cases hn
    exact hmem
  · obtain ⟨hv, more, hmore, hs⟩ := projectPaths_visited hk hm hroot hy hc
    exact ⟨hv, [[]] ++ more, fun c => by rw [hmore, List.mem_singleton], hs⟩

end Orm
