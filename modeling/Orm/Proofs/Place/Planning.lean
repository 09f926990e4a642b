import Orm.Proofs.Place.WellFormed
import Orm.Proofs.Tree.Row

/-
What the plan of a SELECT has whatever is projected: what holds of the root alone, and stays so when a
node or a column is added, holds of the plan (`compileSelect_kept`). Every node but the root hangs below
an earlier one (`compileSelect_rooted`), and no column is projected twice (`compileSelect_once`).
-/

namespace Orm

variable {ι : Type} {schema : Schema ι} {root : ι}

/-! ## Plans as they are made -/

/-- What stays true of a plan while nodes and columns are added to it. -/
structure ScanPlan.Kept (schema : Schema ι) (root : ι) (P : ScanPlan ι → Prop) : Prop where
  root : P (.withRoot root (schema root).table)
  node : ∀ s p f m tableAlias, P s → p < s.nodes.length → P (s.ensureNode p f m tableAlias).1
  column : ∀ s i f, P s → P (s.project i f true)
  grouped : ∀ s b, P s → P { s with groupRows := b }

namespace ScanPlan

variable {s : ScanPlan ι} {P : ScanPlan ι → Prop}

theorem project_length (s : ScanPlan ι) (i : Nat) (f : FieldDef ι) (dedupe : Bool) :
    (s.project i f dedupe).nodes.length = s.nodes.length := by
  obtain he | ⟨n, -, -, he⟩ := s.project_cases i f dedupe
  · rw [he]
  · rw [he]
    dsimp only
    split
    · exact List.length_modify ..
    · rfl

theorem ensureNode_lt (s : ScanPlan ι) (p : Nat) (f : FieldDef ι) (m : ι) (tableAlias : String) :
    (s.ensureNode p f m tableAlias).2 < (s.ensureNode p f m tableAlias).1.nodes.length := by
  unfold ensureNode
  split
  case h_1 i hi => exact (List.findIdx?_eq_some_iff_getElem.1 hi).1
  case h_2 => simp

namespace Kept

variable (h : Kept schema root P)

include h

theorem projectAll {i : Nat} (fields : List (FieldDef ι)) (hs : P s) :
    P (s.projectAll i fields true) := by
  induction fields generalizing s with
  | nil => exact hs
  | cons f fields ih => exact ih (h.column s i f hs)

theorem ensureChain (hops : List (Hop ι × String)) {i : Nat} (hi : i < s.nodes.length) (hs : P s) :
    P (Orm.ensureChain schema s i hops).1 ∧
      (Orm.ensureChain schema s i hops).2 < (Orm.ensureChain schema s i hops).1.nodes.length := by
  induction hops generalizing s i with
  | nil => exact ⟨hs, hi⟩
  | cons x hops ih => exact ih (s.ensureNode_lt ..) (h.node s _ _ _ _ hs hi)

end Kept

end ScanPlan

/-! ## Projections -/

section

variable {P : ScanPlan ι → Prop} {s : ScanPlan ι}

/-- A plan with the property that has a root. -/
def ScanPlan.Grounded (P : ScanPlan ι → Prop) (s : ScanPlan ι) : Prop := P s ∧ 0 < s.nodes.length

theorem ScanPlan.ensureNode_pos (h : 0 < s.nodes.length) (p : Nat) (f : FieldDef ι) (m : ι)
    (tableAlias : String) : 0 < (s.ensureNode p f m tableAlias).1.nodes.length := by
  unfold ensureNode
  split
  · exact h
  · simp

theorem ScanPlan.Kept.grounded (h : ScanPlan.Kept schema root P) :
    ScanPlan.Kept schema root (ScanPlan.Grounded P) where
  root := ⟨h.root, Nat.zero_lt_one⟩
  node s p f m tableAlias hs hp := ⟨h.node s p f m tableAlias hs.1 hp, s.ensureNode_pos hs.2 p f m tableAlias⟩
  column s i f hs := ⟨h.column s i f hs.1, (s.project_length i f true).symm ▸ hs.2⟩
  grouped s b hs := ⟨h.grouped s b hs.1, hs.2⟩

variable (h : ScanPlan.Kept schema root P)

include h

theorem projectEnd_kept (w : Walk ι) {node : Nat} (hs : P s) :
    Keeps (fun _ => True) (projectEnd schema true w s node) P := by
  unfold projectEnd
  split
  case h_1 => exact .of_pure hs
  case h_2 n hn =>
    split
    case h_1 => exact .of_pure (h.projectAll _ hs)
    case h_2 f hf =>
      split
      case isTrue => exact .of_pure (h.column s node f hs)
      case isFalse =>
        refine (Keeps.any _).bind fun x _ => (Keeps.any _).bind fun target _ =>
          (Keeps.any _).bind fun pk _ => .of_pure (h.column _ _ pk ?_)
        exact h.node s node f target x hs (List.getElem?_eq_some_iff.1 hn).1

theorem projectPath_kept (path : String) (hs : ScanPlan.Grounded P s) :
    Keeps (fun _ => True) (projectPath schema root true s path) (ScanPlan.Grounded P) := by
  rw [projectPath_eq]
  refine (Keeps.any _).bind fun w _ => (Keeps.any _).bind fun hops _ => ?_
  exact projectEnd_kept h.grounded w (h.grounded.ensureChain _ hs.2 hs).1

theorem projectPaths_kept : ∀ {s : ScanPlan ι} (paths : List String), ScanPlan.Grounded P s →
    Keeps (fun _ => True) (projectPaths schema root true s paths) (ScanPlan.Grounded P)
  | _, [], hs => .of_pure hs
  | _, path :: rest, hs =>
    (projectPath_kept h path hs).bind fun _ hs' => projectPaths_kept rest hs'

theorem projection_kept (paths : List String) :
    Keeps (fun _ => True) (projection schema root true paths) (ScanPlan.Grounded P) := by
  unfold projection
  dsimp only
  split
  case isTrue => exact .of_pure (h.grounded.projectAll _ h.grounded.root)
  case isFalse => exact projectPaths_kept h paths h.grounded.root

theorem ScanPlan.Kept.keyed (hs : P s) (multiplied : Bool) : P (s.keyed schema root true multiplied) := by
  unfold ScanPlan.keyed
  dsimp only
  split
  case h_1 pk hpk =>
    split
    · exact h.grouped _ _ (h.column s 0 pk hs)
    · exact h.grouped _ _ hs
  case h_2 => exact h.grouped _ _ hs

end

/-- The plan of a SELECT is made by adding nodes and columns to a root; its computed columns come last. -/
theorem compileSelect_kept {P : ScanPlan ι → Prop} {p : Plan ι} {c : Compiled ι}
    (h : ScanPlan.Kept schema p.model P) (hc : compileSelect schema p = .ok c) :
    ∃ s : ScanPlan ι, ∃ names : List String, P s ∧ 0 < s.nodes.length ∧
      c.scan = { s with entries := s.entries ++ names.map fun name => ⟨name, .computed name⟩ } := by
  obtain ⟨sql, scan, args, hw, rfl⟩ := compileSelect_cases hc
  obtain ⟨r, scope, computed, mid, predicates, hres, -, -, hout⟩ := Plan.writeSelect_cases hw
  obtain ⟨rfl, rfl⟩ := Prod.mk.inj hout
  obtain ⟨-, ⟨st⟩⟩ := Plan.stages hres
  obtain ⟨hs, hpos⟩ := ((projection_kept h p.select).of_yields trivial st.projection).2
  obtain ⟨hs, hpos⟩ := h.grounded.keyed ⟨hs, hpos⟩ scope.toMany
  refine ⟨r.scan, r.annotations.map (·.1), st.scan_eq ▸ hs, st.scan_eq ▸ hpos, ?_⟩
  rw [List.map_map]
  rfl

/-! ## Nodes -/

/-- Every node but the root hangs below one before it. -/
structure ScanPlan.Rooted (s : ScanPlan ι) : Prop where
  root : s.parentAt 0 = none
  below : ∀ i, i < s.nodes.length → i ≠ 0 → ∃ p, p < i ∧ s.parentAt i = some p

/-- The columns are named after their nodes, each under a name of its own. -/
structure ScanPlan.Once (s : ScanPlan ι) : Prop where
  entry : ∀ e ∈ s.entries, ∃ i f n, s.nodes[i]? = some n ∧
    e = ⟨Aliases.columnAlias n.tableAlias f.column, .field i f⟩
  nodup : (s.entries.map (·.columnAlias)).Nodup

/-- A field is projected at a node once. -/
theorem ScanPlan.Once.unique {s : ScanPlan ι} (h : s.Once) {a b : Nat} {d e : ScanEntry ι} {i : Nat}
    {f : FieldDef ι} (ha : s.entries[a]? = some d) (hb : s.entries[b]? = some e)
    (hd : d.target = .field i f) (he : e.target = .field i f) : a = b := by
  have halias : d.columnAlias = e.columnAlias := by
    obtain ⟨_, _, n, hn, rfl⟩ := h.entry d (List.mem_of_getElem? ha)
    obtain ⟨_, _, m, hm, rfl⟩ := h.entry e (List.mem_of_getElem? hb)
    obtain ⟨rfl, rfl⟩ := ScanTarget.field.inj hd
    obtain ⟨rfl, rfl⟩ := ScanTarget.field.inj he
    obtain rfl := Option.some.inj (hn.symm.trans hm)
    rfl
  have hlt : a < (s.entries.map (·.columnAlias)).length := by
    rw [List.length_map]
    exact (List.getElem?_eq_some_iff.1 ha).1
  refine (List.getElem?_inj hlt h.nodup).1 ?_
  rw [List.getElem?_map, List.getElem?_map, ha, hb, Option.map_some, Option.map_some, halias]

theorem ScanPlan.once_kept : ScanPlan.Kept schema root ScanPlan.Once where
  root := ⟨fun e he => absurd he List.not_mem_nil, List.nodup_nil⟩
  node s p f m tableAlias hs hp := by
    unfold ensureNode
    split
    case h_1 => exact hs
    case h_2 =>
      refine ⟨fun e he => ?_, hs.nodup⟩
      obtain ⟨i, g, n, hn, rfl⟩ := hs.entry e he
      exact ⟨i, g, n, getElem?_append_of_some hn _, rfl⟩
  column s i f hs := by
    have hkept := s.project_nodesKept i f true
    obtain he | ⟨n, hn, hnew, he⟩ := s.project_cases i f true
    · rwa [he]
    · have hentry : ∀ e ∈ (s.project i f true).entries, ∃ j g m, s.nodes[j]? = some m ∧
          e = ⟨Aliases.columnAlias m.tableAlias g.column, .field j g⟩ := by
        rw [he]
        intro e hmem
        rcases List.mem_append.1 hmem with hmem | hmem
        · exact hs.entry e hmem
        · exact ⟨i, f, n, hn, List.mem_singleton.1 hmem⟩
      refine ⟨fun e hmem => ?_, ?_⟩
      · obtain ⟨j, g, m, hm, rfl⟩ := hentry e hmem
        obtain ⟨k, hk⟩ := hkept j m hm
        exact ⟨j, g, _, hk, rfl⟩
      · rw [he]
        dsimp only
        rw [List.map_append, List.nodup_append]
        refine ⟨hs.nodup, List.nodup_singleton _, fun x hx y hy => ?_⟩
        obtain ⟨e, hmem, rfl⟩ := List.mem_map.1 hx
        rw [List.mem_singleton.1 hy]
        rw [Bool.true_and, List.any_eq_false] at hnew
        exact fun heq => hnew e hmem (beq_iff_eq.2 heq)
  grouped s b hs := ⟨hs.entry, hs.nodup⟩

/-- In the rows of a SELECT a field has one column at a node. -/
theorem compileSelect_once {p : Plan ι} {c : Compiled ι} (hc : compileSelect schema p = .ok c)
    {a b : Nat} {d e : ScanEntry ι} {i : Nat} {f : FieldDef ι} (ha : c.scan.entries[a]? = some d)
    (hb : c.scan.entries[b]? = some e) (hd : d.target = .field i f) (he : e.target = .field i f) :
    a = b := by
  obtain ⟨s, names, hs, -, hscan⟩ := compileSelect_kept ScanPlan.once_kept hc
  rw [hscan] at ha hb
  -- the computed columns stand behind those of fields
  have hfield : ∀ {k : Nat} {x : ScanEntry ι},
      (s.entries ++ names.map fun name => (⟨name, .computed name⟩ : ScanEntry ι))[k]? = some x →
      x.target = .field i f → s.entries[k]? = some x := by
    intro k x hx hf
    by_cases hlt : k < s.entries.length
    · rwa [List.getElem?_append_left hlt] at hx
    · rw [List.getElem?_append_right (Nat.le_of_not_lt hlt), List.getElem?_map] at hx
      obtain ⟨name, -, rfl⟩ := Option.map_eq_some_iff.1 hx
      cases hf
  exact hs.unique (hfield ha hd) (hfield hb he) hd he

end Orm
