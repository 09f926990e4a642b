import Orm.Proofs.Alike.Rows
import Orm.Proofs.Hooks.Filling
import Orm.Proofs.Place.WellFormed
import Orm.Proofs.Tree.Materialize

/-
What is written where everything is to be saved, beside what a SELECT of the same paths reads. For paths
on the root both go by the same fields, but the SELECT reads each column once and the UPDATE writes it
as often as it is selected; and only the SELECT knows `*` (`updateFields_selected`).
-/

namespace Orm

variable {ι : Type} {schema : Schema ι} {root : ι}

/-! ## Columns once -/

/-- A field is added unless one has its column already. -/
def addColumn (fields : List (FieldDef ι)) (f : FieldDef ι) : List (FieldDef ι) :=
  if fields.any (·.column == f.column) then fields else fields ++ [f]

/-- The first field of each column. -/
def columnsOnce (fields : List (FieldDef ι)) : List (FieldDef ι) := fields.foldl addColumn []

section

variable {fields : List (FieldDef ι)} {f : FieldDef ι}

theorem any_column : fields.any (·.column == f.column) = true ↔ f.column ∈ fields.map (·.column) := by
  simp only [List.any_eq_true, beq_iff_eq, List.mem_map]

theorem addColumn_of_mem (h : f.column ∈ fields.map (·.column)) : addColumn fields f = fields :=
  if_pos (any_column.2 h)

theorem addColumn_of_notMem (h : f.column ∉ fields.map (·.column)) :
    addColumn fields f = fields ++ [f] :=
  if_neg fun hany => h (any_column.1 hany)

theorem addColumn_nodup (h : (fields.map (·.column)).Nodup) :
    ((addColumn fields f).map (·.column)).Nodup := by
  by_cases hf : f.column ∈ fields.map (·.column)
  · rwa [addColumn_of_mem hf]
  · rw [addColumn_of_notMem hf, List.map_append, List.map_singleton, ← List.concat_eq_append]
    exact h.concat hf

theorem foldl_addColumn_nodup (more : List (FieldDef ι)) (h : (fields.map (·.column)).Nodup) :
    ((more.foldl addColumn fields).map (·.column)).Nodup := by
  induction more generalizing fields with
  | nil => exact h
  | cons f more ih => exact ih (addColumn_nodup h)

/-- Nothing is left out of fields with columns of their own. -/
theorem foldl_addColumn_eq {more : List (FieldDef ι)}
    (h : ((fields ++ more).map (·.column)).Nodup) : more.foldl addColumn fields = fields ++ more := by
  induction more generalizing fields with
  | nil => exact (List.append_nil fields).symm
  | cons f more ih =>
    have hf : f.column ∉ fields.map (·.column) := by
      rw [List.map_append, List.nodup_append] at h
      exact fun hmem => h.2.2 _ hmem _ (List.mem_map_of_mem List.mem_cons_self) rfl
    rw [List.append_cons] at h
    rw [List.foldl_cons, addColumn_of_notMem hf, ih h, List.append_assoc, List.singleton_append]

theorem columnsOnce_nodup (fields : List (FieldDef ι)) :
    ((columnsOnce fields).map (·.column)).Nodup :=
  foldl_addColumn_nodup fields List.nodup_nil

theorem columnsOnce_eq_self_iff : columnsOnce fields = fields ↔ (fields.map (·.column)).Nodup :=
  ⟨fun h => h ▸ columnsOnce_nodup fields, @foldl_addColumn_eq _ [] fields⟩

end

/-! ## Paths on the root -/

/-- A path that crosses no relation: `*`, or a field with a column. -/
def OnRoot (schema : Schema ι) (root : ι) (path : String) : Prop :=
  ∃ w, walk schema root path = .ok w ∧ w.chain = [] ∧ ∀ f, w.field = some f → f.hasColumn = true

/-- The fields that a path on the root stands for. -/
def rootFields (schema : Schema ι) (root : ι) (path : String) : List (FieldDef ι) :=
  if path = "*" then (schema root).scalarFields else ((schema root).field? path).toList

theorem Text.pieces_eq_singleton {sep : Char} {cs part : List Char} (h : pieces sep cs = [part]) :
    part = cs := by
  induction cs generalizing part with
  | nil => exact (List.singleton_inj.1 h).symm
  | cons c cs ih =>
    unfold pieces at h
    split at h
    · exact absurd (List.cons.inj h).2 (pieces_ne_nil sep cs)
    · split at h
      · rename_i hnil
        exact absurd hnil (pieces_ne_nil sep cs)
      · rename_i first rest hfirst
        obtain ⟨rfl, rfl⟩ := List.cons.inj h
        rw [ih hfirst]

/-- A text that is not cut is its only part. -/
theorem Text.split_eq_singleton {sep : Char} {s part : String} (h : split sep s = [part]) :
    part = s := by
  obtain ⟨cs, hcs, rfl⟩ := List.map_eq_singleton_iff.1 h
  rw [pieces_eq_singleton hcs, String.ofList_toList]

/-- Paths that cross no relation have one segment. -/
theorem walkSegments_chain_nil {segments : List String} {m reached : ι} {last : Option (FieldDef ι)}
    (h : walkSegments schema m segments = .ok ([], reached, last)) :
    ∃ segment, segments = [segment] ∧ reached = m ∧
      (segment = "*" ∧ last = none ∨
        segment ≠ "*" ∧ ∃ f, (schema m).field? segment = some f ∧ last = some f) := by
  match segments with
  | [] => cases h
  | [segment] =>
    refine ⟨segment, rfl, ?_⟩
    unfold walkSegments at h
    split at h
    · rename_i hall
      cases h
      exact ⟨rfl, .inl ⟨hall, rfl⟩⟩
    · rename_i hnamed
      simp only [bind_eq_ok, pure_eq_ok, Prod.mk.injEq] at h
      obtain ⟨f, hf, -, rfl, rfl⟩ := h
      exact ⟨rfl, .inr ⟨hnamed, f, Model.field_eq_ok.1 hf, rfl⟩⟩
  | segment :: next :: rest =>
    simp only [walkSegments, bind_eq_ok] at h
    obtain ⟨f, -, h⟩ := h
    split at h
    · cases h
    · simp only [bind_eq_ok, pure_eq_ok, Prod.mk.injEq] at h
      obtain ⟨_, -, hchain, -⟩ := h
      exact absurd hchain (List.cons_ne_nil _ _)

/-- What a path on the root is. -/
theorem OnRoot.cases {path : String} (h : OnRoot schema root path) :
    path = "*" ∧ walk schema root path = .ok ⟨path, root, [], root, none⟩ ∨
      path ≠ "*" ∧ ∃ f, (schema root).field? path = some f ∧ f.hasColumn = true ∧
        walk schema root path = .ok ⟨path, root, [], root, some f⟩ := by
  obtain ⟨w, hw, hchain, hcol⟩ := h
  have hwalk := hw
  simp only [walk, bind_eq_ok, pure_eq_ok] at hw
  obtain ⟨⟨chain, reached, last⟩, hsegments, rfl⟩ := hw
  obtain rfl : chain = [] := hchain
  obtain ⟨segment, hsplit, rfl, hlast⟩ := walkSegments_chain_nil hsegments
  obtain rfl := Text.split_eq_singleton hsplit
  rcases hlast with ⟨hall, rfl⟩ | ⟨hnamed, f, hf, rfl⟩
  · exact .inl ⟨hall, hwalk⟩
  · exact .inr ⟨hnamed, f, hf, hcol f rfl, hwalk⟩

/-! ## What is read -/

/-- The entry of a field of the root. -/
def rootEntry (schema : Schema ι) (root : ι) (f : FieldDef ι) : ScanEntry ι :=
  ⟨Aliases.columnAlias (schema root).table f.column, .field 0 f⟩

/-- A projection of nothing but these fields of the root. -/
structure ScanPlan.ReadsRoot (schema : Schema ι) (root : ι) (fields : List (FieldDef ι))
    (s : ScanPlan ι) : Prop where
  nodes : s.nodes = [⟨none, none, root, (schema root).table, s.rootKey⟩]
  entries : s.entries = fields.map (rootEntry schema root)
  key : ∀ f ∈ fields, f.primaryKey = true → s.rootKey.isSome = true

namespace ScanPlan.ReadsRoot

variable {s : ScanPlan ι} {fields : List (FieldDef ι)}

theorem withRoot : (ScanPlan.withRoot root (schema root).table).ReadsRoot schema root [] :=
  ⟨rfl, rfl, fun _ hf => absurd hf List.not_mem_nil⟩

theorem node_zero (h : s.ReadsRoot schema root fields) :
    s.nodes[0]? = some ⟨none, none, root, (schema root).table, s.rootKey⟩ := by
  rw [h.nodes]
  rfl

/-- The columns of one table have different names if they are different. -/
theorem any_entry (h : s.ReadsRoot schema root fields) (f : FieldDef ι) :
    s.entries.any (·.columnAlias == Aliases.columnAlias (schema root).table f.column) =
      fields.any (·.column == f.column) := by
  rw [h.entries, List.any_map]
  refine congrArg _ (funext fun g => ?_)
  rw [Bool.eq_iff_iff, Function.comp_apply, beq_iff_eq, beq_iff_eq]
  exact String.append_right_inj _

theorem project (h : s.ReadsRoot schema root fields) (f : FieldDef ι) :
    (s.project 0 f true).ReadsRoot schema root (addColumn fields f) := by
  unfold ScanPlan.project addColumn
  rw [h.node_zero]
  dsimp only
  rw [h.any_entry, Bool.true_and]
  split
  · exact h
  · have hentries : s.entries ++ [rootEntry schema root f] =
        (fields ++ [f]).map (rootEntry schema root) := by
      rw [h.entries, List.map_append, List.map_singleton]
    cases hf : f.primaryKey with
    | true =>
      rw [if_pos rfl, h.nodes]
      exact ⟨rfl, hentries, fun _ _ _ => rfl⟩
    | false =>
      rw [if_neg Bool.false_ne_true]
      refine ⟨h.nodes, hentries, fun g hg hkey => ?_⟩
      rcases List.mem_append.1 hg with hg | hg
      · exact h.key g hg hkey
      · rw [List.mem_singleton.1 hg, hf] at hkey
        cases hkey

theorem projectAll (h : s.ReadsRoot schema root fields) (more : List (FieldDef ι)) :
    (s.projectAll 0 more true).ReadsRoot schema root (more.foldl addColumn fields) := by
  induction more generalizing s fields with
  | nil => exact h
  | cons f more ih => exact ih (h.project f)

/-- The key is added only to group rows by, and only if its column is not read yet. -/
theorem keyed (h : s.ReadsRoot schema root fields) (multiplied : Bool) :
    ∃ key : Option (FieldDef ι), (s.keyed schema root true multiplied).entries =
        (fields ++ key.toList).map (rootEntry schema root) ∧
      ∀ pk ∈ key, (schema root).pk? = some pk ∧ pk.column ∉ fields.map (·.column) ∧
        (s.keyed schema root true multiplied).groupRows = true := by
  have hsame : s.entries = (fields ++ (none : Option (FieldDef ι)).toList).map (rootEntry schema root) := by
    rw [h.entries, Option.toList_none, List.append_nil]
  unfold ScanPlan.keyed
  cases hpk : (schema root).pk? with
  | none => exact ⟨none, hsame, fun pk h => absurd h (Option.not_mem_none pk)⟩
  | some pk =>
    dsimp only
    split
    · rename_i hadd
      obtain ⟨hmultiplied, -⟩ := Bool.and_eq_true_iff.1 hadd
      have hreads := h.project pk
      by_cases hcolumn : pk.column ∈ fields.map (·.column)
      · rw [addColumn_of_mem hcolumn] at hreads
        refine ⟨none, ?_, fun pk h => absurd h (Option.not_mem_none pk)⟩
        rw [hreads.entries, Option.toList_none, List.append_nil]
      · rw [addColumn_of_notMem hcolumn] at hreads
        refine ⟨some pk, hreads.entries, fun pk' hpk' => ?_⟩
        obtain rfl := Option.some.inj hpk'
        refine ⟨rfl, hcolumn, Bool.and_eq_true_iff.2 ⟨hmultiplied, ?_⟩⟩
        exact hreads.key pk (List.mem_append_right _ (List.mem_singleton_self pk))
          (List.find?_some hpk)
    · exact ⟨none, hsame, fun pk h => absurd h (Option.not_mem_none pk)⟩

theorem projectPath {path : String} (hpath : OnRoot schema root path)
    (h : s.ReadsRoot schema root fields) :
    Orm.projectPath schema root true s path =
      pure (s.projectAll 0 (rootFields schema root path) true) := by
  rcases hpath.cases with ⟨hall, hw⟩ | ⟨hnamed, f, hf, hcol, hw⟩
  · rw [projectPath_eq, hw, rootFields, if_pos hall]
    change projectEnd schema true ⟨path, root, [], root, none⟩ s 0 = _
    rw [projectEnd, h.node_zero]
  · rw [projectPath_eq, hw, rootFields, if_neg hnamed, hf]
    change projectEnd schema true ⟨path, root, [], root, some f⟩ s 0 = _
    rw [projectEnd, h.node_zero]
    exact if_pos hcol

theorem projectPaths {paths : List String} (hpaths : ∀ path ∈ paths, OnRoot schema root path)
    (h : s.ReadsRoot schema root fields) :
    Orm.projectPaths schema root true s paths =
      pure (s.projectAll 0 (paths.flatMap (rootFields schema root)) true) := by
  induction paths generalizing s fields with
  | nil => rfl
  | cons path rest ih =>
    rw [List.forall_mem_cons] at hpaths
    rw [Orm.projectPaths, h.projectPath hpaths.1, pure_bind, ih hpaths.2 (h.projectAll _),
      List.flatMap_cons]
    unfold ScanPlan.projectAll
    rw [List.foldl_append]

end ScanPlan.ReadsRoot

/-- The projection of paths on the root has the columns of their fields, each of them once. -/
theorem projection_onRoot {paths : List String} {scan : ScanPlan ι} {s t : Scope} (hne : paths ≠ [])
    (hpaths : ∀ path ∈ paths, OnRoot schema root path)
    (hy : Yields (projection schema root true paths) s scan t) :
    scan.ReadsRoot schema root (columnsOnce (paths.flatMap (rootFields schema root))) := by
  have hroot : (ScanPlan.withRoot root (schema root).table).ReadsRoot schema root [] := .withRoot
  unfold projection at hy
  rw [if_neg (by simpa using hne), hroot.projectPaths hpaths] at hy
  rw [← (Yields.pure_iff.1 hy).1]
  exact hroot.projectAll _

/-! ## What is written -/

namespace Instance

/--
An instance with a slot for every field that has a column: a value, or at most one instance, which has
such slots as well.
-/
inductive Whole (schema : Schema ι) : Instance ι → Prop
  | intro {x : Instance ι} :
      (∀ f ∈ (schema x.model).columnFields, ∃ s, x.slot? f.name = some s ∧ ∀ rs, s ≠ .many rs) →
      (∀ name y, x.slot? name = some (.one (some y)) → Whole schema y) → Whole schema x

namespace Whole

variable {x : Instance ι}

theorem behind (h : x.Whole schema) {name : String} {y : Instance ι}
    (hy : x.slot? name = some (.one (some y))) : y.Whole schema := by
  cases h with
  | intro _ hbehind => exact hbehind name y hy

theorem new (hn : FieldNamesDistinct schema) (m : ι) : (Instance.new schema m).Whole schema := by
  refine .intro (fun f hf => ?_) fun name y hy => ?_
  · obtain ⟨hmem, hcol⟩ := List.mem_filter.1 hf
    have hfield : (schema m).field? f.name = some f := hn.field?_eq hmem
    refine ⟨.empty f, ?_, Slot.empty_ne_many hcol⟩
    rw [slot?_new, hfield, Option.map_some]
  · rw [slot?_new] at hy
    obtain ⟨f, -, hf⟩ := Option.map_eq_some_iff.1 hy
    exact absurd hf (Slot.empty_ne_one f y)

theorem withSlot (h : x.Whole schema) (name : String) {s : Slot ι} (hmany : ∀ rs, s ≠ .many rs)
    (hs : ∀ y, s = .one (some y) → y.Whole schema) : (x.withSlot name s).Whole schema := by
  cases h with
  | intro hslots hbehind =>
    refine .intro (fun f hf => ?_) fun n y hy => ?_
    · obtain ⟨old, hold, hsingle⟩ := hslots f hf
      rw [slot?_withSlot]
      by_cases hname : f.name = name
      · rw [if_pos hname, ← hname, hold]
        exact ⟨s, rfl, hmany⟩
      · rw [if_neg hname]
        exact ⟨old, hold, hsingle⟩
    · rw [slot?_withSlot] at hy
      by_cases hname : n = name
      · rw [if_pos hname] at hy
        obtain ⟨-, -, hy⟩ := Option.map_eq_some_iff.1 hy
        exact hs y hy
      · rw [if_neg hname] at hy
        exact hbehind n y hy

theorem relatedOrNew (hn : FieldNamesDistinct schema) (h : x.Whole schema) (name : String)
    (target : ι) : (x.relatedOrNew schema name target).Whole schema := by
  unfold Instance.relatedOrNew
  split
  · rename_i y hy
    exact h.behind hy
  · exact .new hn target

end Whole

/-- Whatever is written to an instance leaves a slot for every field. -/
theorem Assigned.whole (hn : FieldNamesDistinct schema) {x y : Instance ι} {name : String} {v : Value}
    {result : Result Unit} (h : Assigned schema v x name y result) (hx : x.Whole schema) :
    y.Whole schema := by
  induction h with
  | refused => exact hx
  | scalar => exact hx.withSlot _ (fun _ => nofun) fun _ => nofun
  | cleared => exact hx.withSlot _ (fun _ => nofun) fun _ => nofun
  | keyless =>
    refine hx.withSlot _ (fun _ => nofun) fun z hz => ?_
    obtain rfl := Option.some.inj (Slot.one.inj hz)
    exact hx.relatedOrNew hn _ _
  | behind _ _ _ _ _ _ ih =>
    refine hx.withSlot _ (fun _ => nofun) fun z hz => ?_
    obtain rfl := Option.some.inj (Slot.one.inj hz)
    exact ih (hx.relatedOrNew hn _ _)

/-- Every column of such an instance can be read. -/
theorem Whole.readable (hn : FieldNamesDistinct schema) (hk : KeysOwnColumns schema) {x : Instance ι}
    (h : x.Whole schema) :
    ∀ f ∈ (schema x.model).columnFields, ∃ v, x.value schema f.name = .ok v := by
  induction h with
  | @intro x hslots _ ih =>
    intro f hf
    obtain ⟨s, hs, hsingle⟩ := hslots f hf
    have hread : ∃ v, slotValue schema (unknown schema x f.name) s = .ok v := by
      cases s with
      | scalar v => exact ⟨v, by rw [slotValue]⟩
      | many rs => exact absurd rfl (hsingle rs)
      | one y =>
        cases y with
        | none => exact ⟨.null, by rw [slotValue]⟩
        | some y =>
          rw [slotValue, key_eq]
          cases hpk : (schema y.model).pk? with
          | none => exact ⟨.null, rfl⟩
          | some pk =>
            exact ih f.name y hs pk
              (List.mem_filter.2 ⟨List.mem_of_find?_eq_some hpk, hk y.model pk hpk⟩)
    obtain ⟨v, hv⟩ := hread
    obtain ⟨hmem, hcol⟩ := List.mem_filter.1 hf
    exact ⟨v, value_eq_ok.2 ⟨f, s, hn.field?_eq hmem, hcol, hs, hv⟩⟩

/-- These fields, one after the other, each with the value that the instance has for it. -/
structure Gives (schema : Schema ι) (x : Instance ι) (fields : List (FieldDef ι))
    (out : List (FieldDef ι × Value)) : Prop where
  fields : out.map (·.1) = fields
  values : ∀ e ∈ out, x.value schema e.1.name = .ok e.2

end Instance

section

variable {m : ι} {x : Instance ι}

/-- Fields are written as often as they are selected. -/
theorem selectedFields_onRoot
    (hx : ∀ f ∈ (schema m).columnFields, ∃ v, x.value schema f.name = .ok v) {paths : List String}
    (hpaths : ∀ path ∈ paths, OnRoot schema m path) (hall : "*" ∉ paths) :
    ∃ out, selectedFields schema m x paths = .ok out ∧
      x.Gives schema (paths.flatMap (rootFields schema m)) out := by
  induction paths with
  | nil => exact ⟨[], rfl, rfl, fun _ he => absurd he List.not_mem_nil⟩
  | cons path rest ih =>
    rw [List.forall_mem_cons] at hpaths
    rw [List.mem_cons, not_or] at hall
    rcases hpaths.1.cases with ⟨rfl, -⟩ | ⟨hnamed, f, hf, hcol, -⟩
    · exact absurd rfl hall.1
    obtain ⟨v, hv⟩ := hx f (List.mem_filter.2 ⟨(Model.field?_eq_some hf).1, hcol⟩)
    obtain ⟨out, hout, hgives⟩ := ih hpaths.2 hall.2
    refine ⟨(f, v) :: out, ?_, ?_, List.forall_mem_cons.2 ⟨hv, hgives.values⟩⟩
    · rw [selectedFields, hf, Option.filter_some, if_pos hcol]
      dsimp only
      rw [hv, hout]
      rfl
    · rw [List.map_cons, hgives.fields, List.flatMap_cons, rootFields, if_neg hnamed, hf]
      rfl

/-- All fields at once are looked for as a field of that name. -/
theorem selectedFields_all
    (hx : ∀ f ∈ (schema m).columnFields, ∃ v, x.value schema f.name = .ok v) {paths : List String}
    (hpaths : ∀ path ∈ paths, OnRoot schema m path) (hnone : (schema m).field? "*" = none)
    (hall : "*" ∈ paths) :
    selectedFields schema m x paths = .error (.unknownField (schema m).table "*") := by
  induction paths with
  | nil => exact absurd hall List.not_mem_nil
  | cons path rest ih =>
    rw [List.forall_mem_cons] at hpaths
    rcases hpaths.1.cases with ⟨rfl, -⟩ | ⟨hnamed, f, hf, hcol, -⟩
    · rw [selectedFields, hnone]
      rfl
    · obtain ⟨v, hv⟩ := hx f (List.mem_filter.2 ⟨(Model.field?_eq_some hf).1, hcol⟩)
      have hrest := ih hpaths.2 ((List.mem_cons.1 hall).resolve_left (Ne.symm hnamed))
      rw [selectedFields, hf, Option.filter_some, if_pos hcol]
      dsimp only
      rw [hv, hrest]
      rfl

end

/-! ## Both -/

variable {p : Plan ι}

/-- The fields that a query on the root selects, as often as it selects them. -/
def Plan.selectedFields (schema : Schema ι) (p : Plan ι) : List (FieldDef ι) :=
  p.select.flatMap (rootFields schema p.model)

/--
Where everything is to be saved and the paths selected are on the root, a SELECT of them reads each
column of their fields once. An UPDATE writes the fields as often as they are selected, with the values
of the instance, unless all are selected at once: `*` is not a field. So it writes what the SELECT reads
exactly if `*` is not selected and no column is selected twice.
-/
theorem updateFields_selected (hn : FieldNamesDistinct schema) (hk : KeysOwnColumns schema)
    (hsave : p.explicitSave = true) (hne : p.select ≠ [])
    (hroot : ∀ path ∈ p.select, OnRoot schema p.model path)
    (hnone : (schema p.model).field? "*" = none) {x : Instance ι} (hm : x.model = p.model)
    (hx : x.Whole schema) :
    (∀ c, compileSelect schema p = .ok c → ∃ (key : Option (FieldDef ι)) (computed : List String),
      c.scan.entries = (columnsOnce (p.selectedFields schema) ++ key.toList).map
          (rootEntry schema p.model) ++ computed.map (fun name => ⟨name, .computed name⟩) ∧
      ∀ pk ∈ key, (schema p.model).pk? = some pk ∧
        pk.column ∉ (columnsOnce (p.selectedFields schema)).map (·.column) ∧
        c.scan.groupRows = true) ∧
    ("*" ∉ p.select → ∃ out, updateFields schema p x = .ok out ∧
      x.Gives schema (p.selectedFields schema) out) ∧
    ("*" ∈ p.select →
      updateFields schema p x = .error (.unknownField (schema p.model).table "*")) ∧
    ((∃ out, updateFields schema p x = .ok out ∧
        x.Gives schema (columnsOnce (p.selectedFields schema)) out) ↔
      "*" ∉ p.select ∧ ((p.selectedFields schema).map (·.column)).Nodup) := by
  have hread := hm ▸ hx.readable hn hk
  have hupdate : updateFields schema p x = Orm.selectedFields schema p.model x p.select := by
    unfold updateFields
    rw [hsave, if_pos (by simpa using hne)]
  have hnamed := selectedFields_onRoot hread hroot
  have hall := selectedFields_all hread hroot hnone
  rw [hupdate]
  refine ⟨fun c hc => ?_, hnamed, hall, ?_, ?_⟩
  · obtain ⟨sql, scan, args, hw, rfl⟩ := compileSelect_cases hc
    obtain ⟨r, scope, computed, mid, predicates, hres, -, -, hout⟩ := Plan.writeSelect_cases hw
    obtain ⟨rfl, rfl⟩ := Prod.mk.inj hout
    obtain ⟨-, ⟨st⟩⟩ := Plan.stages hres
    obtain ⟨key, hentries, hkey⟩ := (projection_onRoot hne hroot st.projection).keyed scope.toMany
    rw [← st.scan_eq] at hentries hkey
    refine ⟨key, r.annotations.map (·.1), ?_, hkey⟩
    rw [List.map_map, Plan.selectedFields, ← hentries]
    rfl
  · rintro ⟨out, hout, hgives⟩
    have hnot : "*" ∉ p.select := fun hmem => nomatch (hall hmem).symm.trans hout
    obtain ⟨out', hout', hgives'⟩ := hnamed hnot
    obtain rfl := Except.ok.inj (hout.symm.trans hout')
    exact ⟨hnot, columnsOnce_eq_self_iff.1 (hgives.fields.symm.trans hgives'.fields)⟩
  · rintro ⟨hnot, hnodup⟩
    rw [columnsOnce_eq_self_iff.2 hnodup]
    exact hnamed hnot

/-- One todo, of which what is selected is to be saved. -/
def savedTodo (select : List String) : Plan Sample where
  model := .todo
  select
  filters := [.compare "id" .exact [.int 1]]
  explicitSave := true

/-- A todo that one user has swept. -/
def sweptByUser : Instance Sample := (swept.setValue Sample.schema "user" (.int 7)).1

theorem sweptByUser_saved : (savedTodo ["title", "user"]).explicitSave = true ∧
    (∀ path ∈ ["title", "user"], OnRoot Sample.schema .todo path) ∧
    (Sample.schema .todo).field? "*" = none ∧ sweptByUser.Whole Sample.schema ∧
    ∃ out, updateFields Sample.schema (savedTodo ["title", "user"]) sweptByUser = .ok out ∧
      sweptByUser.Gives Sample.schema
        (columnsOnce ((savedTodo ["title", "user"]).selectedFields Sample.schema)) out := by
  have hroot : ∀ path ∈ ["title", "user"], OnRoot Sample.schema .todo path := by
    intro path hpath
    simp only [List.mem_cons, List.not_mem_nil, or_false] at hpath
    rcases hpath with rfl | rfl
    all_goals
      refine ⟨_, rfl, rfl, fun f hf => ?_⟩
      cases hf
      rfl
  have hswept : swept.Whole Sample.schema :=
    (Instance.Whole.new sample_fieldNamesDistinct .todo).withSlot _ (fun _ => nofun) fun _ => nofun
  have hx : sweptByUser.Whole Sample.schema :=
    (Instance.setValueIn_assigned rfl).whole sample_fieldNamesDistinct hswept
  refine ⟨rfl, hroot, by decide, hx, ?_⟩
  obtain ⟨-, -, -, hsame⟩ := updateFields_selected (p := savedTodo ["title", "user"])
    sample_fieldNamesDistinct sample_keysOwnColumns rfl (List.cons_ne_nil _ _) hroot (by decide)
    (x := sweptByUser) rfl hx
  exact hsame.2 ⟨by decide, by decide⟩

/-- All of a todo is read, but cannot be written; a title selected twice is read once and written twice. -/
theorem savedTodo_unlike :
    (∃ c, compileSelect Sample.schema (savedTodo ["*"]) = .ok c ∧
      c.scan.columnAliases = ["todos_id", "todos_title", "todos_done"]) ∧
    updateFields Sample.schema (savedTodo ["*"]) sweptByUser = .error (.unknownField "todos" "*") ∧
    (∃ c, compileSelect Sample.schema (savedTodo ["title", "title"]) = .ok c ∧
      c.scan.columnAliases = ["todos_title"]) ∧
    updateFields Sample.schema (savedTodo ["title", "title"]) sweptByUser =
      .ok [(Sample.scalar "title" .text, .string "Sweep"),
        (Sample.scalar "title" .text, .string "Sweep")] :=
  ⟨⟨_, rfl, rfl⟩, rfl, ⟨_, rfl, rfl⟩, rfl⟩

end Orm
