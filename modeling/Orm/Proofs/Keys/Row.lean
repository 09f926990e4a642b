import Orm.Proofs.Keys.Writing
import Orm.Proofs.Presence.Row

/-
What a row brings to the fields of its instances: before anything is attached, each field of the
instance at a node reads as the value of its column there, or as NULL does (`rowTree_shows`).
-/

namespace Orm

variable {ι : Type} {schema : Schema ι} {scan : ScanPlan ι} {columns : List (ScanEntry ι × Value)}

/-! ## Columns of a field -/

/-- The value that columns bring to a field of a node: that of its column, NULL without one. -/
inductive Brings (columns : List (ScanEntry ι × Value)) (i : Nat) (f : FieldDef ι) : Value → Prop
  | value {c : ScanEntry ι × Value} {v : Value} : c ∈ columns → c.1.target = .field i f →
      f.type.normalize c.2 = .ok v → v.isNull = false → Brings columns i f v
  | nothing : (∀ c ∈ columns, c.1.target = .field i f → c.2.isNull = true) → Brings columns i f .null

/-- A column of another field brings nothing to a field. -/
theorem Brings.of_snoc {c : ScanEntry ι × Value} {i : Nat} {f : FieldDef ι} {v : Value}
    (hc : c.1.target ≠ .field i f) (h : Brings (columns ++ [c]) i f v) : Brings columns i f v := by
  cases h with
  | value hd htarget hv hnull =>
    rcases List.mem_append.1 hd with hd | hd
    · exact .value hd htarget hv hnull
    · rw [List.mem_singleton.1 hd] at htarget
      exact absurd htarget hc
  | nothing hnull => exact .nothing fun d hd => hnull d (List.mem_append_left _ hd)

/-- The only column of a field brings what its type makes of the value. -/
theorem Brings.of_last {c : ScanEntry ι × Value} {i : Nat} {f : FieldDef ι} {v w : Value}
    (honce : ∀ d ∈ columns, d.1.target ≠ .field i f) (hc : c.1.target = .field i f)
    (hw : f.type.normalize c.2 = .ok w) (h : Brings (columns ++ [c]) i f v) : v = w := by
  cases h with
  | value hd htarget hv _ =>
    rcases List.mem_append.1 hd with hd | hd
    · exact absurd htarget (honce _ hd)
    · rw [List.mem_singleton.1 hd, hw] at hv
      exact (Except.ok.inj hv).symm
  | nothing hnull =>
    have hcnull := hnull c (List.mem_append_right _ (List.mem_singleton_self c)) hc
    rw [← FieldType.normalize_isNull hw] at hcnull
    exact (Value.eq_null hcnull).symm

/-! ## Instances -/

/-- An instance at a node has what the columns bring to its fields. -/
structure Shows (schema : Schema ι) (columns : List (ScanEntry ι × Value)) (i : Nat) (m : ι)
    (x : Instance ι) : Prop where
  model : x.model = m
  fresh : ∀ f ∈ (schema m).fields, (∀ c ∈ columns, c.1.target ≠ .field i f) →
    x.slot? f.name = some (.empty f)
  brought : ∀ f ∈ (schema m).fields, f.hasColumn = true → ∀ v, Brings columns i f v →
    ∃ w, f.Coerces schema v w ∧ x.value schema f.name = .ok w

variable {i : Nat} {m : ι} {x : Instance ι}

theorem Shows.new (hn : FieldNamesDistinct schema) (i : Nat) (m : ι) :
    Shows schema [] i m (.new schema m) := by
  have hempty : ∀ f ∈ (schema m).fields, (Instance.new schema m).slot? f.name = some (.empty f) := by
    intro f hf
    rw [Instance.slot?_new, hn.field?_eq hf, Option.map_some]
  refine ⟨rfl, fun f hf _ => hempty f hf, fun f hf hc v hv => ?_⟩
  cases hv with
  | value hd _ _ _ => exact absurd hd List.not_mem_nil
  | nothing _ => exact Instance.value_of_empty (x := .new schema m) (hn.field?_eq hf) hc (hempty f hf)

/-- A column that is not written, because it is of another node or NULL. -/
theorem Shows.skip {c : ScanEntry ι × Value} (h : Shows schema columns i m x)
    (hc : (∃ f, c.1.target = .field i f) → c.2.isNull = true) :
    Shows schema (columns ++ [c]) i m x := by
  refine ⟨h.model, fun f hf hnone => h.fresh f hf fun d hd => hnone d (List.mem_append_left _ hd), ?_⟩
  intro f hf hcol v hv
  refine h.brought f hf hcol v ?_
  cases hv with
  | value hd htarget hv hnull =>
    rcases List.mem_append.1 hd with hd | hd
    · exact .value hd htarget hv hnull
    · have hcnull := hc ⟨f, List.mem_singleton.1 hd ▸ htarget⟩
      rw [FieldType.normalize_isNull hv, List.mem_singleton.1 hd, hcnull] at hnull
      cases hnull
  | nothing hnull => exact .nothing fun d hd => hnull d (List.mem_append_left _ hd)

/-- A column that is written, the only one of its field. -/
theorem Shows.write (hn : FieldNamesDistinct schema) {c : ScanEntry ι × Value} {f : FieldDef ι}
    {w : Value} {x' : Instance ι} (h : Shows schema columns i m x) (hf : f ∈ (schema m).fields)
    (hc : c.1.target = .field i f) (honce : ∀ d ∈ columns, d.1.target ≠ .field i f)
    (hw : f.type.normalize c.2 = .ok w) (hx : x.setValue schema f.name w = (x', .ok ())) :
    Shows schema (columns ++ [c]) i m x' := by
  obtain rfl := h.model
  have hx' := Instance.setValueIn_assigned hx
  have hslot : ∀ g ∈ (schema x.model).fields, g ≠ f → x'.slot? g.name = x.slot? g.name :=
    fun g hg hne => hx'.slot? fun hname => hne (hn.eq hg hf hname)
  refine ⟨hx'.model, fun g hg hnone => ?_, fun g hg hcol v hv => ?_⟩
  · have hne : g ≠ f := by
      rintro rfl
      exact hnone c (List.mem_append_right _ (List.mem_singleton_self c)) hc
    rw [hslot g hg hne]
    exact h.fresh g hg fun d hd => hnone d (List.mem_append_left _ hd)
  · by_cases hne : g = f
    · subst hne
      rw [Brings.of_last honce hc hw hv]
      exact hx'.fresh hn rfl (hn.field?_eq hf) (h.fresh g hf honce)
    · have hother : c.1.target ≠ .field i g := by
        rw [hc]
        rintro heq
        exact hne (ScanTarget.field.inj heq).2.symm
      obtain ⟨u, hu, hvalue⟩ := h.brought g hg hcol v (hv.of_snoc hother)
      exact ⟨u, hu, (Instance.value_congr hx'.model (hslot g hg hne)).trans hvalue⟩

/-! ## The values of a row -/

/-- The columns of a plan's rows are those of declared fields. -/
def ScanPlan.Declares (schema : Schema ι) (scan : ScanPlan ι)
    (columns : List (ScanEntry ι × Value)) : Prop :=
  ∀ c ∈ columns, ∀ i f, c.1.target = .field i f →
    ∃ n, scan.nodes[i]? = some n ∧ f ∈ (schema n.model).fields

/-- No field has two columns at a node. -/
def Unrepeated (columns : List (ScanEntry ι × Value)) : Prop :=
  columns.Pairwise fun c d => ∀ i f, c.1.target = .field i f → d.1.target ≠ .field i f

def RowValues.Shows (schema : Schema ι) (scan : ScanPlan ι) (columns : List (ScanEntry ι × Value))
    (r : RowValues ι) : Prop :=
  ∀ (i : Nat) n v, scan.nodes[i]? = some n → r.nodes[i]? = some v →
    Orm.Shows schema columns i n.model (v.instance_.getD (.new schema n.model))

theorem RowValues.Shows.take (hn : FieldNamesDistinct schema) {r r' : RowValues ι} {k : Nat}
    {entry : ScanEntry ι} {v : Value} (h : r.Shows schema scan columns)
    (hdeclared : ∀ i f, entry.target = .field i f →
      ∃ n, scan.nodes[i]? = some n ∧ f ∈ (schema n.model).fields)
    (honce : ∀ i f, entry.target = .field i f → ∀ d ∈ columns, d.1.target ≠ .field i f)
    (ht : r.take schema scan k entry v = .ok r') : r'.Shows schema scan (columns ++ [(entry, v)]) := by
  intro i n u hnode hu
  obtain ⟨name, hentry, hnodes, -⟩ | ⟨j, f, n', values, values', hentry, hnode', hvalues, htake, hnodes, -⟩ :=
    RowValues.take_cases ht
  · rw [hnodes] at hu
    refine (h i n u hnode hu).skip fun ⟨f, hf⟩ => ?_
    cases hentry.symm.trans hf
  · rw [hnodes] at hu
    obtain ⟨rfl, rfl⟩ | ⟨hne, hu⟩ := getElem?_set_cases hu
    · obtain rfl := Option.some.inj (hnode.symm.trans hnode')
      have hbefore := h i n values hnode hvalues
      simp only [NodeValues.take, bind_eq_ok] at htake
      obtain ⟨w, hw, htake⟩ := htake
      split at htake
      case isTrue hnull =>
        rw [Bool.and_eq_true, FieldType.normalize_isNull hw] at hnull
        obtain rfl := pure_eq_ok.1 htake
        exact hbefore.skip fun _ => hnull.1
      case isFalse =>
        obtain ⟨⟨⟩, hset, htake⟩ := bind_eq_ok.1 htake
        obtain rfl := pure_eq_ok.1 htake
        obtain ⟨m, hm, hf⟩ := hdeclared i f hentry
        obtain rfl := Option.some.inj (hnode.symm.trans hm)
        exact hbefore.write hn hf hentry (honce i f hentry) hw (Prod.ext rfl hset)
    · refine (h i n u hnode hu).skip fun ⟨g, hg⟩ => ?_
      exact absurd (ScanTarget.field.inj (hg.symm.trans hentry)).1 hne

theorem RowValues.shows_of_takeAll (hn : FieldNamesDistinct schema) {r : RowValues ι}
    (hdeclared : scan.Declares schema columns) (honce : Unrepeated columns)
    (h : RowValues.takeAll schema scan 0 { nodes := scan.nodes.map fun _ => {} } columns = .ok r) :
    r.Shows schema scan columns := by
  refine RowValues.takeAll_induct (P := fun columns r => r.Shows schema scan columns) ?_ ?_ h
  · intro i n v hnode hv
    rw [List.getElem?_map] at hv
    obtain ⟨m, -, rfl⟩ := Option.map_eq_some_iff.1 hv
    exact Shows.new hn i n.model
  · intro before entry v after r r' hall hr ht
    subst hall
    refine hr.take hn (fun i f hf => ?_) (fun i f hf d hd htarget => ?_) ht
    · exact hdeclared _ (List.mem_append_right _ List.mem_cons_self) i f hf
    · exact (List.pairwise_append.1 honce).2.2 d hd _ List.mem_cons_self i f htarget hf

/-! ## The tree of a row -/

/-- The instance of a tree has what the columns bring to its node. -/
def Tree.Shows (schema : Schema ι) (scan : ScanPlan ι) (columns : List (ScanEntry ι × Value))
    (u : Tree ι) : Prop :=
  ∃ n, scan.nodes[u.index]? = some n ∧ Orm.Shows schema columns u.index n.model u.root

theorem Shows.congr {y : Instance ι} (h : Shows schema columns i m x) (hm : y.model = x.model)
    (hs : y.slots = x.slots) : Shows schema columns i m y := by
  have hslot : ∀ name, y.slot? name = x.slot? name := fun name => by
    rw [Instance.slot?, Instance.slot?, hs]
  refine ⟨hm.trans h.model, fun f hf hnone => (hslot f.name).trans (h.fresh f hf hnone), ?_⟩
  intro f hf hcol v hv
  obtain ⟨w, hw, hvalue⟩ := h.brought f hf hcol v hv
  exact ⟨w, hw, (Instance.value_congr hm (hslot f.name)).trans hvalue⟩

theorem seeds_shows {r : RowValues ι} (h : r.Shows schema scan columns) (present : List Bool) :
    ∀ (i : Nat) t, (seeds schema scan r.nodes present)[i]? = some (some t) →
      t.Every (Tree.Shows schema scan columns) := by
  intro i t ht
  rw [seeds, List.getElem?_map] at ht
  obtain ⟨j, -, ht⟩ := Option.map_eq_some_iff.1 ht
  split at ht
  case h_1 n v hnode hv _ =>
    obtain rfl := Option.some.inj ht
    refine .intro ⟨n, hnode, h j n v hnode hv⟩ fun c hc => ?_
    exact absurd hc List.not_mem_nil
  case h_2 => cases ht

/-- Every instance of a row has what the row brings to it. -/
theorem rowTree_shows (hn : FieldNamesDistinct schema) {row : List Value} {t : Tree ι}
    (hdeclared : scan.Declares schema (scan.entries.zip row))
    (honce : Unrepeated (scan.entries.zip row)) (h : rowTree schema scan row = .ok t) :
    t.Every (Tree.Shows schema scan (scan.entries.zip row)) := by
  obtain ⟨-, r, u, y, hr, hu, hy, rfl⟩ := rowTree_cases h
  have hseeds := seeds_shows (RowValues.shows_of_takeAll hn hdeclared honce hr)
    (presence scan r.nodes)
  have hadd : ∀ child v : Tree ι, v.Shows schema scan (scan.entries.zip row) →
      (Tree.addChild child v).Shows schema scan (scan.entries.zip row) := by
    intro child v hv
    rw [Tree.Shows, Tree.addChild_index, Tree.addChild_root]
    exact hv
  have hevery : u.Every (Tree.Shows schema scan (scan.entries.zip row)) :=
    foldl_hang_every hadd hseeds 0 u hu
  obtain ⟨n, hnode, hshows⟩ := hevery.here
  obtain ⟨hmodel, hslots⟩ := annotateAll_same hy
  exact .intro ⟨n, hnode, hshows.congr hmodel hslots⟩ hevery.under

end Orm
