import Orm.Proofs.Fault.Tree
import Orm.Proofs.Presence.Hanging
import Orm.Proofs.Tree.Materialize

/-
Which related instances a row of a SELECT gives. A node below the root has one if and only if some column
at it or below it has a value, and so has each node on the way there that has columns of its own
(`select_presence`): a node whose columns are all NULL is taken for a join without a match, and what
stands below it is left out with it.
-/

namespace Orm

variable {ι : Type} {schema : Schema ι} {scan : ScanPlan ι}

/-- A node is another one or stands somewhere below it. -/
def ScanPlan.Spans (scan : ScanPlan ι) : Nat → Nat → Prop :=
  Relation.ReflTransGen fun p i => scan.parentAt i = some p

theorem ScanPlan.Spans.le (hr : scan.Rooted) {a d : Nat} (h : scan.Spans a d) : a ≤ d := by
  induction h with
  | refl => exact Nat.le_refl a
  | tail _ hd ih => exact Nat.le_trans ih (Nat.le_of_lt (hr.lt_of_parentAt hd))

/-! ## Nodes with an instance -/

section

variable {columns : List (ScanEntry ι × Value)} {present : Nat → Prop}

/-- A node has an instance if one of its columns has a value or, without any, a node below has one. -/
structure Settles (scan : ScanPlan ι) (columns : List (ScanEntry ι × Value)) (present : Nat → Prop) :
    Prop where
  root : present 0
  own : ∀ i, i ≠ 0 → i < scan.nodes.length → HasColumn columns i → (present i ↔ HasValue columns i)
  below : ∀ i, i ≠ 0 → i < scan.nodes.length → ¬ HasColumn columns i →
    (present i ↔ ∃ c, scan.parentAt c = some i ∧ present c)

end

/-! ## The tree of a row -/

variable [DecidableEq ι]

/-- The instance of a tree within another, as it stands in the instance of that. -/
inductive StandsIn (schema : Schema ι) (scan : ScanPlan ι) (t : Tree ι) (x : Instance ι) :
    Tree ι → Instance ι → Prop
  | here : StandsIn schema scan t x t x
  | under {w u : Tree ι} {y z : Instance ι} {f : FieldDef ι} : StandsIn schema scan t x w y →
      u ∈ w.children → scan.relationAt u.index = some f → Tree.attach schema scan u = .ok z →
      y.behind schema f.name (scan.collects u.index) = .ok [z] → StandsIn schema scan t x u z

theorem StandsIn.trans {t u v : Tree ι} {x y z : Instance ι} (h : StandsIn schema scan t x u y)
    (h' : StandsIn schema scan u y v z) : StandsIn schema scan t x v z := by
  induction h' with
  | here => exact h
  | under _ hc hf hz hbehind ih => exact .under ih hc hf hz hbehind

theorem StandsIn.attached {t u : Tree ι} {x z : Instance ι} (hx : Tree.attach schema scan t = .ok x)
    (h : StandsIn schema scan t x u z) : Tree.Within u t ∧ Tree.attach schema scan u = .ok z := by
  induction h with
  | here => exact ⟨.here, hx⟩
  | under _ hc _ hz _ ih => exact ⟨ih.1.child hc, hz⟩

/-- In the tree of one row, the instance of each tree below is put behind the relation that leads to it. -/
theorem Tree.attach_behind (hs : scan.SiblingsDistinct) {row : List Value} {t c : Tree ι}
    {x : Instance ι} (ht : t.FromRow schema scan row) (hx : attach schema scan t = .ok x)
    (hc : c ∈ t.children) : ∃ f z, scan.relationAt c.index = some f ∧ attach schema scan c = .ok z ∧
      x.behind schema f.name (scan.collects c.index) = .ok [z] := by
  rw [attach_eq] at hx
  obtain ⟨f, hf⟩ := attachAll_relation hx c hc
  have honly : OnlyAt scan f.name c.index t.children := fun d hd g hg hname =>
    hs d.index c.index t.index g f (ht.parent d hd) (ht.parent c hc) hg hf hname
  have hfilter : t.children.filter (·.index == c.index) = [c] := by
    have hmem : c ∈ t.children.filter (·.index == c.index) :=
      List.mem_filter.2 ⟨hc, beq_self_eq_true _⟩
    have hsame : ∀ d ∈ t.children.filter (·.index == c.index), d = c := by
      intro d hd
      obtain ⟨hd, hindex⟩ := List.mem_filter.1 hd
      exact List.inj_on_of_nodup_map ht.nodup hd hc (beq_iff_eq.1 hindex)
    have hnodup := (ht.nodup.of_map Tree.index).filter (·.index == c.index)
    rw [List.eq_replicate_of_mem hsame] at hmem hnodup ⊢
    have hle := List.nodup_replicate.1 hnodup
    have hpos := (List.mem_replicate.1 hmem).1
    rw [Nat.le_antisymm hle (Nat.pos_of_ne_zero hpos)]
    rfl
  obtain ⟨ys, hys, hbehind⟩ := attachAll_behind ht.bare hf honly (by rw [hfilter]; simp)
    (fun _ => ⟨c, hfilter⟩) hx
  rw [hfilter] at hys
  obtain ⟨z, zs, hz, hnil, rfl⟩ := List.forall₂_cons_left_iff.1 hys
  obtain rfl := List.forall₂_nil_left_iff.1 hnil
  exact ⟨f, z, hf, hz, hbehind⟩

end Orm
