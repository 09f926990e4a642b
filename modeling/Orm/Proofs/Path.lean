import Mathlib.Data.List.Nodup
import Orm.Proofs.Outcome
import Orm.Schema.Path

/-
Fields of models by their names, and where paths lead: each relation crossed is a field of the model
reached before it.
-/

namespace Orm

variable {ι : Type} {schema : Schema ι}

/-- A field found by a name is the model's and has it. -/
theorem Model.field?_eq_some {m : Model ι} {name : String} {f : FieldDef ι}
    (h : m.field? name = some f) : f ∈ m.fields ∧ f.name = name := by
  have hname := List.find?_some h
  exact ⟨List.mem_of_find?_eq_some h, beq_iff_eq.1 hname⟩

theorem Model.field_eq_ok {m : Model ι} {name : String} {f : FieldDef ι} :
    m.field name = .ok f ↔ m.field? name = some f := by
  unfold Model.field
  split
  · rename_i g hg
    simp [hg]
  · rename_i hg
    simp [hg]

theorem Model.field_mem {m : Model ι} {name : String} {f : FieldDef ι} (h : m.field name = .ok f) :
    f ∈ m.fields :=
  (Model.field?_eq_some (Model.field_eq_ok.1 h)).1

theorem Model.pk_eq_ok {m : Model ι} {f : FieldDef ι} : m.pk = .ok f ↔ m.pk? = some f := by
  unfold Model.pk
  split
  · rename_i g hg
    simp [hg]
  · rename_i hg
    simp [hg]

theorem Model.pk_mem {m : Model ι} {f : FieldDef ι} (h : m.pk = .ok f) : f ∈ m.fields :=
  List.mem_of_find?_eq_some (Model.pk_eq_ok.1 h)

theorem Model.scalarFields_mem {m : Model ι} {f : FieldDef ι} (h : f ∈ m.scalarFields) :
    f ∈ m.fields ∧ f.hasColumn = true := by
  obtain ⟨hf, hs⟩ := List.mem_filter.1 h
  refine ⟨hf, ?_⟩
  unfold FieldDef.isScalar at hs
  rw [FieldDef.hasColumn, Option.isNone_iff_eq_none.1 hs]

theorem Model.pk_primaryKey {m : Model ι} {f : FieldDef ι} (h : m.pk = .ok f) :
    f.primaryKey = true := by
  simpa using List.find?_some (Model.pk_eq_ok.1 h)

/-- Only a single relation has its key in a column. -/
theorem Relation.toMany_eq_false {r : Relation ι} (h : r.ownsColumn = true) : r.toMany = false := by
  unfold ownsColumn at h
  unfold toMany
  cases hk : r.kind <;> simp_all

/-- The fields of each model have names of their own. -/
def FieldNamesDistinct (schema : Schema ι) : Prop :=
  ∀ i, ((schema i).fields.map (·.name)).Nodup

theorem FieldNamesDistinct.eq (h : FieldNamesDistinct schema) {i : ι} {f g : FieldDef ι}
    (hf : f ∈ (schema i).fields) (hg : g ∈ (schema i).fields) (hn : f.name = g.name) : f = g :=
  List.inj_on_of_nodup_map (h i) hf hg hn

/-- A field of a model is found by its name. -/
theorem FieldNamesDistinct.field?_eq (h : FieldNamesDistinct schema) {i : ι} {f : FieldDef ι}
    (hf : f ∈ (schema i).fields) : (schema i).field? f.name = some f := by
  cases hg : (schema i).field? f.name with
  | none => exact absurd (beq_self_eq_true f.name) (List.find?_eq_none.1 hg f hf)
  | some g =>
    obtain ⟨hmem, hname⟩ := Model.field?_eq_some hg
    rw [h.eq hmem hf hname]

/-- A text has a piece, if only the empty one. -/
theorem Text.pieces_ne_nil (sep : Char) (cs : List Char) : pieces sep cs ≠ [] := by
  cases cs with
  | nil => exact List.cons_ne_nil _ _
  | cons c cs =>
    unfold pieces
    split
    · exact List.cons_ne_nil _ _
    · split <;> exact List.cons_ne_nil _ _

/-- The hops lead from one model to another. -/
def Leads (schema : Schema ι) : ι → List (Hop ι) → ι → Prop
  | m, [], reached => m = reached
  | m, h :: rest, reached =>
    h.source = m ∧ h.field ∈ (schema m).fields ∧ h.field.relation = some h.relation ∧
      Leads schema h.relation.target rest reached

theorem Leads.append {m n k : ι} {a b : List (Hop ι)} (ha : Leads schema m a n)
    (hb : Leads schema n b k) : Leads schema m (a ++ b) k := by
  induction a generalizing m with
  | nil => exact ha ▸ hb
  | cons h a ih => exact ⟨ha.1, ha.2.1, ha.2.2.1, ih ha.2.2.2⟩

theorem Leads.of_append {m k : ι} {a b : List (Hop ι)} (h : Leads schema m (a ++ b) k) :
    ∃ n, Leads schema m a n ∧ Leads schema n b k := by
  induction a generalizing m with
  | nil => exact ⟨m, rfl, h⟩
  | cons x a ih =>
    obtain ⟨hs, hf, hr, h⟩ := h
    obtain ⟨n, ha, hb⟩ := ih h
    exact ⟨n, ⟨hs, hf, hr, ha⟩, hb⟩

theorem Leads.mem {m k : ι} {chain : List (Hop ι)} (h : Leads schema m chain k) :
    ∀ x ∈ chain, x.field ∈ (schema x.source).fields ∧ x.field.relation = some x.relation := by
  induction chain generalizing m with
  | nil => simp
  | cons y chain ih =>
    obtain ⟨rfl, hf, hr, h⟩ := h
    intro x hx
    rcases List.mem_cons.1 hx with rfl | hx
    · exact ⟨hf, hr⟩
    · exact ih h x hx

theorem walkSegments_leads : ∀ {segments : List String} {m reached : ι} {chain : List (Hop ι)}
    {last : Option (FieldDef ι)}, walkSegments schema m segments = .ok (chain, reached, last) →
    Leads schema m chain reached ∧ ∀ f, last = some f → f ∈ (schema reached).fields
  | [], _, _, _, _, h => by cases h
  | [segment], m, reached, chain, last, h => by
    unfold walkSegments at h
    split at h
    · simp only [Except.ok.injEq, Prod.mk.injEq] at h
      obtain ⟨rfl, rfl, rfl⟩ := h
      exact ⟨rfl, by simp⟩
    · simp only [bind_eq_ok, pure_eq_ok] at h
      obtain ⟨f, hf, h⟩ := h
      simp only [Prod.mk.injEq] at h
      obtain ⟨rfl, rfl, rfl⟩ := h
      refine ⟨rfl, fun g hg => ?_⟩
      cases hg
      exact Model.field_mem hf
  | segment :: next :: rest, m, reached, chain, last, h => by
    simp only [walkSegments, bind_eq_ok] at h
    obtain ⟨f, hf, h⟩ := h
    split at h
    · cases h
    · rename_i r hr
      simp only [bind_eq_ok, pure_eq_ok] at h
      obtain ⟨⟨chain', reached', last'⟩, hw, h⟩ := h
      simp only [Prod.mk.injEq] at h
      obtain ⟨rfl, rfl, rfl⟩ := h
      obtain ⟨hl, hm⟩ := walkSegments_leads hw
      exact ⟨⟨rfl, Model.field_mem hf, hr, hl⟩, hm⟩

theorem walk_ok {root : ι} {path : String} {w : Walk ι} (h : walk schema root path = .ok w) :
    w.path = path ∧ w.root = root ∧ Leads schema root w.chain w.model ∧
      ∀ f, w.field = some f → f ∈ (schema w.model).fields := by
  simp only [walk, bind_eq_ok, pure_eq_ok] at h
  obtain ⟨⟨chain, reached, last⟩, hw, rfl⟩ := h
  exact ⟨rfl, rfl, walkSegments_leads hw⟩

end Orm
