import Orm.Derive.Expansion
import Orm.Proofs.Outcome

/-
What a declaration defines. Every field is defined by its role, but the one for computed values
(`Field.definition?_eq_ok`), and an expansion has the declared fields, each with the role that its
attributes give it (`Declaration.expand_eq_ok`).
-/

namespace Orm.Derive

/-! ## Fields -/

/-- The relation that a field of a role is defined with. -/
inductive Role.Relates : Role → Option (Relation Tokens) → Prop
  | scalar : Relates .scalar none
  | forward (r : Relation Tokens) (boxed : Bool) (owns : r.ownsColumn = true) :
      Relates (.forward r.target boxed) (some r)
  | backward (r : Relation Tokens) (boxed : Bool) (related : String) (owns : r.ownsColumn = false)
      (single : r.toMany = false) : Relates (.backward r.target boxed related) (some r)
  | many (r : Relation Tokens) (many : r.toMany = true) : Relates (.many r.target) (some r)

/-- A step that leaves the relation of a field as it is. -/
def Step.Plain (s : Step) : Prop := ∀ r, s ≠ .relation r

theorem Step.foldl_name (steps : List Step) (f : FieldDef Tokens) :
    (steps.foldl Step.apply f).name = f.name := by
  induction steps generalizing f with
  | nil => rfl
  | cons s steps ih =>
    rw [List.foldl_cons, ih]
    cases s <;> rfl

theorem Step.foldl_relation {steps : List Step} (h : ∀ s ∈ steps, s.Plain) (f : FieldDef Tokens) :
    (steps.foldl Step.apply f).relation = f.relation := by
  induction steps generalizing f with
  | nil => rfl
  | cons s steps ih =>
    rw [List.foldl_cons, ih fun t ht => h t (List.mem_cons_of_mem s ht)]
    cases s with
    | relation r => exact absurd rfl (h _ List.mem_cons_self r)
    | _ => rfl

theorem step_plain {b : Bool} {s : Step} (h : s.Plain) : ∀ t ∈ step b s, t.Plain := by
  intro t ht
  unfold step at ht
  split at ht
  · exact List.mem_singleton.1 ht ▸ h
  · exact absurd ht List.not_mem_nil

theorem FieldOptions.steps_plain (o : FieldOptions) : ∀ s ∈ o.steps, s.Plain := by
  intro s hs
  simp only [steps, List.mem_append, Option.mem_toList, Option.map_eq_some_iff] at hs
  rcases hs with ((hs | hs) | hs) | ⟨n, -, rfl⟩
  · exact step_plain (s := .primaryKey) (fun _ => nofun) s hs
  · exact step_plain (s := .unique) (fun _ => nofun) s hs
  · exact step_plain (s := .auto) (fun _ => nofun) s hs
  · exact fun _ => nofun

theorem Definition.field_name (d : Definition) : d.field.name = d.name :=
  Step.foldl_name d.steps _

/-- The steps after the one that gives a relation leave it. -/
theorem Definition.field_relation {d : Definition} (first : List Step) {rest : List Step}
    {r : Relation Tokens} (hd : d.steps = first ++ .relation r :: rest) (h : ∀ s ∈ rest, s.Plain) :
    d.field.relation = some r := by
  rw [field, hd, List.foldl_append, List.foldl_cons, Step.foldl_relation h]
  rfl

theorem Definition.field_relation_none {d : Definition} (h : ∀ s ∈ d.steps, s.Plain) :
    d.field.relation = none :=
  Step.foldl_relation h _

theorem Field.manyRelation_toMany (f : Field) (target : Tokens) :
    (f.manyRelation target).toMany = true ∧ (f.manyRelation target).target = target := by
  unfold manyRelation
  split <;> exact ⟨rfl, rfl⟩

/-- Only the field of computed values is not defined; every other is defined by its role. -/
theorem Field.definition?_eq_ok {f : Field} {o : Option Definition} (h : f.definition? = .ok o) :
    (f.role = .computed ∧ o = none) ∨
      ∃ d, o = some d ∧ d.field.name = f.name ∧ f.role.Relates d.field.relation := by
  unfold definition? at h
  dsimp only at h
  split at h
  case h_1 hr => exact .inl ⟨hr, (pure_eq_ok.1 h).symm⟩
  case h_2 hr =>
    obtain rfl := pure_eq_ok.1 h
    refine .inr ⟨_, rfl, Definition.field_name _, ?_⟩
    rw [hr, Definition.field_relation_none]
    · exact .scalar
    · simp only [List.mem_append, Option.mem_toList, Option.map_eq_some_iff]
      rintro s ((hs | hs) | ⟨c, -, rfl⟩)
      · exact f.options.steps_plain s hs
      · exact step_plain (s := .nullable) (fun _ => nofun) s hs
      · exact fun _ => nofun
  case h_3 target boxed hr =>
    simp only [bind_eq_ok, pure_eq_ok] at h
    obtain ⟨onDelete, -, onUpdate, -, rfl⟩ := h
    refine .inr ⟨_, rfl, Definition.field_name _, ?_⟩
    rw [hr, Definition.field_relation [.column _] rfl]
    · refine Role.Relates.forward (Relation.mk _ target _ _ _ _) boxed ?_
      unfold Relation.ownsColumn
      cases f.options.oneToOne <;> rfl
    · simp only [List.append_eq, List.nil_append, List.mem_append]
      rintro s (hs | hs)
      · exact f.options.steps_plain s hs
      · exact step_plain (s := .nullable) (fun _ => nofun) s hs
  case h_4 target boxed related hr =>
    obtain rfl := pure_eq_ok.1 h
    refine .inr ⟨_, rfl, Definition.field_name _, ?_⟩
    rw [hr, Definition.field_relation [] rfl f.options.steps_plain]
    exact Role.Relates.backward (Relation.mk _ target _ _ _ _) boxed related rfl rfl
  case h_5 target hr =>
    obtain rfl := pure_eq_ok.1 h
    refine .inr ⟨_, rfl, Definition.field_name _, ?_⟩
    obtain ⟨hm, ht⟩ := f.manyRelation_toMany target
    have hrelates := Role.Relates.many (f.manyRelation target) hm
    rw [ht] at hrelates
    rwa [hr, Definition.field_relation [] rfl f.options.steps_plain]

/-! ## Expansion -/

theorem orFaults_eq_ok {α : Type} {r : α × List Fault} {a : α} (h : orFaults r = .ok a) :
    r.1 = a ∧ r.2 = [] := by
  unfold orFaults at h
  split at h
  case isTrue hnone => exact ⟨Except.ok.inj h, List.isEmpty_iff.1 hnone⟩
  case isFalse => cases h

theorem faulty_eq_ok {α : Type} {r : Except Fault α} {a : α} (h : faulty r = .ok a) : r = .ok a := by
  cases r with
  | error f => cases h
  | ok b => exact congrArg Except.ok (Except.ok.inj h)

theorem roleOf_computed {type : Tokens} {o : FieldOptions} {role : Role}
    (h : roleOf type o = .ok role) : role = .computed ↔ o.computed = true := by
  unfold roleOf at h
  split at h
  case isTrue hc => simp [hc, (pure_eq_ok.1 h).symm]
  case isFalse hc =>
    refine iff_of_false ?_ hc
    rintro rfl
    split at h
    · obtain ⟨target, -, h⟩ := bind_eq_ok.1 h
      split at h <;> cases h
    · split at h
      · split at h <;> obtain ⟨target, -, h⟩ := bind_eq_ok.1 h <;> cases h
      · split at h
        · obtain ⟨target, -, h⟩ := bind_eq_ok.1 h
          cases h
        · cases h

theorem rolesOf_roles (l : List (FieldDecl × FieldOptions)) :
    ∀ f ∈ (rolesOf l).1, roleOf f.type f.options = .ok f.role := by
  induction l with
  | nil => exact fun f hf => absurd hf List.not_mem_nil
  | cons p rest ih =>
    obtain ⟨decl, o⟩ := p
    unfold rolesOf
    dsimp only
    split
    case h_1 role hrole => exact List.forall_mem_cons.2 ⟨hrole, ih⟩
    case h_2 => exact ih

theorem rolesOf_names {l : List (FieldDecl × FieldOptions)} (h : (rolesOf l).2 = []) :
    (rolesOf l).1.map (·.name) = l.map (·.1.name) := by
  induction l with
  | nil => rfl
  | cons p rest ih =>
    obtain ⟨decl, o⟩ := p
    unfold rolesOf at h ⊢
    dsimp only at h ⊢
    split at h
    case h_1 role hrole =>
      rw [List.map_cons, List.map_cons, ih h]
    case h_2 => cases h

theorem readFields_names (decls : List FieldDecl) :
    (readFields decls).1.map (·.1.name) = decls.map (·.name) := by
  induction decls with
  | nil => rfl
  | cons decl rest ih =>
    rw [List.map_cons, ← ih]
    rfl

/-- What an expansion is made of: the declared fields with a role each, and their definitions. -/
theorem Declaration.expand_eq_ok {d : Declaration} {e : Expansion} (h : d.expand = .ok e) :
    (∃ decls, d.shape = .named decls ∧ e.fields.map (·.name) = decls.map (·.name)) ∧
      (∀ f ∈ e.fields, roleOf f.type f.options = .ok f.role) ∧
      definitions e.fields = .ok e.definitions := by
  unfold expand at h
  split at h
  cases hshape : d.shape with
  | named decls =>
    simp only [hshape, Shape.fields, bind_eq_ok, pure_eq_ok] at h
    obtain ⟨decls', hdecls, read, hread, fields, hfields, groups, -, ds, hds, rfl⟩ := h
    obtain ⟨rfl, -⟩ := orFaults_eq_ok hdecls
    obtain ⟨rfl, -⟩ := orFaults_eq_ok hread
    obtain ⟨rfl, hnone⟩ := orFaults_eq_ok hfields
    refine ⟨⟨decls, rfl, ?_⟩, rolesOf_roles _, faulty_eq_ok hds⟩
    exact (rolesOf_names hnone).trans (readFields_names decls)
  | unnamed | unit | enumeration => simp [hshape, Shape.fields, bind, Except.bind] at h

/-- All fields are defined, by their names, but those for computed values. -/
theorem definitions_names {fields : List Field} {ds : List Definition}
    (h : definitions fields = .ok ds) :
    (ds.map Definition.field).map (·.name) = (fields.filter (·.role ≠ .computed)).map (·.name) := by
  induction fields generalizing ds with
  | nil =>
    cases h
    rfl
  | cons f rest ih =>
    simp only [definitions, bind_eq_ok, pure_eq_ok] at h
    obtain ⟨o, ho, ds, hds, rfl⟩ := h
    rw [List.map_append, List.map_append, ih hds]
    rcases Field.definition?_eq_ok ho with ⟨hrole, rfl⟩ | ⟨d, rfl, hname, hrelates⟩
    · simp [hrole]
    · have hrole : f.role ≠ .computed := fun hc => by
        rw [hc] at hrelates
        cases hrelates
      simp [hrole, hname]

end Orm.Derive
