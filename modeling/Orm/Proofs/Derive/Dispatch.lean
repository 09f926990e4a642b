import Mathlib.Data.List.Forall2
import Orm.Instance
import Orm.Proofs.Derive.Definition
import Orm.Proofs.Resolving

/-
A derived model's definition and the arms of its methods agree. Both are made from the roles of the
declared fields, by rules of their own: a method has an arm for each field that the definition gives it,
in the order of the definition, and refuses every other name (`Declaration.expand_agrees`).
-/

namespace Orm.Derive

/-! ## What is compared -/

/-- The model that an expansion defines. -/
def Expansion.model (e : Expansion) : Model Tokens where
  typeName := e.name
  appLabel := e.appLabel
  modelName := e.modelName
  table := e.table
  fields := e.definitions.map Definition.field
  uniqueTogether := e.uniqueTogether
  ordering := e.ordering
  annotated := e.computed?.isSome

/-- What a method does for a name: the action of the first arm of that name, if there is one. -/
def Expansion.call (e : Expansion) (m : Method) (name : String) : Result Action :=
  match (e.arms m).lookup name with
  | some action => .ok action
  | none => .error (.unknownField e.table name)

/-- A method goes on from a name without a fault. -/
def Expansion.Recognizes (e : Expansion) (m : Method) (name : String) : Prop :=
  ∃ action, e.call m name = .ok action

/-- An instance does not know a name: the method gives a fault and leaves the instance as it is. -/
def Refuses (schema : Schema Tokens) (x : Instance Tokens) (m : Method) (name : String) : Prop :=
  let fault := Error.unknownField (schema x.model).table name
  match m with
  | .getValue => x.value schema name = .error fault
  | .setValue => ∀ v, x.setValue schema name v = (x, .error fault)
  | .related => x.related schema name = .error fault
  | .relatedMut => ∀ update, x.updateRelated schema name update = (x, .error fault)
  | .setRelated => ∀ r, x.setRelated schema name r = (x, .error fault)
  | .relatedMany => x.relatedMany schema name = .error fault
  | .relatedManyMut => ∀ update, x.updateMany schema name update = (x, .error fault)
  | .pushRelated => ∀ r, x.pushRelated schema name r = (x, .error fault)

/-- What the definition of a model that is declared and its methods have in common. -/
structure Expansion.Agrees (d : Declaration) (e : Expansion) : Prop where
  declared : ∃ decls, d.shape = .named decls ∧ e.fields.map (·.name) = decls.map (·.name)
  columns : ∀ m ∈ [Method.getValue, .setValue], ∀ n,
    e.Recognizes m n ↔ ∃ f ∈ e.model.fields, f.name = n ∧ f.hasColumn = true
  single : ∀ m ∈ [Method.related, .relatedMut, .setRelated], ∀ n,
    e.Recognizes m n ↔ ∃ f ∈ e.model.fields, f.name = n ∧
      ∃ r, f.relation = some r ∧ (r.kind = .manyToOne ∨ r.kind = .oneToOne)
  many : ∀ m ∈ [Method.relatedMany, .relatedManyMut, .pushRelated], ∀ n,
    e.Recognizes m n ↔ ∃ f ∈ e.model.fields, f.name = n ∧
      ∃ r, f.relation = some r ∧ (r.kind = .oneToMany ∨ r.kind = .manyToMany)
  /-- A single relation takes instances of its target only. -/
  assigned : ∀ n a, e.call .setRelated n = .ok a →
    ∃ f ∈ e.model.fields, f.name = n ∧ ∃ r boxed, f.relation = some r ∧ r.toMany = false ∧
      a = .assign r.target boxed
  /-- A collection takes instances of its target only. -/
  appended : ∀ n a, e.call .pushRelated n = .ok a →
    ∃ f ∈ e.model.fields, f.name = n ∧ ∃ r, f.relation = some r ∧ r.toMany = true ∧
      a = .append r.target
  refused : ∀ m n, ¬ e.Recognizes m n → e.call m n = .error (.unknownField e.table n) ∧
    ∀ (schema : Schema Tokens) x, schema x.model = e.model → Refuses schema x m n
  /-- Every field is defined but the one for computed values. -/
  defined : e.model.fields.map (·.name) = (e.fields.filter (!·.options.computed)).map (·.name)
  computed : ∀ n, e.computed? = some n → (e.fields.map (·.name)).Nodup →
    ∀ f ∈ e.model.fields, f.name ≠ n

/-- The fields that a method is for, by what a definition says of them. -/
def Method.serves : Method → FieldDef Tokens → Bool
  | .getValue, f | .setValue, f => f.hasColumn
  | .related, f | .relatedMut, f | .setRelated, f => f.relation.any (!·.toMany)
  | .relatedMany, f | .relatedManyMut, f | .pushRelated, f => f.relation.any (·.toMany)

/-- An arm that stands for a field, and takes instances of the target of its relation only. -/
@[mk_iff]
structure ArmFor (m : Method) (arm : Token × Action) (f : FieldDef Tokens) : Prop where
  name : arm.1 = f.name
  assigns : m = .setRelated → ∃ r boxed, f.relation = some r ∧ arm.2 = .assign r.target boxed
  appends : m = .pushRelated → ∃ r, f.relation = some r ∧ arm.2 = .append r.target

/-! ## Arms -/

/-- A method has an arm for a field if the definition of the field is one that it is for. -/
theorem Role.Relates.arm {f : Field} {g : FieldDef Tokens} (h : f.role.Relates g.relation)
    (hn : g.name = f.name) (m : Method) :
    List.Forall₂ (ArmFor m) ((f.action? m).map (f.name, ·)).toList ([g].filter m.serves) := by
  obtain ⟨role, hrole⟩ : ∃ role, f.role = role := ⟨_, rfl⟩
  obtain ⟨relation, hrelation⟩ : ∃ relation, g.relation = relation := ⟨_, rfl⟩
  rw [hrole, hrelation] at h
  -- one case for each method and role; the relation of the role settles which fields are served
  cases h with
  | scalar =>
    cases m <;> simp [Field.action?, Field.action?.one, Field.action?.many, Method.serves,
      FieldDef.hasColumn, armFor_iff, hrole, hrelation, hn]
  | forward r boxed owns =>
    have single := Relation.toMany_eq_false owns
    cases m <;> simp [Field.action?, Field.action?.one, Field.action?.many, Method.serves,
      FieldDef.hasColumn, armFor_iff, hrole, hrelation, hn, owns, single]
  | backward r boxed related owns single =>
    cases m <;> simp [Field.action?, Field.action?.one, Field.action?.many, Method.serves,
      FieldDef.hasColumn, armFor_iff, hrole, hrelation, hn, owns, single]
  | many r many =>
    have owns : r.ownsColumn ≠ true := fun ho => by simp [Relation.toMany_eq_false ho] at many
    cases m <;> simp [Field.action?, Field.action?.one, Field.action?.many, Method.serves,
      FieldDef.hasColumn, armFor_iff, hrole, hrelation, hn, owns, many]

/-- The arms of a method stand for the fields that it is for, in the order of the definition. -/
theorem arms_served {fields : List Field} {ds : List Definition} (h : definitions fields = .ok ds)
    (m : Method) : List.Forall₂ (ArmFor m) (fields.filterMap fun f => (f.action? m).map (f.name, ·))
      ((ds.map Definition.field).filter m.serves) := by
  induction fields generalizing ds with
  | nil =>
    cases h
    exact .nil
  | cons f rest ih =>
    simp only [definitions, bind_eq_ok, pure_eq_ok] at h
    obtain ⟨o, ho, ds, hds, rfl⟩ := h
    rw [List.filterMap_eq_flatMap_toList, List.flatMap_cons, ← List.filterMap_eq_flatMap_toList,
      List.map_append, List.filter_append]
    refine List.rel_append ?_ (ih hds)
    rcases Field.definition?_eq_ok ho with ⟨hrole, rfl⟩ | ⟨d, rfl, hname, hrelates⟩
    · cases m <;> simp [Field.action?, Field.action?.one, Field.action?.many, hrole]
    · exact hrelates.arm hname m

/-- The first arm of a name stands for the first field of that name. -/
theorem lookup_served {m : Method} {arms : List (Token × Action)} {fs : List (FieldDef Tokens)}
    (h : List.Forall₂ (ArmFor m) arms fs) (n : String) :
    (arms.lookup n = none ∧ ∀ f ∈ fs, f.name ≠ n) ∨
      ∃ a f, arms.lookup n = some a ∧ f ∈ fs ∧ f.name = n ∧ ArmFor m (n, a) f := by
  induction h with
  | nil => exact .inl ⟨rfl, fun f hf => absurd hf List.not_mem_nil⟩
  | @cons arm f arms fs hf _ ih =>
    by_cases hn : f.name = n
    · subst hn
      refine .inr ⟨arm.2, f, ?_, List.mem_cons_self, rfl, hf.name ▸ hf⟩
      rw [List.lookup_cons, hf.name, beq_self_eq_true]
    · have hlookup : (arm :: arms).lookup n = arms.lookup n := by
        rw [List.lookup_cons, hf.name, beq_eq_false_iff_ne.2 (Ne.symm hn)]
      rw [hlookup]
      rcases ih with ⟨hnone, hall⟩ | ⟨a, g, ha, hg, hname, harm⟩
      · exact .inl ⟨hnone, List.forall_mem_cons.2 ⟨hn, hall⟩⟩
      · exact .inr ⟨a, g, ha, List.mem_cons_of_mem f hg, hname, harm⟩

/-- A method recognizes the names of the fields that it is for. -/
theorem Expansion.recognizes_iff {e : Expansion} (h : Derive.definitions e.fields = .ok e.definitions)
    (m : Method) (n : String) :
    e.Recognizes m n ↔ ∃ f ∈ e.model.fields, f.name = n ∧ m.serves f = true := by
  unfold Recognizes call arms
  rcases lookup_served (arms_served h m) n with ⟨hnone, hall⟩ | ⟨a, f, ha, hf, hname, -⟩
  · rw [hnone]
    refine iff_of_false nofun ?_
    rintro ⟨f, hf, hname, hserves⟩
    exact hall f (List.mem_filter.2 ⟨hf, hserves⟩) hname
  · rw [ha]
    obtain ⟨hf, hserves⟩ := List.mem_filter.1 hf
    exact iff_of_true ⟨a, rfl⟩ ⟨f, hf, hname, hserves⟩

theorem Expansion.arm_of_call {e : Expansion} (h : Derive.definitions e.fields = .ok e.definitions)
    {m : Method} {n : String} {a : Action} (ha : e.call m n = .ok a) :
    ∃ f ∈ e.model.fields, f.name = n ∧ m.serves f = true ∧ ArmFor m (n, a) f := by
  unfold call arms at ha
  rcases lookup_served (arms_served h m) n with ⟨hnone, -⟩ | ⟨b, f, hb, hf, hname, harm⟩
  · rw [hnone] at ha
    cases ha
  · rw [hb] at ha
    cases ha
    obtain ⟨hf, hserves⟩ := List.mem_filter.1 hf
    exact ⟨f, hf, hname, hserves, harm⟩

theorem Expansion.call_of_not_recognizes {e : Expansion} {m : Method} {n : String}
    (h : ¬ e.Recognizes m n) : e.call m n = .error (.unknownField e.table n) := by
  unfold Recognizes call at h
  unfold call
  split at h
  case h_1 action _ => exact absurd ⟨action, rfl⟩ h
  case h_2 => rfl

/-! ## Instances -/

/-- A relation of that width is one that the model gives the field of that name. -/
theorem relation?_eq_none {schema : Schema Tokens} {x : Instance Tokens} {n : String} {toMany : Bool}
    (h : ∀ f ∈ (schema x.model).fields, f.name = n → (f.relation.any (·.toMany == toMany)) = false) :
    x.relation? schema n toMany = none := by
  unfold Instance.relation?
  cases hf : (schema x.model).field? n with
  | none => rfl
  | some f =>
    obtain ⟨hmem, hname⟩ := Model.field?_eq_some hf
    have hany := h f hmem hname
    cases hr : f.relation with
    | none => simp [hr]
    | some r =>
      rw [hr, Option.any_some] at hany
      simp [hr, beq_eq_false_iff_ne.1 hany]

/-- An instance refuses a name that no field has that the method is for. -/
theorem refuses_of_not_served {schema : Schema Tokens} {x : Instance Tokens} {m : Method} {n : String}
    (h : ∀ f ∈ (schema x.model).fields, f.name = n → m.serves f = false) : Refuses schema x m n := by
  have hfield : ∀ f, (schema x.model).field? n = some f → m.serves f = false := by
    intro f hf
    obtain ⟨hmem, hname⟩ := Model.field?_eq_some hf
    exact h f hmem hname
  have hsingle (hs : ∀ f, m.serves f = f.relation.any (!·.toMany)) :
      x.relation? schema n false = none :=
    relation?_eq_none fun f hf hname => by simpa [hs] using h f hf hname
  have hmany (hs : ∀ f, m.serves f = f.relation.any (·.toMany)) :
      x.relation? schema n true = none :=
    relation?_eq_none fun f hf hname => by simpa [hs] using h f hf hname
  cases m with
  | getValue =>
    obtain ⟨model, slots, annotations⟩ := x
    dsimp only [Refuses]
    rw [Instance.value]
    split
    case h_1 => rfl
    case h_2 f hf => rw [if_neg (by simpa [Method.serves] using hfield f hf)]
  | setValue =>
    intro v
    unfold Instance.setValue Instance.maxKeyDepth Instance.setValueIn
    split
    case h_1 => rfl
    case h_2 f hf =>
      obtain ⟨r, hr, howns⟩ := FieldDef.relation_of_not_hasColumn (hfield f hf)
      simp [hr, howns, Instance.unknown]
  | related => simp [Refuses, Instance.related, hsingle fun _ => rfl, Instance.unknown]
  | relatedMut =>
    simp [Refuses, Instance.updateRelated, Instance.related, hsingle fun _ => rfl, Instance.unknown]
  | setRelated => simp [Refuses, Instance.setRelated, hsingle fun _ => rfl, Instance.unknown]
  | relatedMany => simp [Refuses, Instance.relatedMany, hmany fun _ => rfl, Instance.unknown]
  | relatedManyMut =>
    simp [Refuses, Instance.updateMany, Instance.relatedMany, hmany fun _ => rfl, Instance.unknown]
  | pushRelated => simp [Refuses, Instance.pushRelated, hmany fun _ => rfl, Instance.unknown]

/-! ## Agreement -/

/-- A method that is for single relations recognizes the names of those. -/
theorem recognizes_single {e : Expansion} (h : Derive.definitions e.fields = .ok e.definitions)
    {m : Method} (hm : m ∈ [Method.related, .relatedMut, .setRelated]) (n : String) :
    e.Recognizes m n ↔ ∃ f ∈ e.model.fields, f.name = n ∧
      ∃ r, f.relation = some r ∧ (r.kind = .manyToOne ∨ r.kind = .oneToOne) := by
  have hserves : ∀ f : FieldDef Tokens, m.serves f = true ↔
      ∃ r, f.relation = some r ∧ (r.kind = .manyToOne ∨ r.kind = .oneToOne) := by
    intro f
    simp only [List.mem_cons, List.not_mem_nil, or_false] at hm
    rcases hm with rfl | rfl | rfl <;> cases hr : f.relation with
    | none => simp [Method.serves, hr]
    | some r => cases hk : r.kind <;> simp [Method.serves, hr, Relation.toMany, hk]
  simp only [e.recognizes_iff h, hserves]

/-- A method that is for collections recognizes the names of those. -/
theorem recognizes_many {e : Expansion} (h : Derive.definitions e.fields = .ok e.definitions)
    {m : Method} (hm : m ∈ [Method.relatedMany, .relatedManyMut, .pushRelated]) (n : String) :
    e.Recognizes m n ↔ ∃ f ∈ e.model.fields, f.name = n ∧
      ∃ r, f.relation = some r ∧ (r.kind = .oneToMany ∨ r.kind = .manyToMany) := by
  have hserves : ∀ f : FieldDef Tokens, m.serves f = true ↔
      ∃ r, f.relation = some r ∧ (r.kind = .oneToMany ∨ r.kind = .manyToMany) := by
    intro f
    simp only [List.mem_cons, List.not_mem_nil, or_false] at hm
    rcases hm with rfl | rfl | rfl <;> cases hr : f.relation with
    | none => simp [Method.serves, hr]
    | some r => cases hk : r.kind <;> simp [Method.serves, hr, Relation.toMany, hk]
  simp only [e.recognizes_iff h, hserves]

/--
The definition of a model and its methods agree, whatever attributes its fields have: a name is
recognized by the methods for columns, for single relations and for collections as the definition says
what it is, and refused by every other; the field for computed values is not defined.
-/
theorem Declaration.expand_agrees {d : Declaration} {e : Expansion} (h : d.expand = .ok e) :
    e.Agrees d where
  declared := (d.expand_eq_ok h).1
  columns m hm n := by
    rw [e.recognizes_iff (d.expand_eq_ok h).2.2]
    simp only [List.mem_cons, List.not_mem_nil, or_false] at hm
    rcases hm with rfl | rfl <;> rfl
  single m hm n := recognizes_single (d.expand_eq_ok h).2.2 hm n
  many m hm n := recognizes_many (d.expand_eq_ok h).2.2 hm n
  assigned n a ha := by
    obtain ⟨f, hf, hname, hserves, harm⟩ := e.arm_of_call (d.expand_eq_ok h).2.2 ha
    obtain ⟨r, boxed, hr, rfl⟩ := harm.assigns rfl
    rw [Method.serves, hr, Option.any_some, Bool.not_eq_true'] at hserves
    exact ⟨f, hf, hname, r, boxed, hr, hserves, rfl⟩
  appended n a ha := by
    obtain ⟨f, hf, hname, hserves, harm⟩ := e.arm_of_call (d.expand_eq_ok h).2.2 ha
    obtain ⟨r, hr, rfl⟩ := harm.appends rfl
    rw [Method.serves, hr, Option.any_some] at hserves
    exact ⟨f, hf, hname, r, hr, hserves, rfl⟩
  refused m n hn := by
    refine ⟨e.call_of_not_recognizes hn, fun schema x hx => refuses_of_not_served ?_⟩
    intro f hf hname
    rw [hx] at hf
    rw [e.recognizes_iff (d.expand_eq_ok h).2.2] at hn
    exact Bool.eq_false_iff.2 fun hserves => hn ⟨f, hf, hname, hserves⟩
  defined := by
    obtain ⟨-, hroles, hds⟩ := d.expand_eq_ok h
    refine (definitions_names hds).trans (congrArg _ (List.filter_congr fun f hf => ?_))
    have hrole := roleOf_computed (hroles f hf)
    cases hc : f.options.computed <;> simp [hrole, hc]
  computed n hn hnodup f hf hname := by
    obtain ⟨g, hg, rfl⟩ := Option.map_eq_some_iff.1 hn
    obtain ⟨hg, hcomputed⟩ := List.mem_filter.1 (List.mem_of_getLast? hg)
    have hnames := definitions_names (d.expand_eq_ok h).2.2
    have hmem : f.name ∈ (e.fields.filter (·.role ≠ .computed)).map (·.name) :=
      hnames ▸ List.mem_map_of_mem hf
    obtain ⟨f', hf', hname'⟩ := List.mem_map.1 hmem
    obtain ⟨hf', hdefined⟩ := List.mem_filter.1 hf'
    obtain rfl := List.inj_on_of_nodup_map hnodup hf' hg (hname'.trans hname)
    exact of_decide_eq_true hdefined (beq_iff_eq.1 hcomputed)

/-- A to-do with a field of every role. -/
def todoDeclaration : Declaration where
  name := "Todo"
  attributes := []
  shape := .named
    [⟨"id", ["i64"], [⟨"primary_key", .nothing⟩, ⟨"auto", .nothing⟩]⟩,
     ⟨"user", ["Option", "<", "User", ">"], [⟨"foreign_key", .nothing⟩]⟩,
     ⟨"note", ["Option", "<", "Note", ">"],
      [⟨"one_to_one", .nothing⟩, ⟨"reverse", .item (.text "todo")⟩]⟩,
     ⟨"tags", ["Vec", "<", "Tag", ">"], [⟨"many_to_many", .nothing⟩]⟩,
     ⟨"totals", ["HashMap", "<", "String", ",", "Value", ">"], [⟨"annotations", .nothing⟩]⟩]

theorem todoDeclaration_agrees : ∃ e, todoDeclaration.expand = .ok e ∧ e.Agrees todoDeclaration ∧
    e.model.fields.map (·.name) = ["id", "user", "note", "tags"] := by
  obtain ⟨e, he⟩ := exists_eq_ok (x := todoDeclaration.expand) (by decide +kernel)
  have hagrees := Declaration.expand_agrees he
  refine ⟨e, he, hagrees, ?_⟩
  have hnames : (todoDeclaration.expand.map fun e => e.model.fields.map (·.name)) =
      .ok ["id", "user", "note", "tags"] := by decide +kernel
  rw [he] at hnames
  exact Except.ok.inj hnames

end Orm.Derive
