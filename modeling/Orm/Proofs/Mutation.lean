import Orm.Proofs.Fault.Instance
import Orm.Proofs.Tree.Materialize

/-
Writes that fail. Attaching an instance, appending one and storing a computed value look at what they
are given before they touch anything, and so does a value that is written to a column. A key that is
written to a relation goes to the instance behind it, which is put there first if there is none, and
so on as long as the key of that model is a relation too. So the only trace that a write can leave
when it fails is a row of empty instances (`Instance.Stubbed`), and it leaves none if every relation
on the way has its instance. What it leaves can be seen: a field that read NULL reads as the key of an
empty instance afterwards.
-/

namespace Orm.Instance

variable {ι : Type} {schema : Schema ι}

/-! ## Complete instances -/

/-- An instance with a slot for every field, as have all that stand behind its single relations. -/
inductive Complete (schema : Schema ι) : Instance ι → Prop
  | intro {x : Instance ι} : x.slots.map (·.1) = (schema x.model).fields.map (·.name) →
      (∀ name y, x.slot? name = some (.one (some y)) → Complete schema y) → Complete schema x

namespace Complete

variable {x : Instance ι}

theorem names (h : x.Complete schema) : x.slots.map (·.1) = (schema x.model).fields.map (·.name) := by
  cases h with
  | intro names _ => exact names

theorem behind (h : x.Complete schema) {name : String} {y : Instance ι}
    (hy : x.slot? name = some (.one (some y))) : y.Complete schema := by
  cases h with
  | intro _ under => exact under name y hy

theorem new (schema : Schema ι) (m : ι) : (new schema m).Complete schema := by
  refine .intro (Bare.new schema m).names fun name y hy => ?_
  rw [slot?_new] at hy
  obtain ⟨f, -, hf⟩ := Option.map_eq_some_iff.1 hy
  exact absurd hf (Slot.empty_ne_one f y)

theorem withSlot (h : x.Complete schema) {name : String} {s : Slot ι}
    (hs : ∀ y, s = .one (some y) → y.Complete schema) : (x.withSlot name s).Complete schema := by
  refine .intro ((setSlot_names x.slots name s).trans h.names) fun n y hy => ?_
  rw [slot?_withSlot] at hy
  split at hy
  · obtain ⟨-, -, rfl⟩ := Option.map_eq_some_iff.1 hy
    exact hs y rfl
  · exact h.behind hy

/-- The instance to which a relation's key is written. -/
theorem relatedOrNew (h : x.Complete schema) (name : String) (target : ι) :
    (x.relatedOrNew schema name target).Complete schema := by
  unfold Instance.relatedOrNew
  split
  · rename_i y hy
    exact h.behind hy
  · exact new schema target

end Complete

/-- Nothing changes by putting into a slot what it holds. -/
theorem withSlot_self {x : Instance ι} (hx : x.Complete schema) (hn : FieldNamesDistinct schema)
    {name : String} {s : Slot ι} (h : x.slot? name = some s) : x.withSlot name s = x := by
  have hnodup : (x.slots.map (·.1)).Nodup := hx.names ▸ hn x.model
  obtain ⟨before, after, hslots, hbefore⟩ := List.lookup_eq_some_iff.1 h
  have hmem : (name, s) ∈ x.slots := by simp [hslots]
  have hkept : setSlot x.slots name s = x.slots := by
    refine (List.map_congr_left fun p hp => ?_).trans (List.map_id x.slots)
    obtain ⟨n, old⟩ := p
    dsimp only
    split
    · rename_i hname
      rw [hname] at hp ⊢
      exact congrArg (Prod.mk name ·) (Prod.mk.inj (List.inj_on_of_nodup_map hnodup hmem hp rfl)).2
    · rfl
  obtain ⟨m, slots, annotations⟩ := x
  exact congrArg (fun slots => (⟨m, slots, annotations⟩ : Instance ι)) hkept

/-! ## Keys on their way -/

/-- The relation whose key a field holds. -/
def keyRelation? (schema : Schema ι) (x : Instance ι) (name : String) : Option (Relation ι) :=
  (((schema x.model).field? name).bind (·.relation)).filter (·.ownsColumn)

/-- A key that is written to the field comes to a relation without an instance. -/
inductive Lacks (schema : Schema ι) : Instance ι → String → Prop
  | here {x : Instance ι} {name : String} {r : Relation ι} :
    x.keyRelation? schema name = some r → (∀ y, x.slot? name ≠ some (.one (some y))) →
    Lacks schema x name
  | behind {x y : Instance ι} {name : String} {r : Relation ι} {pk : FieldDef ι} :
    x.keyRelation? schema name = some r → x.slot? name = some (.one (some y)) →
    (schema y.model).pk? = some pk → Lacks schema y pk.name → Lacks schema x name

/-- The instance on the left, but for empty instances that a key on its way to the field has left in
relations that had none. -/
inductive Stubbed (schema : Schema ι) : Instance ι → String → Instance ι → Prop
  | same (x : Instance ι) (name : String) : Stubbed schema x name x
  | keyless {x : Instance ι} {name : String} {r : Relation ι} :
    x.keyRelation? schema name = some r →
    (schema (x.relatedOrNew schema name r.target).model).pk? = none →
    Stubbed schema x name (x.withSlot name (.one (some (x.relatedOrNew schema name r.target))))
  | behind {x y : Instance ι} {name : String} {r : Relation ι} {pk : FieldDef ι} :
    x.keyRelation? schema name = some r →
    (schema (x.relatedOrNew schema name r.target).model).pk? = some pk →
    Stubbed schema (x.relatedOrNew schema name r.target) pk.name y →
    Stubbed schema x name (x.withSlot name (.one (some y)))

theorem relatedOrNew_of_slot {x y : Instance ι} {name : String} {target : ι}
    (h : x.slot? name = some (.one (some y))) : x.relatedOrNew schema name target = y := by
  rw [relatedOrNew, h]

/-- Where no relation is empty, nothing is left. -/
theorem Stubbed.eq (hn : FieldNamesDistinct schema) {x x' : Instance ι} {name : String}
    (h : Stubbed schema x name x') (hx : x.Complete schema) (hl : ¬ Lacks schema x name) :
    x' = x := by
  -- a relation that is not empty gives the very instance to which the key goes on
  have filled {x : Instance ι} {name : String} {r : Relation ι}
      (hr : x.keyRelation? schema name = some r) (hl : ¬ Lacks schema x name) :
      ∃ y, x.slot? name = some (.one (some y)) := by
    by_contra hnone
    exact hl (.here hr fun y hy => hnone ⟨y, hy⟩)
  induction h with
  | same x name => rfl
  | @keyless x name r hr _ =>
    obtain ⟨y, hy⟩ := filled hr hl
    rw [relatedOrNew_of_slot hy]
    exact withSlot_self hx hn hy
  | @behind x z name r pk hr hpk _ ih =>
    obtain ⟨y, hy⟩ := filled hr hl
    rw [relatedOrNew_of_slot hy] at hpk ih
    have hz : z = y := ih (hx.behind hy) fun hlacks => hl (.behind hr hy hpk hlacks)
    rw [hz]
    exact withSlot_self hx hn hy

theorem Assigned.stubbed {x x' : Instance ι} {name : String} {v : Value} {result : Result Unit}
    (h : Assigned schema v x name x' result) (hfailed : result ≠ .ok ()) :
    Stubbed schema x name x' := by
  have key {x : Instance ι} {name : String} {f : FieldDef ι} {r : Relation ι}
      (hf : (schema x.model).field? name = some f) (hr : f.relation = some r)
      (hown : r.ownsColumn = true) : x.keyRelation? schema name = some r := by
    rw [keyRelation?, hf, Option.bind_some, hr, Option.filter_eq_some_iff]
    exact ⟨rfl, hown⟩
  induction h with
  | refused x name _ => exact .same x name
  | scalar | cleared => exact absurd rfl hfailed
  | keyless _ hf hr hown hpk => exact .keyless (key hf hr hown) hpk
  | behind hf hr hown _ hpk _ ih => exact .behind (key hf hr hown) hpk (ih hfailed)

theorem setValue_failed {x x' : Instance ι} {name : String} {v : Value} {e : Error}
    (h : x.setValue schema name v = (x', .error e)) : Stubbed schema x name x' :=
  (setValueIn_assigned h).stubbed nofun

/-- A field whose relation owns a column has a slot. -/
theorem exists_slot_of_keyRelation {x : Instance ι} (hx : x.Complete schema) {name : String}
    {r : Relation ι} (hr : x.keyRelation? schema name = some r) : ∃ s, x.slot? name = some s := by
  obtain ⟨hbind, hown⟩ := Option.filter_eq_some_iff.1 hr
  have hrelation : x.relation? schema name false = some r := by
    rw [relation?, hbind, Option.filter_eq_some_iff, Relation.toMany_eq_false hown]
    exact ⟨rfl, rfl⟩
  exact exists_slot hx.names hrelation

/-- Once a key was to go through a relation, there is an instance in it, also if the write failed. -/
theorem setValue_failed_occupied {x x' : Instance ι} (hx : x.Complete schema) {name : String}
    {v : Value} {e : Error} (h : x.setValue schema name v = (x', .error e)) {r : Relation ι}
    (hr : x.keyRelation? schema name = some r) : ∃ y, x'.slot? name = some (.one (some y)) := by
  obtain ⟨s, hs⟩ := exists_slot_of_keyRelation hx hr
  obtain ⟨hbind, hown⟩ := Option.filter_eq_some_iff.1 hr
  obtain ⟨f, hf, hrel⟩ := Option.bind_eq_some_iff.1 hbind
  rw [setValue, maxKeyDepth, setValueIn, hf] at h
  dsimp only at h
  rw [hrel] at h
  dsimp only at h
  rw [hown, Bool.not_true, if_neg Bool.false_ne_true] at h
  split at h
  · cases h
  · obtain ⟨rfl, -⟩ := Prod.mk.inj h
    rw [slot?_withSlot, if_pos rfl, hs, Option.map_some]
    exact ⟨_, rfl⟩

/-! ## The other writes -/

theorem annotate_failed {x x' : Instance ι} {name : String} {v : Value} {e : Error}
    (h : x.annotate schema name v = (x', .error e)) : x' = x := by
  unfold annotate at h
  split at h
  · cases h
  · exact (Prod.mk.inj h).1.symm

section

variable [DecidableEq ι]

theorem setRelated_failed {x x' : Instance ι} {name : String} {r : Option (Instance ι)} {e : Error}
    (h : x.setRelated schema name r = (x', .error e)) : x' = x := by
  unfold setRelated at h
  split at h
  · exact (Prod.mk.inj h).1.symm
  · split at h
    · cases h
    · split at h
      · cases h
      · exact (Prod.mk.inj h).1.symm

theorem pushRelated_failed {x x' r : Instance ι} {name : String} {e : Error}
    (h : x.pushRelated schema name r = (x', .error e)) : x' = x := by
  unfold pushRelated at h
  split at h
  · split at h
    · cases h
    · exact (Prod.mk.inj h).1.symm
  · exact (Prod.mk.inj h).1.symm

end

/-- What a key that failed to be written to a field has done to the instance. -/
structure KeyFailed (schema : Schema ι) (x : Instance ι) (name : String) (x' : Instance ι) : Prop where
  stubbed : Stubbed schema x name x'
  /-- Nothing has changed if every relation on the way had its instance. -/
  unchanged : ¬ Lacks schema x name → x' = x
  /-- A relation that had none has one now. -/
  occupied : ∀ r, x.keyRelation? schema name = some r →
    ∃ y, x'.slot? name = some (.one (some y))

/-- A write that fails leaves the instance as it was; only a key that was to go through a relation
leaves an empty instance in it, if there was none. -/
theorem failed_writes [DecidableEq ι] (hn : FieldNamesDistinct schema) {x : Instance ι}
    (hx : x.Complete schema) :
    (∀ name v x' e, x.setValue schema name v = (x', .error e) → KeyFailed schema x name x') ∧
    (∀ v x' e, x.setKey schema v = (x', .error e) → x' = x ∨
      ∃ pk, (schema x.model).pk? = some pk ∧ KeyFailed schema x pk.name x') ∧
    (∀ name r x' e, x.setRelated schema name r = (x', .error e) → x' = x) ∧
    (∀ name r x' e, x.pushRelated schema name r = (x', .error e) → x' = x) ∧
    (∀ name v x' e, x.annotate schema name v = (x', .error e) → x' = x) := by
  have written {name : String} {v : Value} {x' : Instance ι} {e : Error}
      (h : x.setValue schema name v = (x', .error e)) : KeyFailed schema x name x' :=
    ⟨setValue_failed h, (setValue_failed h).eq hn hx, fun _ => setValue_failed_occupied hx h⟩
  refine ⟨fun _ _ _ _ => written, fun v x' e h => ?_, fun _ _ _ _ => setRelated_failed,
    fun _ _ _ _ => pushRelated_failed, fun _ _ _ _ => annotate_failed⟩
  unfold setKey at h
  split at h
  · exact .inl (Prod.mk.inj h).1.symm
  · rename_i pk hpk
    exact .inr ⟨pk, hpk, written h⟩

/-- A visa whose passport belongs to nobody yet. -/
def unclaimedVisa : Instance Sample :=
  (new Sample.schema .visa).withSlot "passport" (.one (some (new Sample.schema .passport)))

/-- The visa once its passport has a person about whom nothing is known. -/
def stubbedVisa : Instance Sample :=
  (new Sample.schema .visa).withSlot "passport" (.one (some
    ((new Sample.schema .passport).withSlot "person" (.one (some (new Sample.schema .user))))))

theorem unclaimedVisa_complete : unclaimedVisa.Complete Sample.schema := by
  refine (Complete.new Sample.schema .visa).withSlot fun y hy => ?_
  cases hy
  exact .new Sample.schema .passport

/-- The key of a passport is a person. A key that cannot be read leaves an empty person in it; a
person where a passport should be leaves nothing. -/
theorem unclaimedVisa_failed_writes :
    FieldNamesDistinct Sample.schema ∧ unclaimedVisa.Complete Sample.schema ∧
      (∃ e, unclaimedVisa.setValue Sample.schema "passport" (.string "ann") =
          (stubbedVisa, .error e) ∧
        Stubbed Sample.schema unclaimedVisa "passport" stubbedVisa) ∧
      ∃ e, unclaimedVisa.setRelated Sample.schema "passport" (some (new Sample.schema .user)) =
        (unclaimedVisa, .error e) := by
  obtain ⟨hset, -, hrelated, -⟩ := failed_writes sample_fieldNamesDistinct unclaimedVisa_complete
  refine ⟨sample_fieldNamesDistinct, unclaimedVisa_complete,
    ⟨_, rfl, (hset "passport" (.string "ann") _ _ rfl).stubbed⟩, ?_⟩
  exact ⟨_, Prod.ext (hrelated "passport" (some (new Sample.schema .user)) _ _ rfl) rfl⟩

/-- A todo that belongs to nobody. -/
def unownedTodo : Instance Sample := new Sample.schema .todo

/-- A key that cannot be read leaves the todo with a user, whose key is zero. -/
theorem unreadKey_leaves_user : ∃ x' what,
    unownedTodo.setValue Sample.schema "user" (.string "ann") =
      (x', .error (.typeMismatch what)) ∧
    unownedTodo.related Sample.schema "user" = .ok none ∧
    unownedTodo.value Sample.schema "user" = .ok .null ∧
    x'.related Sample.schema "user" = .ok (some (new Sample.schema .user)) ∧
    x'.value Sample.schema "user" = .ok (.int 0) :=
  ⟨_, _, rfl, rfl, rfl, rfl, rfl⟩

end Orm.Instance
