import Orm.Proofs.Resolving
import Orm.Proofs.Spelling.Text

/-
The characters of names. The names of a statement are those of tables and columns, aliases made from
them, and names that a query gives itself; so the names that resolving puts together are made of the
characters of a schema's names and of those of a query (`resolvePath_only`).
-/

namespace Orm

variable {ι : Type} {schema : Schema ι} {ok : Char → Prop}

/-! ## Schemas -/

structure FieldDef.Only (ok : Char → Prop) (f : FieldDef ι) : Prop where
  column : Text.Only ok f.column
  /-- A relation without a column gives its name to the table between, and to aliases. -/
  name : f.hasColumn = false → Text.Only ok f.name

structure Model.Only (ok : Char → Prop) (m : Model ι) : Prop where
  table : Text.Only ok m.table
  fields : ∀ f ∈ m.fields, f.Only ok

instance [DecidablePred ok] (f : FieldDef ι) : Decidable (f.Only ok) :=
  decidable_of_iff (Text.Only ok f.column ∧ (f.hasColumn = false → Text.Only ok f.name))
    ⟨fun h => ⟨h.1, h.2⟩, fun h => ⟨h.column, h.name⟩⟩

instance [DecidablePred ok] (m : Model ι) : Decidable (m.Only ok) :=
  have := List.decidableBAll (fun f => f.Only ok) m.fields
  decidable_of_iff (Text.Only ok m.table ∧ ∀ f ∈ m.fields, f.Only ok)
    ⟨fun h => ⟨h.1, h.2⟩, fun h => ⟨h.table, h.fields⟩⟩

def Schema.Only (ok : Char → Prop) (schema : Schema ι) : Prop := ∀ i, (schema i).Only ok

/-! ## Aliases -/

structure Aliases.Only (ok : Char → Prop) (a : Aliases) : Prop where
  assigned : ∀ e ∈ a.assigned, Text.Only ok e.2

structure JoinStep.Only (ok : Char → Prop) (s : JoinStep) : Prop where
  parentAlias : Text.Only ok s.parentAlias
  table : Text.Only ok s.table
  tableAlias : Text.Only ok s.tableAlias
  parentColumn : Text.Only ok s.parentColumn
  column : Text.Only ok s.column

theorem Naming.reached_only {parentAlias : String} (hp : Text.Only ok parentAlias)
    {steps : List JoinStep} (h : ∀ s ∈ steps, s.Only ok) : Text.Only ok (reached parentAlias steps) := by
  unfold reached
  cases hl : steps.getLast? with
  | none => exact hp
  | some s => exact (h s (List.mem_of_getLast? hl)).tableAlias

/-! ## Tables in scope -/

structure OnCondition.Only (ok : Char → Prop) (c : OnCondition) : Prop where
  left : Column.Only ok c.left
  operator : Text.Only Common c.operator
  right : Column.Only ok c.right

structure Join.Only (ok : Char → Prop) (j : Join) : Prop where
  table : Text.Only ok j.table
  tableAlias : Text.Only ok j.tableAlias
  on : ∀ c ∈ j.on, c.Only ok

structure Scope.Only (ok : Char → Prop) (s : Scope) : Prop where
  aliases : s.aliases.Only ok
  joins : ∀ j ∈ s.joins, j.Only ok

theorem Scope.only_empty : Scope.Only ok {} := ⟨⟨by simp⟩, by simp⟩

theorem Keeps.naming_only {α : Type} {n : Naming α} {Q : α → Prop} (h : Keeps (Aliases.Only ok) n Q) :
    Keeps (Scope.Only ok) (Resolving.naming n) Q :=
  h.naming (fun _ hs => hs.aliases) fun _ _ hs ha => ⟨ha, hs.joins⟩

theorem Scope.Only.addStep {scope : Scope} (h : scope.Only ok) (kind : JoinKind) {s : JoinStep}
    (hs : s.Only ok) : (scope.addStep kind s).Only ok := by
  unfold Scope.addStep
  split
  · exact h
  · refine ⟨h.aliases, fun j hj => ?_⟩
    rcases List.mem_append.1 hj with hj | hj
    · exact h.joins j hj
    · obtain rfl := List.mem_singleton.1 hj
      refine ⟨hs.table, hs.tableAlias, fun c hc => ?_⟩
      obtain rfl := List.mem_singleton.1 hc
      have equals : Text.Only Common "=" := by decide
      exact ⟨Column.only_two hs.parentAlias hs.parentColumn, equals,
        Column.only_two hs.tableAlias hs.column⟩

theorem addSteps_only (kind : JoinKind) {steps : List JoinStep} (h : ∀ s ∈ steps, s.Only ok) :
    Keeps (Scope.Only ok) (addSteps kind steps) fun _ => True := by
  refine Keeps.of_modify (fun scope hs => ?_) trivial
  induction steps generalizing scope with
  | nil => exact hs
  | cons s steps ih =>
    exact ih (fun t ht => h t (List.mem_cons_of_mem s ht)) _ (hs.addStep kind (h s List.mem_cons_self))

theorem last_only {names : List String} {a : String} (h : ∀ n ∈ names, Text.Only ok n)
    (ha : Text.Only ok a) : Text.Only ok (names.getLast?.getD a) := by
  cases hl : names.getLast? with
  | none => exact ha
  | some n => exact h n (List.mem_of_getLast? hl)

/-! ## Naming -/

variable [Spells ok]

theorem Relation.junction_only (hs : Schema.Only ok schema) {r : Relation ι} {source : Model ι}
    (hm : source.Only ok) {field : String} (hf : Text.Only ok field) {j : Junction}
    (h : r.junction schema source field = .ok j) :
    Text.Only ok j.table ∧ Text.Only ok j.sourceColumn ∧ Text.Only ok j.targetColumn := by
  unfold Relation.junction at h
  split at h
  · rename_i through _
    simp only [bind_eq_ok, pure_eq_ok] at h
    obtain ⟨s, hs', t, ht', rfl⟩ := h
    exact ⟨(hs _).table, ((hs _).fields s (Model.field_mem hs')).column,
      ((hs _).fields t (Model.field_mem ht')).column⟩
  · dsimp only at h
    have ht := (hs r.target).table
    split at h
    · simp only [Except.ok.injEq] at h
      subst h
      exact ⟨(hm.table.append (Text.word (by decide))).append hf,
        ((Text.word (by decide)).append hm.table).append (Text.word (by decide)),
        ((Text.word (by decide)).append ht).append (Text.word (by decide))⟩
    · simp only [Except.ok.injEq] at h
      subst h
      exact ⟨(hm.table.append (Text.word (by decide))).append hf,
        hm.table.append (Text.word (by decide)), ht.append (Text.word (by decide))⟩

theorem Aliases.candidate_only {relation target : String} (hr : Text.Only ok relation)
    (ht : Text.Only ok target) (n : Nat) : Text.Only ok (candidate relation target n) :=
  (((hr.append (Text.word (by decide))).append ht).append (Text.word (by decide))).append
    (Text.number n)

theorem Naming.tableAlias_only {relation target : String} (hr : Text.Only ok relation)
    (ht : Text.Only ok target) (parentAlias parentTable : String) :
    Keeps (Aliases.Only ok) (tableAlias parentAlias parentTable relation target) (Text.Only ok) := by
  intro a ha
  rw [outcome_tableAlias]
  unfold Aliases.tableAlias
  split
  · rename_i name hname
    refine ⟨ha, fun b hb => ?_⟩
    simp only [Except.ok.injEq] at hb
    subst hb
    obtain ⟨_, _, hl, -⟩ := List.lookup_eq_some_iff.1 hname
    exact ha.assigned ((parentAlias, relation), name) (by simp [hl])
  · have hn := fun n => Aliases.candidate_only hr ht n
    refine ⟨⟨fun e he => ?_⟩, fun b hb => ?_⟩
    · rcases List.mem_cons.1 he with rfl | he
      · exact hn _
      · exact ha.assigned e he
    · simp only [Except.ok.injEq] at hb
      exact hb ▸ hn _

theorem Naming.relationSteps_only (hs : Schema.Only ok schema) {parentAlias : String}
    (hp : Text.Only ok parentAlias) {m : Model ι} (hm : m.Only ok) {f : FieldDef ι} (hf : f.Only ok)
    {r : Relation ι} (hr : f.relation = some r) :
    Keeps (Aliases.Only ok) (relationSteps schema parentAlias m f r) fun steps => ∀ s ∈ steps, s.Only ok := by
  have ht := (hs r.target).table
  have hc := hf.column
  unfold relationSteps
  dsimp only
  refine Keeps.bind (Keeps.of_result fun pk h => ((hs _).fields pk (Model.pk_mem h)).column)
    fun targetPk htp => ?_
  split
  · refine (tableAlias_only hc ht _ _).bind fun name hn => Keeps.of_pure ?_
    exact List.forall_mem_singleton.2 (JoinStep.Only.mk hp ht hn hc htp)
  · rename_i howns
    have hname : Text.Only ok f.name := hf.name (by simpa [FieldDef.hasColumn, hr] using howns)
    refine Keeps.bind (Keeps.of_result fun pk h => (hm.fields pk (Model.pk_mem h)).column)
      fun parentPk hpp => ?_
    split
    · refine Keeps.bind (Keeps.of_result fun j h => Relation.junction_only hs hm hname h)
        fun junction hj => ?_
      obtain ⟨hjt, hjs, hjc⟩ := hj
      refine (tableAlias_only hname hjt _ _).bind fun middle hmid => ?_
      refine (tableAlias_only hjc ht _ _).bind fun name hn => Keeps.of_pure ?_
      exact List.forall_mem_cons.2 ⟨JoinStep.Only.mk hp hjt hmid hpp hjs,
        List.forall_mem_singleton.2 (JoinStep.Only.mk hmid ht hn hjc htp)⟩
    · split
      · exact Keeps.of_throw
      · refine Keeps.bind (Keeps.of_result fun g h => ((hs _).fields g (Model.field_mem h)).column)
          fun related hrel => ?_
        refine (tableAlias_only hname ht _ _).bind fun name hn => Keeps.of_pure ?_
        exact List.forall_mem_singleton.2 (JoinStep.Only.mk hp ht hn hpp hrel)

theorem Naming.chain_only (hs : Schema.Only ok schema) : ∀ {hops : List (Hop ι)} {m k : ι}
    {current : String}, Text.Only ok current → Leads schema m hops k →
    Keeps (Aliases.Only ok) (chain schema current hops)
      fun out => ∀ x ∈ out, (∀ s ∈ x.1, s.Only ok) ∧ Text.Only ok x.2
  | [], _, _, _, _, _ => Keeps.of_pure (by simp)
  | h :: rest, _, _, current, hc, ⟨hsource, hf, hr, hl⟩ => by
    subst hsource
    unfold chain
    refine (relationSteps_only hs hc (hs _) ((hs _).fields _ hf) hr).bind fun steps hst => ?_
    dsimp only
    have hn := reached_only hc hst
    refine (chain_only hs hn hl).bind fun others ho => Keeps.of_pure ?_
    exact List.forall_mem_cons.2 ⟨⟨hst, hn⟩, ho⟩

/-! ## Paths -/

theorem joinChain_only (hs : Schema.Only ok schema) {hops : List (Hop ι)} {m k : ι} {a : String}
    (ha : Text.Only ok a) (hl : Leads schema m hops k) (kind : JoinKind) :
    Keeps (Scope.Only ok) (joinChain schema a hops kind) fun names => ∀ n ∈ names, Text.Only ok n := by
  unfold joinChain
  refine (Naming.chain_only hs ha hl).naming_only.bind fun out ho => ?_
  refine (addSteps_only kind fun s hm => ?_).bind fun _ _ => Keeps.of_pure fun n hn => ?_
  · obtain ⟨x, hx, hm⟩ := List.mem_flatMap.1 hm
    exact (ho x hx).1 s hm
  · obtain ⟨x, hx, rfl⟩ := List.mem_map.1 hn
    exact (ho x hx).2

theorem joinRelation_only (hs : Schema.Only ok schema) {a : String} (ha : Text.Only ok a) {m : ι}
    {f : FieldDef ι} (hf : f.Only ok) (kind : JoinKind) :
    Keeps (Scope.Only ok) (joinRelation schema a m f kind) (Text.Only ok) := by
  unfold joinRelation
  refine Keeps.bind (Q := fun steps => ∀ s ∈ steps, s.Only ok) (Keeps.naming_only ?_) fun steps hst => ?_
  · unfold Naming.hop
    split
    · exact Keeps.of_throw
    · rename_i r hr
      exact Naming.relationSteps_only hs ha (hs m) hf hr
  · exact (addSteps_only kind hst).bind fun _ _ => Keeps.of_pure (Naming.reached_only ha hst)

theorem resolvePath_only (hs : Schema.Only ok schema) (root : ι) (path : String) (inner : Bool) :
    Keeps (Scope.Only ok) (resolvePath schema root path inner) fun c => c.Only ok ∧ c ≠ [] := by
  unfold resolvePath
  refine (Keeps.ofResult fun w hw => walk_ok hw).bind fun w ⟨_, _, hl, hf⟩ => ?_
  split
  · exact Keeps.of_throw
  · rename_i field hfield
    have hmem := hf field hfield
    dsimp only
    refine (joinChain_only hs (hs root).table hl _).bind fun names hn => ?_
    have ha := last_only hn (hs root).table
    split
    · have hcolumn := ((hs _).fields field hmem).column
      exact Keeps.of_pure ⟨Column.only_two ha hcolumn, List.cons_ne_nil _ _⟩
    · refine (joinRelation_only hs ha ((hs _).fields field hmem) .left).bind fun targetAlias hta => ?_
      refine Keeps.bind (Q := fun _ => True) (Keeps.ofResult fun _ _ => trivial) fun target _ => ?_
      refine (Keeps.ofResult fun pk h => ((hs target).fields pk (Model.pk_mem h)).column).bind
        fun pk hpk => Keeps.of_pure ⟨Column.only_two hta hpk, List.cons_ne_nil _ _⟩

end Orm
