import Orm.Proofs.Placeholder.Writing
import Orm.Proofs.Spelling.Queries
import Orm.Proofs.Statement
import Orm.Sample

/-
Whole statements put together from their parts: every compiled statement is a fragment of the
characters of the schema's names and the query's. Its parts are the joins and the clauses of a SELECT,
what a count counts, and the bodies of an INSERT and an UPDATE.

So the placeholders of every compiled statement stand in the order of its values: read from left to
right, a text has as many of them as there are values, and where they have numbers these count up
from one (`compile_inOrder`).
-/

namespace Orm

section

variable {ι : Type} {schema : Schema ι} {d : Dialect} {A : Alphabet}

/-! ## Clauses -/

variable [Spells A.text]

theorem ScanPlan.Only.fieldSql {s : ScanPlan ι} (h : s.Only A.name) {e : ScanEntry ι}
    (he : e ∈ s.entries) : (s.fieldSql e).Fragment A d := by
  have entry := h.entries e he
  unfold ScanPlan.fieldSql
  split
  case h_1 node field ht =>
    have tableAlias : Text.Only A.name ((s.nodes[node]?.map (·.tableAlias)).getD "") := by
      cases hn : s.nodes[node]? with
      | none => exact fun c hc => by simp at hc
      | some n => exact h.nodes n (List.mem_of_getElem? hn)
    have column := Column.only_two tableAlias (entry.field node field ht)
    have named : Sql.Fragment A d [.text " AS ", .ident [e.columnAlias]] :=
      (Sql.Fragment.nil.ident (Column.only_one entry.columnAlias)).word (by decide)
    exact named.ident column
  case h_2 name ht => exact Sql.Fragment.nil.ident (Column.only_one (entry.computed name ht))

theorem resolveOrderingItem_fragment [Spells A.name] (hs : Schema.Only A.name schema) (root : ι)
    {computed : List String} (hc : ∀ name ∈ computed, Text.Only A.name name) (item : String) :
    Keeps (Scope.Only A.name) (resolveOrderingItem schema root computed item) (Sql.Fragment A d) := by
  have direction (descending : Bool) :
      Text.Only Common (if descending then " DESC" else " ASC") := by
    cases descending <;> decide
  unfold resolveOrderingItem
  dsimp only
  split
  · rename_i h
    refine Keeps.of_pure ((Sql.Fragment.nil.word (direction _)).ident (Column.only_one ?_))
    exact hc _ (by simpa using h)
  · refine (resolvePath_only hs root _ false).bind fun c hcol => Keeps.of_pure ?_
    exact (Sql.Fragment.nil.word (direction _)).ident hcol.1

theorem OnCondition.Only.sql {c : OnCondition} (h : c.Only A.name) :
    c.sql.Fragment A d := by
  have operator : Text.Only Common (" " ++ c.operator ++ " ") :=
    (Text.Only.append (by decide) h.operator).append (by decide)
  exact ((Sql.Fragment.nil.ident h.right).word operator).ident h.left

theorem JoinKind.sql_separates (k : JoinKind) : Text.Separates (" " ++ k.sql ++ " ") := by
  cases k <;> decide

theorem Join.Only.sql {j : Join} (h : j.Only A.name) : j.sql.Clause A d := by
  have head : Sql.Clause A d [.text (" " ++ j.kind.sql ++ " "), .ident [j.table]] :=
    .text j.kind.sql_separates (Sql.Fragment.nil.ident (Column.only_one h.table))
  have conditions : Sql.Fragment A d (Sql.join " AND " (j.on.map OnCondition.sql)) := by
    refine Sql.Fragment.join (by decide) fun p hp => ?_
    obtain ⟨c, hc, rfl⟩ := List.mem_map.1 hp
    exact (h.on c hc).sql
  unfold Join.sql
  refine (head.append ?_).append ?_
  · split
    · exact .nil
    · exact .text (by decide) (Sql.Fragment.nil.ident (Column.only_one h.tableAlias))
  · split
    · exact .nil
    · exact .text (by decide) conditions

theorem Scope.Only.joinsSql {s : Scope} (h : s.Only A.name) : (joinsSql s.joins).Clause A d :=
  Sql.Clause.flatMap fun j hj => (h.joins j hj).sql

theorem fromSql_clause {table : String} (h : Text.Only A.name table) :
    Sql.Clause A d [.text " FROM ", .ident [table]] :=
  .text (by decide) (Sql.Fragment.nil.ident (Column.only_one h))

theorem whereSql_clause {parts : List Sql} (h : ∀ p ∈ parts, Sql.Fragment A d p) :
    (whereSql parts).Clause A d := by
  unfold whereSql
  split
  · exact .nil
  · exact .text (by decide) (Sql.Fragment.join (by decide) h)

theorem orderingSql_clause {items : List Sql} (h : ∀ p ∈ items, Sql.Fragment A d p) :
    (orderingSql items).Clause A d := by
  unfold orderingSql
  split
  · exact .nil
  · exact .text (by decide) (Sql.Fragment.join (by decide) h)

theorem Text.separates_append {a b : String} (ha : Text.Separates a) (hb : Text.Only Common b) :
    Text.Separates (a ++ b) := by
  refine ⟨ha.1.append hb, ?_⟩
  rw [String.toList_append, List.head?_append]
  cases hh : a.toList.head? with
  | none =>
    have := ha.2
    simp [hh] at this
  | some c =>
    have := ha.2
    simpa [hh] using this

theorem pagingSql_clause (limit offset : Option Nat) : (pagingSql limit offset).Clause A d := by
  have limits : ∀ n : Nat, Text.Separates (" LIMIT " ++ toString n) := fun n =>
    Text.separates_append (by decide) (Text.number n)
  unfold pagingSql
  split
  · rename_i l o
    refine .text ?_ .nil
    exact Text.separates_append (Text.separates_append (limits l) (by decide)) (Text.number o)
  · exact .text (limits _) .nil
  · rename_i o
    refine ⟨.of_only (fun q hq => ?_) rfl, fun c hc => ?_⟩
    · obtain rfl := List.mem_singleton.1 hq
      trivial
    · rw [Sql.toList_print_cons, Piece.print] at hc
      split at hc <;>
        simp only [String.toList_append, List.append_assoc, List.head?_append] at hc <;>
        simp at hc <;> subst hc <;> decide
  · exact .nil

theorem ScanPlan.countedSql_fragment {scan : ScanPlan ι}
    (h : ∀ e ∈ scan.entries, Text.Only A.name e.columnAlias) : scan.countedSql.Fragment A d := by
  unfold ScanPlan.countedSql
  split
  · rename_i e he
    split
    · obtain ⟨i, -, hi⟩ := Option.bind_eq_some_iff.1 he
      have name := Column.only_one (h e (List.mem_of_getElem? hi))
      exact ((Sql.Fragment.nil.word (by decide)).ident name).word (by decide)
    · exact Sql.Fragment.nil.word (by decide)
  · exact Sql.Fragment.nil.word (by decide)

theorem Model.countedSql_fragment {m : Model ι} (hm : m.Only A.name) (multiplied : Bool) :
    (m.countedSql multiplied).Fragment A d := by
  unfold Model.countedSql
  split
  · rename_i pk hpk
    split
    · have key := Column.only_two hm.table (hm.fields pk (List.mem_of_find?_eq_some hpk)).column
      exact ((Sql.Fragment.nil.word (by decide)).ident key).word (by decide)
    · exact Sql.Fragment.nil.word (by decide)
  · exact Sql.Fragment.nil.word (by decide)

theorem writeSets_fragment : ∀ {fields : List (FieldDef ι × Value)},
    (∀ e ∈ fields, Text.Only A.name e.1.column) →
    (writeSets fields).Gives fun parts => ∀ q ∈ parts, Sql.Fragment A d q
  | [], _ => by
    unfold writeSets
    exact Keeps.of_pure (by simp)
  | (f, v) :: rest, h => by
    unfold writeSets
    refine (bindValue_gives v).bind ?_
    rintro _ ⟨n, rfl⟩
    refine (writeSets_fragment fun e he => h e (List.mem_cons_of_mem _ he)).bind
      fun parts hp => Keeps.of_pure fun q hq => ?_
    rcases List.mem_cons.1 hq with rfl | hq
    · exact ((Sql.Fragment.param n).word (by decide)).ident
        (Column.only_one (h _ List.mem_cons_self))
    · exact hp q hq

theorem insertBody_clause (hi : A.insert) {written : List (FieldDef ι × Value)}
    {returning : List (FieldDef ι)} (hw : ∀ e ∈ written, Text.Only A.name e.1.column)
    (hr : ∀ f ∈ returning, Text.Only A.name f.column) :
    (insertBody written returning).Clause A d := by
  have columns : Sql.Fragment A d (Sql.join ", " (written.map fun e => .name e.1.column)) := by
    refine Sql.Fragment.join (by decide) fun q hq => ?_
    obtain ⟨e, he, rfl⟩ := List.mem_map.1 hq
    exact Sql.Fragment.nil.ident (Column.only_one (hw e he))
  have params : Sql.Fragment A d (Sql.join ", "
      ((List.range written.length).map fun i => [.param (i + 1)])) := by
    refine Sql.Fragment.join (by decide) fun q hq => ?_
    obtain ⟨i, -, rfl⟩ := List.mem_map.1 hq
    exact .param _
  have body : Sql.Clause A d (if written.isEmpty then [.text " ", .emptyInsert]
      else .text " (" :: Sql.join ", " (written.map fun e => .name e.1.column) ++
        [.text ") VALUES ("] ++
        Sql.join ", " ((List.range written.length).map fun i => [.param (i + 1)]) ++ [.text ")"]) := by
    split
    · refine .text (by decide) (.of_only (fun q hq => ?_) rfl)
      obtain rfl := List.mem_singleton.1 hq
      exact hi
    · simpa using Sql.Clause.text (s := " (") (by decide)
        (columns.sep (s := ") VALUES (") (by decide) (params.close (s := ")") (by decide)))
  have tail : Sql.Clause A d
      (if returning.isEmpty then [] else [.returning (returning.map (·.column))]) := by
    split
    · exact .nil
    · refine ⟨.of_only (fun q hq => ?_) rfl, fun c hc => ?_⟩
      · obtain rfl := List.mem_singleton.1 hq
        refine ⟨hi, fun c hc => ?_⟩
        obtain ⟨f, hf, rfl⟩ := List.mem_map.1 hc
        exact hr f hf
      · rw [Sql.toList_print_cons, Piece.print] at hc
        split at hc
        · rw [String.toList_append, List.append_assoc, List.head?_append] at hc
          simp only [String.reduceToList, List.head?_cons, Option.some_or, Option.some.injEq] at hc
          exact hc ▸ by decide
        · simp [Sql.print] at hc
  exact body.append tail

end

section

variable {ι : Type} {schema : Schema ι} {d : Dialect} {A : Alphabet} {p : Plan ι}
  {c : Compiled ι}

/-! ## Resolution -/

/-- A query with its columns, all parts of which can be written. -/
structure ResolvedSelect.Writable (A : Alphabet) (schema : Schema ι) (d : Dialect)
    (r : ResolvedSelect ι) : Prop where
  scan : r.scan.Only A.name
  names : ∀ a ∈ r.annotations, Text.Only A.name a.1
  annotations : (Demand.writable A schema d).OnNamed r.annotations
  filters : (Demand.writable A schema d).OnAll r.filters
  ordering : ∀ q ∈ r.ordering, Sql.Fragment A d q

theorem Plan.unordered_writable (h : (Demand.writable A schema d).OnPlan p) :
    (Demand.writable A schema d).OnPlan p.unordered := by
  rw [Demand.onPlan_iff] at h ⊢
  exact ⟨⟨h.1.annotations, h.1.targets, h.1.conditions⟩, h.2⟩

theorem resolveConditions_only [Spells A.name] (hs : Schema.Only A.name schema)
    (hp : (Demand.writable A schema d).OnPlan p) {filters : List (Expression ι)} {scope : Scope}
    (h : Yields (p.resolveConditions schema) {} filters scope) :
    scope.Only A.name ∧ (Demand.writable A schema d).OnAll filters := by
  obtain ⟨named, -, hfilters⟩ := (Demand.onPlan_iff p).1 hp
  unfold Plan.resolveConditions at h
  obtain ⟨_, s, hj, hf⟩ := Yields.bind_iff.1 h
  obtain ⟨h₁, -⟩ := (addExplicits_only hs p.model named.targets named.conditions).of_yields
    Scope.only_empty hj
  exact (resolveFilters_meets (Demand.writable_resolves hs p.model) _ hfilters).of_yields h₁ hf

variable [Spells A.text]

/-! ## INSERT -/

theorem compileInsert_fragment (hi : A.insert) (hs : Schema.Only A.name schema) {model : ι}
    {x : Instance ι} (h : compileInsert schema model x = .ok c) : c.statement.sql.Fragment A d := by
  obtain ⟨fields, hf, rfl⟩ := compileInsert_cases h
  have column : ∀ e ∈ fields, Text.Only A.name e.1.column := fun e he =>
    ((hs model).fields e.1 (insertFields_mem hf e he)).column
  have head : Sql.Fragment A d [.text "INSERT INTO ", .ident [(schema model).table]] :=
    (Sql.Fragment.nil.ident (Column.only_one (hs model).table)).word (by decide)
  refine head.before (insertBody_clause hi (fun e he => column e (List.mem_filter.1 he).1) ?_)
  intro f hf'
  obtain ⟨e, he, rfl⟩ := List.mem_map.1 hf'
  exact column e (List.mem_filter.1 he).1

/-! ## SELECT -/

theorem Plan.selectSql_fragment {r : ResolvedSelect ι} (hr : r.Writable A schema d) {scope : Scope}
    (hscope : scope.Only A.name) (htable : Text.Only A.name (schema p.model).table)
    {computed predicates : List Sql} (hcomputed : ∀ q ∈ computed, Sql.Fragment A d q)
    (hpredicates : ∀ q ∈ predicates, Sql.Fragment A d q) :
    (p.selectSql schema r scope.joins computed predicates).Fragment A d := by
  have head : Text.Only Common (if p.distinct then "SELECT DISTINCT " else "SELECT ") := by
    cases p.distinct <;> decide
  have fields : ∀ q ∈ r.scan.entries.map r.scan.fieldSql, Sql.Fragment A d q := by
    intro q hq
    obtain ⟨e, he, rfl⟩ := List.mem_map.1 hq
    exact hr.scan.fieldSql he
  have columns : Sql.Fragment A d
      (Sql.join ", " (r.scan.entries.map r.scan.fieldSql ++ computed)) :=
    Sql.Fragment.join (by decide) (List.forall_mem_append.2 ⟨fields, hcomputed⟩)
  have tables : Sql.Clause A d ([.text " FROM ", .ident [(schema p.model).table]] ++
      joinsSql scope.joins) := (fromSql_clause htable).append hscope.joinsSql
  have clauses := ((tables.append (whereSql_clause hpredicates)).append
    (orderingSql_clause hr.ordering)).append (pagingSql_clause p.limit p.offset)
  unfold Plan.selectSql
  simpa using (columns.word head).before clauses

variable [Spells A.name]

theorem Plan.resolve_writable (hs : Schema.Only A.name schema)
    (hp : (Demand.writable A schema d).OnPlan p) {paths : List String} {asNested dedupe : Bool}
    {r : ResolvedSelect ι} {scope : Scope}
    (h : Yields (p.resolve schema paths asNested dedupe) {} r scope) :
    scope.Only A.name ∧ r.Writable A schema d := by
  obtain ⟨-, ⟨stages⟩⟩ := Plan.stages h
  obtain ⟨named, annotations, filters⟩ := (Demand.onPlan_iff p).1 hp
  have hD : (Demand.writable A schema d).Resolves schema p.model (Scope.Only A.name) :=
    Demand.writable_resolves hs p.model
  have names : ∀ name ∈ p.annotations.map (·.1), Text.Only A.name name :=
    List.forall_mem_map.2 named.annotations
  have item : ∀ i, Keeps (Scope.Only A.name)
      (resolveOrderingItem schema p.model (p.annotations.map (·.1)) i) (Sql.Fragment A d) :=
    resolveOrderingItem_fragment hs p.model names
  -- The scope of each stage is the one that the stage before leaves.
  obtain ⟨h₁, -⟩ := (addExplicits_only hs p.model named.targets named.conditions).of_yields
    Scope.only_empty stages.joins
  obtain ⟨h₂, hscan⟩ := (projection_only hs p.model dedupe paths).of_yields h₁ stages.projection
  obtain ⟨h₃, hnames, hannotations⟩ := (resolveNamed_meets hD _ annotations).of_yields h₂
    stages.annotations
  obtain ⟨h₄, hfilters⟩ := (resolveFilters_meets hD _ filters).of_yields h₃ stages.filters
  obtain ⟨h₅, hordering⟩ := (Keeps.mapM fun i _ => item i).of_yields h₄ stages.ordering
  refine ⟨h₅, ?scan, fun a ha => ?names, hannotations, hfilters, hordering⟩
  case scan => exact stages.scan_eq ▸ hscan.keyed hs p.model dedupe scope.toMany
  case names => exact names a.1 (hnames ▸ List.mem_map_of_mem ha)

theorem Plan.writeSelect_fragment (hs : Schema.Only A.name schema) {nested : Plan ι → Binding Sql}
    (hn : ∀ q, (Demand.writable A schema d).OnPlan q → (nested q).Gives (Sql.Fragment A d))
    (hp : (Demand.writable A schema d).OnPlan p) (paths : List String) (asNested dedupe : Bool) :
    (p.writeSelect schema nested paths asNested dedupe).Gives fun out =>
      out.1.Fragment A d ∧ ∀ e ∈ out.2.entries, Text.Only A.name e.columnAlias := by
  refine Keeps.of_forall fun args out args' hy => ?_
  obtain ⟨r, scope, computed, mid, predicates, hr, hc, hpr, rfl⟩ := Plan.writeSelect_cases hy
  obtain ⟨hscope, resolved⟩ := Plan.resolve_writable hs hp hr
  obtain ⟨-, hcomputed⟩ := (writeAnnotations_fragment hn _ resolved.names
    resolved.annotations).of_yields trivial hc
  obtain ⟨-, hpredicates⟩ := (Expression.writeAll_fragment hn _ resolved.filters).of_yields trivial hpr
  refine ⟨Plan.selectSql_fragment resolved hscope (hs p.model).table hcomputed hpredicates, ?_⟩
  refine List.forall_mem_append.2 ⟨fun e he => (resolved.scan.entries e he).columnAlias, ?_⟩
  exact List.forall_mem_map.2 resolved.names

theorem Plan.writeNested_fragment (hs : Schema.Only A.name schema) : ∀ (depth : Nat) (q : Plan ι),
    (Demand.writable A schema d).OnPlan q → (Plan.writeNested schema depth q).Gives (Sql.Fragment A d)
  | 0, _, _ => Keeps.of_throw
  | depth + 1, q, hq => by
    unfold Plan.writeNested
    refine (Plan.writeSelect_fragment hs (Plan.writeNested_fragment hs depth) hq _ _ _).bind
      fun out ho => Keeps.of_pure ho.1

theorem Plan.nestedIn_fragment (hs : Schema.Only A.name schema) (q q' : Plan ι)
    (h : (Demand.writable A schema d).OnPlan q') : (q.nestedIn schema q').Gives (Sql.Fragment A d) :=
  Plan.writeNested_fragment hs _ q' h

/-! ## COUNT -/

theorem writeCountNested_fragment (hs : Schema.Only A.name schema)
    (hp : (Demand.writable A schema d).OnPlan p) {args args' : List Value} {sql : Sql}
    (h : Yields (writeCountNested schema p) args sql args') : sql.Fragment A d := by
  obtain ⟨sub, scan, hw, rfl⟩ := writeCountNested_cases h
  obtain ⟨-, hsub, hscan⟩ := (Plan.writeSelect_fragment hs (Plan.nestedIn_fragment hs _)
    (Plan.unordered_writable hp) _ true true).of_yields trivial hw
  have tail : Sql.Clause A d [.text ") AS ", .ident ["djorm_count"]] :=
    .text (by decide) (Sql.Fragment.nil.ident (Column.only_one (Text.word (by decide))))
  have head : Sql.Fragment A d (.text "SELECT " :: scan.countedSql) :=
    (ScanPlan.countedSql_fragment hscan).word (by decide)
  simpa using head.sep (s := " FROM (") (by decide) (hsub.before tail)

theorem writeCountPlain_fragment (hs : Schema.Only A.name schema)
    (hp : (Demand.writable A schema d).OnPlan p) {args args' : List Value} {sql : Sql}
    (h : Yields (writeCountPlain schema p) args sql args') : sql.Fragment A d := by
  obtain ⟨filters, scope, predicates, hr, hw, rfl⟩ := writeCountPlain_cases h
  obtain ⟨hscope, hf⟩ := resolveConditions_only hs hp hr
  have hpred := ((Expression.writeAll_fragment (Plan.nestedIn_fragment hs p) _ hf).of_yields
    trivial hw).2
  have clauses := ((fromSql_clause (hs p.model).table).append hscope.joinsSql).append
    (whereSql_clause hpred)
  have head : Sql.Fragment A d (.text "SELECT " :: (schema p.model).countedSql scope.toMany) :=
    (Model.countedSql_fragment (hs p.model) _).word (by decide)
  simpa using head.before clauses

/-! ## Predicates of writes -/

theorem writeWhere_clause (hs : Schema.Only A.name schema)
    (hp : (Demand.writable A schema d).OnPlan p) {args args' : List Value} {sql : Sql}
    (h : Yields (writeWhere schema p) args (some sql) args') :
    sql.Clause A d := by
  obtain ⟨filters, scope, predicates, hr, hw, hcases⟩ := writeWhere_cases h
  obtain ⟨hscope, hf⟩ := resolveConditions_only hs hp hr
  have hpred := ((Expression.writeAll_fragment (Plan.nestedIn_fragment hs p) _ hf).of_yields
    trivial hw).2
  obtain ⟨-, rfl⟩ | ⟨pk, hpk, rfl⟩ := hcases
  · exact whereSql_clause hpred
  · have htable := (hs p.model).table
    have hkey := ((hs p.model).fields pk (Model.pk_mem hpk)).column
    have sub : Text.Only A.name "djorm_sub" := Text.word (by decide)
    have tail : Sql.Clause A d [.text ") AS ", .ident ["djorm_sub"], .text ")"] :=
      .text (by decide) ((Sql.Fragment.nil.word (by decide)).ident (Column.only_one sub))
    have inner := (hscope.joinsSql.append (whereSql_clause hpred)).append tail
    have head : Sql.Clause A d [.text " WHERE ", .ident [(schema p.model).table, pk.column],
        .text " IN (SELECT ", .ident ["djorm_sub", pk.column], .text " FROM (SELECT DISTINCT ",
        .ident [(schema p.model).table, pk.column], .text " AS ", .ident [pk.column],
        .text " FROM ", .ident [(schema p.model).table]] := by
      refine .text (by decide) (.ident (Column.only_two htable hkey) (.word (by decide) ?_))
      refine .ident (Column.only_two sub hkey) (.word (by decide) ?_)
      refine .ident (Column.only_two htable hkey) (.word (by decide) ?_)
      exact .ident (Column.only_one hkey) (.word (by decide) (.ident (Column.only_one htable) .nil))
    simpa [Model.memberSql] using head.append inner

/-! ## Compiled statements -/

section

variable (hs : Schema.Only A.name schema) (hp : (Demand.writable A schema d).OnPlan p)

include hs hp

theorem compileSelect_fragment (h : compileSelect schema p = .ok c) : c.statement.sql.Fragment A d := by
  obtain ⟨sql, scan, args, hy, rfl⟩ := compileSelect_cases h
  exact ((Plan.writeSelect_fragment hs (Plan.nestedIn_fragment hs p) hp _ _ _).of_yields
    trivial hy).2.1

theorem compileCount_fragment (h : compileCount schema p = .ok c) : c.statement.sql.Fragment A d := by
  obtain ⟨-, sql, args, hy, rfl⟩ := compileCount_cases h
  split at hy
  · exact writeCountNested_fragment hs hp hy
  · exact writeCountPlain_fragment hs hp hy

theorem compileValues_fragment {paths : List String} (h : compileValues schema p paths = .ok c) :
    c.statement.sql.Fragment A d := by
  obtain ⟨sql, scan, args, hy, rfl⟩ := compileValues_cases h
  have hp' : (Demand.writable A schema d).OnPlan { p with annotations := [] } := by
    rw [Demand.onPlan_iff] at hp ⊢
    obtain ⟨names, -, filters⟩ := hp
    exact ⟨⟨nofun, names.targets, names.conditions⟩, by rw [Demand.OnNamed]; trivial, filters⟩
  exact ((Plan.writeSelect_fragment hs (Plan.nestedIn_fragment hs _) hp' _ _ _).of_yields
    trivial hy).2.1

theorem compileUpdate_fragment {x : Instance ι} (h : compileUpdate schema p x = .ok c) : c.statement.sql.Fragment A d := by
  obtain ⟨fields, sets, mid, predicate, args, hf, hsets, hy, rfl⟩ := compileUpdate_cases h
  have column : ∀ e ∈ fields, Text.Only A.name e.1.column := fun e he =>
    ((hs p.model).fields e.1 (updateFields_mem hf e he)).column
  have hparts : ∀ q ∈ sets, Sql.Fragment A d q :=
    ((writeSets_fragment column).of_yields trivial hsets).2
  have head : Sql.Fragment A d ([.text "UPDATE ", .ident [(schema p.model).table], .text " SET "] ++
      Sql.join ", " sets) :=
    (((Sql.Fragment.join (by decide) hparts).word (by decide)).ident
      (Column.only_one (hs p.model).table)).word (by decide)
  exact head.before (writeWhere_clause hs hp hy)

theorem compileDelete_fragment (h : compileDelete schema p = .ok c) : c.statement.sql.Fragment A d := by
  obtain ⟨predicate, args, hy, rfl⟩ := compileDelete_cases h
  have head : Sql.Fragment A d [.text "DELETE FROM ", .ident [(schema p.model).table]] :=
    (Sql.Fragment.nil.ident (Column.only_one (hs p.model).table)).word (by decide)
  exact head.before (writeWhere_clause hs hp hy)

end

/-! ## The order of placeholders -/

theorem compile_inOrder (hs : Schema.Plain schema) (hd : d.Plain) (hp : p.Plain schema)
    (hspaced : d.placeholder = .dollar → p.Spaced d) (paths : List String) (model : ι)
    (x : Instance ι) :
    (∀ c, compileSelect schema p = .ok c → c.statement.InOrder d) ∧
    (∀ c, compileCount schema p = .ok c → c.statement.InOrder d) ∧
    (∀ c, compileValues schema p paths = .ok c → c.statement.InOrder d) ∧
    (∀ c, compileInsert schema model x = .ok c → c.statement.InOrder d) ∧
    (∀ c, compileUpdate schema p x = .ok c → c.statement.InOrder d) ∧
    (∀ c, compileDelete schema p = .ok c → c.statement.InOrder d) := by
  have hw := Plan.writable hp hspaced
  refine ⟨fun c h => ?_, fun c h => ?_, fun c h => ?_, fun c h => ?_, fun c h => ?_, fun c h => ?_⟩
  · exact (compileSelect_numbered h).inOrder hd (compileSelect_fragment hs.only hw h)
  · exact (compileCount_numbered h).inOrder hd (compileCount_fragment hs.only hw h)
  · exact (compileValues_numbered h).inOrder hd (compileValues_fragment hs.only hw h)
  · exact (compileInsert_numbered h).inOrder hd (compileInsert_fragment trivial hs.only h)
  · exact (compileUpdate_numbered h).inOrder hd (compileUpdate_fragment hs.only hw h)
  · exact (compileDelete_numbered h).inOrder hd (compileDelete_fragment hs.only hw h)

theorem sample_plain : Schema.Plain Sample.schema := by
  intro i
  cases i <;> decide +kernel

theorem Dialect.postgres_plain : Dialect.postgres.Plain :=
  ⟨by decide, by simp [Dialect.postgres], by decide⟩

/-- People of one name. -/
def namesakes : Plan Sample where
  model := .user
  filters := [.compare "name" .exact [.string "Ada"]]

/-- Notes found through templates and a nested query. -/
def ownNotes : Plan Sample where
  model := .note
  select := ["id"]
  annotations := [("size", .func { text := "LENGTH(%s) + ?", fields := ["body"], params := [.int 1] })]
  filters := [.raw { text := "%s > ?", fields := ["user.id"], params := [.int 3] },
    .memberOf "user" namesakes]

/-- A template in which a digit follows the slot of a parameter. -/
def gluedDigit : Plan Sample where
  model := .todo
  select := ["id"]
  filters := [.raw { text := "%s = ?5", fields := ["id"], params := [.int 3] }]

theorem ownNotes_plain : ownNotes.Plain Sample.schema := by
  have inner : namesakes.Plain Sample.schema := by
    rw [Plan.Plain, Demand.onPlan_iff]
    refine ⟨⟨by simp [namesakes], by simp [namesakes], by simp [namesakes]⟩, trivial, ?_, trivial⟩
    exact nofun
  rw [Plan.Plain, Demand.onPlan_iff]
  refine ⟨⟨by decide, by simp [ownNotes], by simp [ownNotes]⟩, ?_, ?_, ?_, trivial⟩
  · exact ⟨⟨by decide, nofun⟩, trivial⟩
  · exact ⟨by decide, nofun⟩
  · exact ⟨nofun, inner⟩

theorem ownNotes_spaced : ownNotes.Spaced .postgres := by
  have inner : namesakes.Spaced .postgres := by
    rw [Plan.Spaced, Demand.onPlan_iff]
    exact ⟨trivial, trivial, fun _ _ => trivial, trivial⟩
  rw [Plan.Spaced, Demand.onPlan_iff]
  refine ⟨trivial, ?_, ?_, ?_, trivial⟩
  · exact ⟨⟨(by decide : TemplateToken.spaced _ _ = true), fun _ _ _ _ => trivial⟩, trivial⟩
  · exact ⟨(by decide : TemplateToken.spaced _ _ = true), fun _ _ _ _ => trivial⟩
  · exact ⟨fun _ _ => trivial, inner⟩

theorem ownNotes_inOrder : ∃ c, compileSelect Sample.schema ownNotes = .ok c ∧
    c.statement.args.length = 3 ∧ c.statement.InOrder .postgres :=
  ⟨_, rfl, rfl, (compile_inOrder sample_plain Dialect.postgres_plain ownNotes_plain
    (fun _ => ownNotes_spaced) [] .note (.new Sample.schema .note)).1 _ rfl⟩

/-- A digit behind a slot becomes part of the number of the placeholder. -/
theorem digit_joins_placeholder : Schema.Plain Sample.schema ∧ Dialect.postgres.Plain ∧
    gluedDigit.Plain Sample.schema ∧
    ∃ c, compileSelect Sample.schema gluedDigit = .ok c ∧ ¬ c.statement.InOrder .postgres := by
  refine ⟨sample_plain, Dialect.postgres_plain, ?_, _, rfl, fun h => ?_⟩
  · rw [Plan.Plain, Demand.onPlan_iff]
    refine ⟨⟨by simp [gluedDigit], by simp [gluedDigit], by simp [gluedDigit]⟩, trivial, ?_, trivial⟩
    exact ⟨by decide, nofun⟩
  · exact absurd (h.dollar rfl) (by decide)

end

end Orm
