import Orm.Proofs.Place.Query
import Orm.Proofs.Place.WellFormed
import Orm.Proofs.Scope.Kind
import Orm.Proofs.Scope.Qualified

/-
The columns of a nested SELECT.

A query nested in another selects one path: the one it says, or its primary key. A SELECT whose joins
may put a row of the root into several rows projects the key of the root, too, nested or not
(`Plan.keyColumns`), so a nested SELECT of another path has two columns then.
-/

namespace Orm

variable {ι : Type} {schema : Schema ι} {root : ι}

/-! ## A plan with one column -/

/-- A column of a result, under its name there. -/
def columnSql (tableAlias column : String) : Sql :=
  [.ident [tableAlias, column], .text " AS ", .ident [Aliases.columnAlias tableAlias column]]

/-- The only column is this field, at a node of that alias. -/
def ScanPlan.Sole (s : ScanPlan ι) (x : String) (f : FieldDef ι) : Prop :=
  ∃ i n, s.nodes[i]? = some n ∧ n.tableAlias = x ∧
    s.entries = [⟨Aliases.columnAlias x f.column, .field i f⟩]

namespace ScanPlan

variable {s : ScanPlan ι}

theorem fieldSql_field {i : Nat} {n : ScanNode ι} (hn : s.nodes[i]? = some n) (f : FieldDef ι) :
    s.fieldSql ⟨Aliases.columnAlias n.tableAlias f.column, .field i f⟩ =
      columnSql n.tableAlias f.column := by
  simp only [fieldSql, hn, Option.map_some, Option.getD_some, columnSql]

theorem project_sole {i : Nat} {n : ScanNode ι} {f : FieldDef ι} (hn : s.nodes[i]? = some n)
    (he : s.entries = []) (dedupe : Bool) : (s.project i f dedupe).Sole n.tableAlias f := by
  obtain ⟨k, hk⟩ := s.project_nodesKept i f dedupe i n hn
  refine ⟨i, _, hk, rfl, ?_⟩
  unfold project
  simp [hn, he]

theorem ensureNode_entries (s : ScanPlan ι) (p : Nat) (f : FieldDef ι) (m : ι) (x : String) :
    (s.ensureNode p f m x).1.entries = s.entries := by
  unfold ensureNode
  split <;> rfl

theorem ensureChain_entries (s : ScanPlan ι) (node : Nat) (hops : List (Hop ι × String)) :
    (ensureChain schema s node hops).1.entries = s.entries := by
  induction hops generalizing s node with
  | nil => rfl
  | cons x hops ih => exact (ih _ _).trans (s.ensureNode_entries ..)

theorem ensureNode_alias (s : ScanPlan ι) (p : Nat) (f : FieldDef ι) (m : ι) (x : String) :
    ∃ n, (s.ensureNode p f m x).1.nodes[(s.ensureNode p f m x).2]? = some n ∧ n.tableAlias = x := by
  unfold ensureNode
  split
  case h_1 i hi =>
    obtain ⟨hlt, halias, -⟩ := List.findIdx?_eq_some_iff_getElem.1 hi
    exact ⟨s.nodes[i], List.getElem?_eq_getElem hlt, beq_iff_eq.1 halias⟩
  case h_2 => exact ⟨_, List.getElem?_concat_length, rfl⟩

/-- The key of the root beside a sole column, unless the column's alias takes its place. -/
theorem Sole.project {x : String} {f : FieldDef ι} (h : s.Sole x f) {n : ScanNode ι}
    (hn : s.nodes[0]? = some n) (pk : FieldDef ι) :
    (s.project 0 pk true).entries.map (s.project 0 pk true).fieldSql = columnSql x f.column ::
      if Aliases.columnAlias x f.column != Aliases.columnAlias n.tableAlias pk.column then
        [columnSql n.tableAlias pk.column]
      else [] := by
  obtain ⟨i, m, hm, rfl, he⟩ := h
  obtain ⟨k, hk⟩ := s.project_nodesKept 0 pk true i m hm
  obtain ⟨k', hk'⟩ := s.project_nodesKept 0 pk true 0 n hn
  have hfirst : (s.project 0 pk true).fieldSql
      ⟨Aliases.columnAlias m.tableAlias f.column, .field i f⟩ = columnSql m.tableAlias f.column :=
    fieldSql_field hk f
  have hsecond : (s.project 0 pk true).fieldSql
      ⟨Aliases.columnAlias n.tableAlias pk.column, .field 0 pk⟩ =
        columnSql n.tableAlias pk.column :=
    fieldSql_field hk' pk
  have hentries : (s.project 0 pk true).entries =
      if Aliases.columnAlias m.tableAlias f.column != Aliases.columnAlias n.tableAlias pk.column then
        s.entries ++ [⟨Aliases.columnAlias n.tableAlias pk.column, .field 0 pk⟩]
      else s.entries := by
    unfold ScanPlan.project
    by_cases hsame : Aliases.columnAlias m.tableAlias f.column =
        Aliases.columnAlias n.tableAlias pk.column
    · simp [hn, he, hsame]
    · simp [hn, he, hsame]
  rw [hentries, he]
  split
  · rw [List.singleton_append, List.map_cons, List.map_singleton, hfirst, hsecond]
  · rw [List.map_singleton, hfirst]

/-- The root's key beside the one column, unless it is there already. -/
theorem Sole.keyed {x : String} {f : FieldDef ι} (h : s.Sole x f) {n : ScanNode ι}
    (hn : s.nodes[0]? = some n) (multiplied : Bool) :
    (s.keyed schema root true multiplied).entries.map (s.keyed schema root true multiplied).fieldSql =
      columnSql x f.column ::
        match (schema root).pk? with
        | none => []
        | some pk =>
          if multiplied && s.rootKey.isNone &&
              Aliases.columnAlias x f.column != Aliases.columnAlias n.tableAlias pk.column then
            [columnSql n.tableAlias pk.column]
          else [] := by
  have sole : s.entries.map s.fieldSql = [columnSql x f.column] := by
    obtain ⟨i, m, hm, rfl, he⟩ := h
    rw [he, List.map_singleton, fieldSql_field hm]
  unfold ScanPlan.keyed
  dsimp only
  cases (schema root).pk? with
  | none => exact sole
  | some pk =>
    dsimp only
    by_cases hadd : (true && multiplied && s.rootKey.isNone) = true
    · rw [if_pos hadd]
      rw [Bool.true_and] at hadd
      rw [hadd, Bool.true_and]
      exact h.project hn pk
    · rw [if_neg hadd]
      rw [Bool.true_and] at hadd
      rw [Bool.eq_false_iff.2 hadd, Bool.false_and, if_neg Bool.false_ne_true]
      exact sole

end ScanPlan

/-- The field whose column a path stands for: a relation without a column stands for the key of its
target. -/
def Walk.projected? (schema : Schema ι) (w : Walk ι) : Option (FieldDef ι) :=
  match w.last? with
  | some h => (schema h.relation.target).pk?
  | none => w.field

theorem Walk.columnName_of_projected {w : Walk ι} {g : FieldDef ι}
    (h : w.projected? schema = some g) : w.columnName schema = g.column := by
  unfold Walk.projected? at h
  unfold Walk.columnName
  cases hl : w.last? <;> simp_all

/-! ## Projecting one path -/

section

variable [DecidableEq ι] {others : List String} {s t : Scope} {joined places : List (List (Hop ι))}
  {scan scan' : ScanPlan ι} {w : Walk ι} {f : FieldDef ι}

theorem projectEnd_sole (hk : JoinKeysDistinct schema) {dedupe : Bool} {node : Nat}
    (hf : w.field = some f) (hempty : scan.entries = []) (hl : Leads schema root w.chain w.model)
    (hmem : f ∈ (schema w.model).fields) (hm : Mapped schema root others s joined)
    (hb : w.chain = [] ∨ w.chain ∈ joined) (hs : ScanAt schema root s.aliases scan places)
    (hnode : places[node]? = some w.chain)
    (hy : Yields (projectEnd schema dedupe w scan node) s scan' t)
    (hc : Clean schema root others t.aliases) :
    Placed schema root t.aliases w.crossed ∧ ∃ g, w.projected? schema = some g ∧
      scan'.Sole (t.aliases.placeAlias schema root w.crossed) g := by
  obtain ⟨n, hn, hat⟩ := hs.node_of_place hnode
  unfold projectEnd at hy
  simp only [hn, hf] at hy
  unfold Walk.crossed Walk.projected?
  by_cases hcol : f.hasColumn = true
  · rw [if_pos hcol] at hy
    obtain ⟨rfl, rfl⟩ := Yields.pure_iff.1 hy
    rw [Walk.last?_of_hasColumn hf hcol, Option.toList_none, List.append_nil]
    refine ⟨hs.placed _ (List.mem_of_getElem? hnode), f, hf, ?_⟩
    rw [← hat.tableAlias]
    exact ScanPlan.project_sole hn hempty dedupe
  · rw [if_neg hcol] at hy
    simp only [Resolving.ofResult, Yields.bind_iff, Yields.mk_pure_iff, Yields.pure_iff] at hy
    obtain ⟨y, u, hy, target, _, ⟨ht, rfl⟩, pk, _, ⟨hpk, rfl⟩, rfl, rfl⟩ := hy
    obtain ⟨r, hr, -⟩ := FieldDef.relation_of_not_hasColumn (Bool.eq_false_iff.2 hcol)
    obtain ⟨r', hr', rfl⟩ := targetOf_eq_ok ht
    obtain rfl : r = r' := Option.some.inj (hr.symm.trans hr')
    rw [hat.tableAlias, hat.model hl] at hy
    obtain ⟨-, hplaced, rfl⟩ :=
      joinRelation_visited hk hm hb hr (hl.append ⟨rfl, hmem, hr, rfl⟩) hy hc
    rw [Walk.last?_of_relation hf (Bool.eq_false_iff.2 hcol) hr]
    obtain ⟨m, hm', halias⟩ := scan.ensureNode_alias node f r.target
      (u.aliases.placeAlias schema root (w.chain ++ [⟨w.model, f, r⟩]))
    refine ⟨hplaced, pk, Model.pk_eq_ok.1 hpk, ?_⟩
    rw [Option.toList_some, ← halias]
    exact ScanPlan.project_sole (halias ▸ hm')
      ((scan.ensureNode_entries ..).trans hempty) dedupe

/-- The projection of one path has the column that the path stands for. -/
theorem projection_sole (hk : JoinKeysDistinct schema) {dedupe : Bool} {path : String}
    (hw : walk schema root path = .ok w) (hf : w.field = some f)
    (hm : Mapped schema root others s joined)
    (hy : Yields (projection schema root dedupe [path]) s scan t)
    (hc : Clean schema root others t.aliases) :
    Placed schema root t.aliases w.crossed ∧ ∃ g, w.projected? schema = some g ∧
      scan.Sole (t.aliases.placeAlias schema root w.crossed) g := by
  obtain ⟨-, -, hl, hmem⟩ := walk_ok hw
  obtain ⟨mid, u, hpath, hdone⟩ := Yields.bind_iff.1
    (show Yields (projectPath schema root dedupe _ path >>= fun s =>
      projectPaths schema root dedupe s []) s scan t from hy)
  obtain ⟨rfl, rfl⟩ := Yields.pure_iff.1 hdone
  simp only [projectPath_eq, Resolving.ofResult, Yields.bind_iff, Yields.mk_pure_iff] at hpath
  obtain ⟨w', _, ⟨hw', rfl⟩, hops, v, hj, hend⟩ := hpath
  obtain rfl : w = w' := Except.ok.inj (hw.symm.trans hw')
  have hsound := (joinChain_grows _ _ _).sound hm.sound hj
  have hcu := hc.of_extends ((projectEnd_grows _ _ _ _).extends hsound hend)
  obtain ⟨hv, hplaced, rfl, -⟩ := joinRoot_visited hk hm ⟨_, hl⟩ hj hcu
  have hroot : ScanAt schema root s.aliases _ _ := .withRoot s.aliases
  obtain ⟨first, -, hs', hnode⟩ := (hroot.extend hv.extend).ensureChain hk hsound hcu.root
    hroot.head hplaced
  exact projectEnd_sole hk hf (ScanPlan.ensureChain_entries ..) hl (hmem f hf) hv.mapped
    (chain_mem_joinedAfter joined .left w.chain) hs' hnode hend hc

omit [DecidableEq ι] in
/-- The one column is the root's key if its path ends at the root in a key. -/
theorem ScanAt.rootKey_sole {a : Aliases} {x : String} {c : List (Hop ι)}
    (h : ScanAt schema root a scan places) (hk : JoinKeysDistinct schema) (ha : a.Sound)
    (hr : (schema root).table ∉ a.used) (hs : scan.Sole x f) (hc : Placed schema root a c)
    (hx : x = a.placeAlias schema root c) :
    scan.rootKey.isSome = (c.isEmpty && f.primaryKey) := by
  obtain ⟨i, n, hn, rfl, he⟩ := hs
  obtain ⟨d, hd, hat⟩ := h.place_of_node hn
  obtain rfl : d = c := (h.placed d (List.mem_of_getElem? hd)).placeAlias_injective hk ha hr hc
    (hat.tableAlias.symm.trans hx)
  have hroot : scan.rootKey = scan.nodes[0]?.bind (·.pkEntry) := by
    rw [ScanPlan.rootKey, List.head?_eq_getElem?]
  -- the node of the column is the root if and only if its place is
  have hzero : i = 0 ↔ d = [] := by
    constructor
    · rintro rfl
      exact Option.some.inj (hd.symm.trans h.head)
    · rintro rfl
      exact (List.getElem?_inj (List.getElem?_eq_some_iff.1 hd).1 h.nodup).1 (hd.trans h.head.symm)
  rw [Bool.eq_iff_iff, Bool.and_eq_true, List.isEmpty_iff, ← hzero, hroot]
  constructor
  · intro hsome
    obtain ⟨k, hkey⟩ := Option.isSome_iff_exists.1 hsome
    obtain ⟨m, hm, hkey⟩ := Option.bind_eq_some_iff.1 hkey
    obtain ⟨e, g, hent, ⟨m', hm', -, -, rfl⟩, hpk⟩ := h.pkEntry 0 m k hm hkey
    have := List.mem_of_getElem? hent
    rw [he, List.mem_singleton, ScanEntry.mk.injEq, ScanTarget.field.injEq] at this
    obtain ⟨-, rfl, rfl⟩ := this
    exact ⟨rfl, hpk⟩
  · rintro ⟨rfl, hpk⟩
    obtain ⟨m, hm, hkey⟩ := h.keyed _ (he ▸ List.mem_singleton_self _) 0 f rfl hpk
    rw [hm]
    exact hkey

end

/-! ## Nested queries -/

variable {q : Plan ι}

/-- The places that a nested query visits. -/
def Plan.nestedVisits (schema : Schema ι) (q : Plan ι) : List (Visit ι) :=
  q.joins.flatMap (ExplicitJoin.visits schema q.model) ++ q.visits schema q.select true

/-- The key of the root, where a relation to many is crossed and the path is not that key. -/
def Plan.keyColumns (schema : Schema ι) (q : Plan ι) (w : Walk ι) (a : Aliases) : List Sql :=
  match (schema q.model).pk? with
  | none => []
  | some pk =>
    if (q.nestedVisits schema).any (fun v => arrivesAtMany v.place) &&
        !(w.crossed.isEmpty && (w.projected? schema).any (·.primaryKey)) &&
        Aliases.columnAlias (a.placeAlias schema q.model w.crossed) (w.columnName schema) !=
          Aliases.columnAlias (schema q.model).table pk.column then
      [columnSql (schema q.model).table pk.column]
    else []

/-- The columns of a nested SELECT of one path: that of the path, and the root's key where rows may be
multiplied. -/
theorem Plan.resolve_sole [DecidableEq ι] (hk : JoinKeysDistinct schema) (q : Plan ι) {path : String}
    {w : Walk ι} {f : FieldDef ι} {t : Scope} {r : ResolvedSelect ι} (hsel : q.select = [path])
    (hw : walk schema q.model path = .ok w) (hf : w.field = some f)
    (hy : Yields (q.resolve schema q.select true true) {} r t)
    (hc : Clean schema q.model (q.namedTables schema) t.aliases) :
    r.scan.entries.map r.scan.fieldSql =
      columnSql (t.aliases.placeAlias schema q.model w.crossed) (w.columnName schema) ::
        q.keyColumns schema w t.aliases := by
  rw [hsel] at hy
  obtain ⟨-, ⟨st⟩⟩ := Plan.stages hy
  have ho : ∀ j ∈ q.joins, joinedRelation? schema q.model j.target = none →
      j.target ∈ q.namedTables schema := fun j => Plan.mem_namedTables
  obtain ⟨hm, hv, ⟨places, hscan, -⟩, -⟩ := st.mapped hk ho hc
  have grown := st.grown hk ((projection_grows _ _).sound hm.sound st.projection)
  obtain ⟨hplaced, g, hg, hsole⟩ := projection_sole hk hw hf hm st.projection
    (hc.of_extends grown.2)
  rw [← hplaced.placeAlias_eq grown.2] at hsole
  obtain ⟨n, hn, hat⟩ := hscan.node_of_place hscan.head
  have hroot : n.tableAlias = (schema q.model).table := hat.tableAlias
  have hkey := hscan.rootKey_sole hk hv.mapped.sound hc.root hsole (hplaced.extend grown.2) rfl
  rw [st.scan_eq, hsole.keyed hn, hroot, st.toMany hk ho hc, Walk.columnName_of_projected hg,
    ← Option.not_isSome, hkey]
  simp only [Plan.keyColumns, Plan.nestedVisits, hsel, Walk.columnName_of_projected hg, hg,
    Option.any_some]

/-- The name of a key is a path to it. -/
def KeysAreNamed (schema : Schema ι) : Prop :=
  ∀ i pk, (schema i).pk? = some pk → walk schema i pk.name = .ok ⟨pk.name, i, [], i, some pk⟩

/-- The columns that a query has in another which it is nested in. -/
structure Plan.NestedColumns (schema : Schema ι) (q : Plan ι) (a : Aliases) (columns : List Sql) :
    Prop where
  /-- A query that does not say what it selects has the key of its root, and no other column. -/
  key : q.select = [] →
    ∃ pk, (schema q.model).pk? = some pk ∧ columns = [columnSql (schema q.model).table pk.column]
  /-- A query of one path has the column of the path, and the root's key where rows may be
  multiplied. -/
  path : ∀ path w, q.select = [path] → walk schema q.model path = .ok w →
    columns = columnSql (a.placeAlias schema q.model w.crossed) (w.columnName schema) ::
      q.keyColumns schema w a

/-- A query nested in another is written as a SELECT whose columns are those of `Plan.NestedColumns`. -/
theorem subquery_columns [DecidableEq ι] (hk : JoinKeysDistinct schema) (hkey : KeysAreNamed schema)
    (hown : KeysOwnColumns schema) {use : SubqueryUse} {lhs : Option String} {column : Option Column}
    {depth : Nat} {args args' : List Value} {sql : Sql} (hann : q.annotations = [])
    (hsel : q.select = [] ∨
      ∃ path, q.select = [path] ∧ ∀ w, walk schema q.model path = .ok w → w.star = false)
    (h : Yields (Expression.write schema (Plan.writeNested schema (depth + 1))
      (.subquery use lhs column q)) args sql args')
    (hc : ∀ q', Expression.projected schema q = .ok q' →
      Clean schema q.model (q.namedTables schema) (q'.scopeOf schema q'.select true true).aliases) :
    ∃ q' r scope predicates inner, Expression.projected schema q = .ok q' ∧
      q'.SelectParts schema (Plan.writeNested schema depth) true r scope [] predicates inner ∧
      Expression.useSql use column inner = .ok sql ∧
      q.NestedColumns schema scope.aliases (r.scan.entries.map r.scan.fieldSql) := by
  simp only [Expression.write, Plan.writeNested, Yields.bind_iff, Yields.mk_pure_iff,
    Yields.pure_iff] at h
  obtain ⟨q', _, ⟨hq, rfl⟩, inner, _, ⟨⟨sub, scan⟩, _, hwrite, rfl, rfl⟩, hu, rfl⟩ := h
  obtain ⟨r, scope, computed, mid, predicates, hr, hcomp, hpred, hout⟩ :=
    Plan.writeSelect_cases hwrite
  obtain ⟨rfl, rfl⟩ := Prod.mk.inj hout
  obtain ⟨select, rfl⟩ := Expression.projected_eq_ok hq
  have hclean := hc _ hq
  rw [Plan.scopeOf, hr] at hclean
  -- without computed columns the text has those of the plan only
  obtain rfl : computed = [] := by
    obtain ⟨-, ⟨st⟩⟩ := Plan.stages hr
    have hnamed := st.annotations
    simp only [hann, resolveNamed] at hnamed
    rw [← (Yields.pure_iff.1 hnamed).1] at hcomp
    exact (Yields.pure_iff.1 hcomp).1.symm
  refine ⟨_, r, scope, predicates, _, hq, ⟨hr, ⟨_, _, _, hcomp, hpred⟩, rfl⟩, hu, ?_, ?_⟩
  · intro hnone
    unfold Expression.projected at hq
    simp only [hnone, List.isEmpty_nil, if_true, bind_eq_ok, pure_eq_ok] at hq
    obtain ⟨pk, hpk, heq⟩ := hq
    obtain rfl : [pk.name] = select := congrArg Plan.select heq
    have hprimary := Model.pk_primaryKey hpk
    rw [Model.pk_eq_ok] at hpk
    refine ⟨pk, hpk, ?_⟩
    rw [Plan.resolve_sole hk { q with select := [pk.name] } rfl (hkey q.model pk hpk) rfl hr hclean]
    have hlast : Walk.last? (⟨pk.name, q.model, [], q.model, some pk⟩ : Walk ι) = none :=
      Walk.last?_of_hasColumn rfl (hown q.model pk hpk)
    simp [Plan.keyColumns, hpk, Walk.crossed, Walk.projected?, hlast, hprimary, Walk.columnName,
      Aliases.placeAlias, chainKeys, Aliases.follow]
  · intro path w hpath hw
    obtain ⟨path', hpath', hstar⟩ := hsel.resolve_left (by simp [hpath])
    obtain rfl : path' = path := by simpa [hpath] using hpath'.symm
    obtain ⟨f, hf⟩ : ∃ f, w.field = some f := by
      simpa [Walk.star, Option.isSome_iff_exists] using hstar w hw
    obtain rfl : select = [path'] := by
      unfold Expression.projected at hq
      simp only [hpath, List.isEmpty_cons, Bool.false_eq_true, if_false, pure_eq_ok] at hq
      exact (congrArg Plan.select hq).symm.trans hpath
    have hsame : { q with select := [path'] } = q := by
      cases q
      cases hpath
      rfl
    rw [hsame] at hr
    exact Plan.resolve_sole hk q hpath hw hf hr hclean

theorem sample_keysAreNamed : KeysAreNamed Sample.schema := by
  intro i pk h
  cases i <;> cases h <;> rfl

/-- What the profiles of people of one name are called. -/
def calledAnn : Plan Sample where
  model := .user
  select := ["profile.name"]
  filters := [.compare "name" .exact [.string "Ann"]]
  orderBy := some ["-profile.email"]
  joins := [⟨.inner, "profile", none⟩]

theorem calledAnn_columns : ∃ args sql,
    Yields (Expression.write Sample.schema (Plan.writeNested Sample.schema 1)
      (.subquery .inList (some "title") (some ["todos", "title"]) calledAnn)) [] sql args ∧
    ∃ q' r scope predicates inner, Expression.projected Sample.schema calledAnn = .ok q' ∧
      q'.SelectParts Sample.schema (Plan.writeNested Sample.schema 0) true r scope [] predicates
        inner ∧
      Expression.useSql .inList (some ["todos", "title"]) inner = .ok sql ∧
      calledAnn.NestedColumns Sample.schema scope.aliases
        (r.scan.entries.map r.scan.fieldSql) := by
  obtain ⟨⟨sql, args⟩, hrun⟩ : ∃ out, Binding.run (Expression.write Sample.schema
      (Plan.writeNested Sample.schema 1)
      (.subquery .inList (some "title") (some ["todos", "title"]) calledAnn)) = .ok out :=
    exists_eq_ok (by decide +kernel)
  have hwritten := Binding.run_ok_iff.1 hrun
  refine ⟨args, sql, hwritten, subquery_columns sample_joinKeysDistinct sample_keysAreNamed
    sample_keysOwnColumns rfl (.inr ⟨"profile.name", rfl, ?_⟩) hwritten ?_⟩
  · rintro w hw
    cases hw
    rfl
  · rintro q' hq
    cases hq
    exact ⟨by decide +kernel, by decide +kernel⟩

/-- Todos of whoever has one of a label. -/
def labelSharers : Plan Sample where
  model := .todo
  select := ["id"]
  filters := [.memberOf "user"
    { model := .todo, select := ["user"], filters := [.compare "tags.label" .exact [.string "home"]] }]

/-- The nested SELECT has the key of its root beside the path that it selects. -/
theorem labelSharers_nests_two : ∃ c, compileSelect Sample.schema labelSharers = .ok c ∧
    c.statement.sql = [.text "SELECT ", .ident ["todos", "id"], .text " AS ", .ident ["todos_id"],
      .text " FROM ", .ident ["todos"], .text " WHERE ", .ident ["todos", "user_id"], .text " IN (",
      .text "SELECT ", .ident ["todos", "user_id"], .text " AS ", .ident ["todos_user_id"],
      .text ", ", .ident ["todos", "id"], .text " AS ", .ident ["todos_id"],
      .text " FROM ", .ident ["todos"],
      .text " LEFT JOIN ", .ident ["todos_tags"], .text " AS ", .ident ["tags_todos_tags_1"],
      .text " ON ", .ident ["todos", "id"], .text " = ", .ident ["tags_todos_tags_1", "todos_id"],
      .text " LEFT JOIN ", .ident ["tags"], .text " AS ", .ident ["tags_id_tags_1"],
      .text " ON ", .ident ["tags_todos_tags_1", "tags_id"], .text " = ",
      .ident ["tags_id_tags_1", "id"], .text " WHERE ", .ident ["tags_id_tags_1", "label"],
      .text " = ", .param 1, .text ")"] :=
  ⟨_, rfl, rfl⟩

end Orm
