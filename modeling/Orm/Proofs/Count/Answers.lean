import Orm.Proofs.Count.Rows
import Orm.Proofs.First

/-
What SELECT and COUNT give of a database.

A SELECT gives the values of its columns on the rows that WHERE keeps: one of each if it is DISTINCT, in
whichever order, within its window (`Engine.Answers`). A count gives a number of such rows or of the values
of a key (`Engine.Counts`). There is such an answer (`Engine.answer`, `Engine.count`), which can be computed
where it can be decided which values are alike.

Two lists that stand for the same rows of a table are of one length (`OnePerRow.length_eq`).
-/

namespace Orm

/-! ## Lists of one length -/

section

variable {α β : Type}

/-- One of each class of alike elements of a list. -/
structure OneOfEach (R : α → α → Prop) (xs out : List α) : Prop where
  mem : ∀ y ∈ out, y ∈ xs
  apart : out.Pairwise fun y z => ¬ R y z
  all : ∀ x ∈ xs, ∃ y ∈ out, R x y

/-- A list is not longer than one where each of its elements has a partner of its own. -/
theorem length_le_of_partners {Q : α → β → Prop} {xs : List α} {ys : List β}
    (h : ∀ x ∈ xs, ∃ y ∈ ys, Q x y) (ha : xs.Pairwise fun x z => ∀ y, Q x y → ¬ Q z y) :
    xs.length ≤ ys.length := by
  induction xs generalizing ys with
  | nil => exact Nat.zero_le _
  | cons x xs ih =>
    obtain ⟨⟨y, hy, hxy⟩, hrest⟩ := List.forall_mem_cons.1 h
    obtain ⟨hx, ha⟩ := List.pairwise_cons.1 ha
    obtain ⟨before, after, rfl⟩ := List.append_of_mem hy
    have hothers : ∀ z ∈ xs, ∃ y' ∈ before ++ after, Q z y' := by
      intro z hz
      obtain ⟨y', hy', hzy⟩ := hrest z hz
      have hne : y' ≠ y := fun he => hx z hz y hxy (he ▸ hzy)
      exact ⟨y', by simpa [hne] using hy', hzy⟩
    have hlength := ih hothers ha
    simp only [List.length_append, List.length_cons] at hlength ⊢
    omega

theorem OneOfEach.length_le {R : α → α → Prop} (hr : Equivalence R) {xs out out' : List α}
    (h : OneOfEach R xs out) (h' : OneOfEach R xs out') : out.length ≤ out'.length :=
  length_le_of_partners (fun y hy => h'.all y (h.mem y hy))
    (h.apart.imp fun hyz _ hy hz => hyz (hr.trans hy (hr.symm hz)))

theorem OneOfEach.length_eq {R : α → α → Prop} (hr : Equivalence R) {xs out out' : List α}
    (h : OneOfEach R xs out) (h' : OneOfEach R xs out') : out.length = out'.length :=
  Nat.le_antisymm (h.length_le hr h') (h'.length_le hr h)

theorem oneOfEach_pwFilter {R : α → α → Prop} [DecidableRel R] (hr : Equivalence R) (xs : List α) :
    OneOfEach R xs (xs.pwFilter fun x y => ¬ R x y) where
  mem := List.pwFilter_subset xs
  apart := List.pairwise_pwFilter xs
  all x hx := by
    by_contra hne
    have hfar : ∀ y ∈ xs.pwFilter fun x y => ¬ R x y, ¬ R x y := fun y hy hxy => hne ⟨y, hy, hxy⟩
    refine (List.forall_mem_pwFilter (fun {a b c} hac => ?_) x xs).1 hfar x hx (hr.refl x)
    by_contra hboth
    obtain ⟨hab, hbc⟩ := not_or.1 hboth
    exact hac (hr.trans (not_not.1 hab) (not_not.1 hbc))

theorem length_window {limit offset : Option Nat} {xs : List α} {ys : List β}
    (h : xs.length = ys.length) :
    (window limit offset xs).length = (window limit offset ys).length := by
  cases limit <;> simp [window, h]

theorem window_unpaged {ι : Type} {p : Plan ι} (h : p.paged = false) (xs : List α) :
    window p.limit p.offset xs = xs := by
  obtain ⟨hlimit, hoffset⟩ : p.limit = none ∧ p.offset = none := by
    simpa [Plan.paged] using h
  rw [hlimit, hoffset]
  rfl

/-- A list has one element for each row of which something holds. -/
structure OnePerRow (P : TableRow → Prop) (Q : α → TableRow → Prop) (xs : List α) : Prop where
  row : ∀ x ∈ xs, ∃ r, P r ∧ Q x r
  all : ∀ r, P r → ∃ x ∈ xs, Q x r
  same : ∀ x r s, P r → P s → Q x r → Q x s → r = s
  apart : xs.Pairwise fun x y => ∀ r, P r → Q x r → ¬ Q y r

theorem OnePerRow.length_le {P : TableRow → Prop} {Q : α → TableRow → Prop}
    {Q' : β → TableRow → Prop} {xs : List α} {ys : List β} (h : OnePerRow P Q xs)
    (h' : OnePerRow P Q' ys) : xs.length ≤ ys.length := by
  refine length_le_of_partners (Q := fun x y => ∃ r, P r ∧ Q x r ∧ Q' y r) (fun x hx => ?_) ?_
  · obtain ⟨r, hr, hq⟩ := h.row x hx
    obtain ⟨y, hy, hq'⟩ := h'.all r hr
    exact ⟨y, hy, r, hr, hq, hq'⟩
  · refine h.apart.imp fun {x z} hxz y hx hz => ?_
    obtain ⟨r, hr, hx, hy⟩ := hx
    obtain ⟨s, hs, hz, hy'⟩ := hz
    obtain rfl := h'.same y r s hr hs hy hy'
    exact hxz r hr hx hz

/-- As many as the rows that they stand for. -/
theorem OnePerRow.length_eq {P : TableRow → Prop} {Q : α → TableRow → Prop}
    {Q' : β → TableRow → Prop} {xs : List α} {ys : List β} (h : OnePerRow P Q xs)
    (h' : OnePerRow P Q' ys) : xs.length = ys.length :=
  Nat.le_antisymm (h.length_le h') (h'.length_le h)

end

variable {ι : Type} {schema : Schema ι} {root : ι}

/-! ## Statements -/

/-- A query resolves to the parts of a SELECT, which is their text. -/
structure Plan.Selects (schema : Schema ι) (p : Plan ι) (r : ResolvedSelect ι) (t : Scope)
    (c : Compiled ι) : Prop where
  resolves : Yields (p.resolve schema p.select false true) {} r t
  writes : p.Writes schema r t.joins c

/-- What a count counts: rows of joined tables, or those of a SELECT. -/
inductive Counting (ι : Type) where
  | plain (filters : List (Expression ι)) (tables : Scope)
  | nested (r : ResolvedSelect ι) (tables : Scope)

/-- A query resolves to the parts of a count, which is their text. -/
def Plan.CountsBy (schema : Schema ι) (p : Plan ι) (k : Compiled ι) : Counting ι → Prop
  | .plain filters t => p.paged = false ∧ p.distinct = false ∧
    Yields (p.resolveConditions schema) {} filters t ∧ ∃ predicates,
      Yields (Expression.writeAll schema (p.nestedIn schema) filters) [] predicates k.statement.args ∧
      k.statement.sql = .text "SELECT " :: (schema p.model).countedSql t.toMany ++
        [.text " FROM ", .ident [(schema p.model).table]] ++ joinsSql t.joins ++ whereSql predicates
  | .nested r t => (p.paged || p.distinct) = true ∧
    Yields (p.unordered.resolve schema p.select true true) {} r t ∧ ∃ sub : Compiled ι,
      p.unordered.Writes schema r t.joins sub ∧ sub.statement.args = k.statement.args ∧
      k.statement.sql = .text "SELECT " :: r.fullScan.countedSql ++ [.text " FROM ("] ++
        sub.statement.sql ++ [.text ") AS ", .ident ["djorm_count"]]

/-- What a count of a query counts. -/
def Plan.counting? (schema : Schema ι) (p : Plan ι) : Option (Counting ι) :=
  if p.paged || p.distinct then
    match outcome (p.unordered.resolve schema p.select true true) {} with
    | (.ok r, t) => some (.nested r t)
    | (.error _, _) => none
  else
    match outcome (p.resolveConditions schema) {} with
    | (.ok filters, t) => some (.plain filters t)
    | (.error _, _) => none

theorem Plan.CountsBy.counting {p : Plan ι} {k : Compiled ι} :
    ∀ {q : Counting ι}, p.CountsBy schema k q → p.counting? schema = some q
  | .plain filters t, ⟨hpaged, hdistinct, hres, _⟩ => by
    rw [counting?, hpaged, hdistinct, if_neg (by decide), hres]
  | .nested r t, ⟨hwindow, hres, _⟩ => by
    rw [counting?, if_pos hwindow, hres]

theorem compileSelect_selects {p : Plan ι} {c : Compiled ι} (h : compileSelect schema p = .ok c) :
    ∃ r t, p.Selects schema r t c := by
  obtain ⟨sql, scan, args, hw, rfl⟩ := compileSelect_cases h
  obtain ⟨r, t, computed, mid, predicates, hres, hcomp, hpred, hout⟩ := Plan.writeSelect_cases hw
  obtain ⟨rfl, rfl⟩ := Prod.mk.inj hout
  exact ⟨r, t, hres, computed, mid, predicates, hcomp, hpred, rfl, rfl⟩

theorem compileCount_counts {p : Plan ι} {k : Compiled ι} (h : compileCount schema p = .ok k) :
    ∃ q, p.CountsBy schema k q := by
  obtain ⟨-, sql, args, hw, rfl⟩ := compileCount_cases h
  split at hw
  · rename_i hp
    obtain ⟨sub, scan, hs, rfl⟩ := writeCountNested_cases hw
    obtain ⟨r, t, computed, mid, predicates, hres, hcomp, hpred, hout⟩ := Plan.writeSelect_cases hs
    obtain ⟨rfl, rfl⟩ := Prod.mk.inj hout
    exact ⟨.nested r t, hp, hres, { statement := ⟨_, args⟩, scan := r.fullScan },
      ⟨computed, mid, predicates, hcomp, hpred, rfl, rfl⟩, rfl, rfl⟩
  · rename_i hp
    obtain ⟨hpaged, hdistinct⟩ := Bool.or_eq_false_iff.1 (Bool.eq_false_iff.2 hp)
    obtain ⟨filters, t, predicates, hres, hpred, rfl⟩ := writeCountPlain_cases hw
    exact ⟨.plain filters t, hpaged, hdistinct, hres, predicates, hpred, rfl⟩

/-! ## Answers -/

namespace Engine

variable (E : Engine ι) (db : Contents)

/-- The rows that FROM and its joins give. -/
def source (table : String) (joins : List Join) : List JoinedRow :=
  E.joined db joins ((db table).map (Function.update (fun _ => nullRow) table))

/-- Those of them that WHERE keeps. -/
def matched (table : String) (joins : List Join) (filters : List (Expression ι)) : List JoinedRow :=
  (E.source db table joins).filter (E.keeps table filters)

/-- The value of a column of a SELECT. -/
def shown (s : ScanPlan ι) (x : JoinedRow) (e : ScanEntry ι) : Value :=
  match e.target with
  | .field node f => E.reads x [(s.nodes[node]?.map (·.tableAlias)).getD "", f.column]
  | .computed name => E.reads x [name]

/-- The values of all of them, those of the computed ones last. -/
def shows (table : String) (r : ResolvedSelect ι) (x : JoinedRow) : List Value :=
  r.scan.entries.map (E.shown r.scan x) ++
    r.annotations.map fun e => E.computes e.2.bare (x table) (e.2.columns.map (E.reads x))

/--
A SELECT is answered by rows: those of the joined tables that are kept, one of each if it is DISTINCT, in an
order that ORDER BY decides on, and of them those within the window.
-/
def Answers (schema : Schema ι) (p : Plan ι) (r : ResolvedSelect ι) (joins : List Join)
    (rows : List (List Value)) : Prop :=
  let table := (schema p.model).table
  let selected := (E.matched db table joins r.filters).map (E.shows table r)
  ∃ listed ordered,
    (if p.distinct then OneOfEach (List.Forall₂ E.alike) selected listed else listed = selected) ∧
      ordered.Perm listed ∧ rows = window p.limit p.offset ordered

/-- The number of distinct values that are not NULL. -/
def CountsDistinct (values : List Value) (n : Nat) : Prop :=
  ∃ out, OneOfEach E.alike (values.filter fun v => !v.isNull) out ∧ n = out.length

/-- The number that a count gives. -/
def Counts (schema : Schema ι) (p : Plan ι) : Counting ι → Nat → Prop
  | .plain filters t, n =>
    let table := (schema p.model).table
    let rows := E.matched db table t.joins filters
    match (schema p.model).pk? with
    | some pk =>
      if t.toMany then E.CountsDistinct (rows.map fun x => E.reads x [table, pk.column]) n
      else n = rows.length
    | none => n = rows.length
  | .nested r t, n => ∃ rows, E.Answers db schema p.unordered r t.joins rows ∧
    match r.fullScan.rootKey.bind fun i => r.fullScan.entries[i]? with
    | some e =>
      if r.fullScan.groupRows then
        E.CountsDistinct (rows.map fun row =>
          ((r.fullScan.columnAliases.zip row).lookup e.columnAlias).getD .null) n
      else n = rows.length
    | none => n = rows.length

theorem alikeRows (E : Engine ι) : Equivalence (List.Forall₂ E.alike) where
  refl _ := List.forall₂_same.2 fun v _ => E.equivalence.refl v
  symm h := h.flip.imp fun _ _ hvw => E.equivalence.symm hvw
  trans h h' := forall₂_trans h h' fun _ _ _ _ _ hvw hwx => E.equivalence.trans hvw hwx

/-! ### Answers that can be computed -/

section

variable [DecidableRel E.alike]

/-- The answer that keeps the order in which the joins find rows. -/
def answer (schema : Schema ι) (p : Plan ι) (r : ResolvedSelect ι) (joins : List Join) :
    List (List Value) :=
  let table := (schema p.model).table
  let selected := (E.matched db table joins r.filters).map (E.shows table r)
  window p.limit p.offset <|
    if p.distinct then selected.pwFilter fun x y => ¬ List.Forall₂ E.alike x y else selected

theorem answers_answer (p : Plan ι) (r : ResolvedSelect ι) (joins : List Join) :
    E.Answers db schema p r joins (E.answer db schema p r joins) := by
  refine ⟨_, _, ?_, List.Perm.refl _, rfl⟩
  split
  · exact oneOfEach_pwFilter E.alikeRows _
  · rfl

def countDistinct (values : List Value) : Nat :=
  ((values.filter fun v => !v.isNull).pwFilter fun v w => ¬ E.alike v w).length

theorem countsDistinct_countDistinct (values : List Value) :
    E.CountsDistinct values (E.countDistinct values) :=
  ⟨_, oneOfEach_pwFilter E.equivalence _, rfl⟩

/-- The number that a count gives where a SELECT within it has that answer. -/
def count (schema : Schema ι) (p : Plan ι) : Counting ι → Nat
  | .plain filters t =>
    let table := (schema p.model).table
    let rows := E.matched db table t.joins filters
    match (schema p.model).pk? with
    | some pk =>
      if t.toMany then E.countDistinct (rows.map fun x => E.reads x [table, pk.column])
      else rows.length
    | none => rows.length
  | .nested r t =>
    let rows := E.answer db schema p.unordered r t.joins
    match r.fullScan.rootKey.bind fun i => r.fullScan.entries[i]? with
    | some e =>
      if r.fullScan.groupRows then
        E.countDistinct (rows.map fun row =>
          ((r.fullScan.columnAliases.zip row).lookup e.columnAlias).getD .null)
      else rows.length
    | none => rows.length

theorem counts_count (p : Plan ι) : ∀ q : Counting ι, E.Counts db schema p q (E.count db schema p q)
  | .plain filters t => by
    unfold Counts count
    dsimp only
    split
    · split
      · exact E.countsDistinct_countDistinct _
      · rfl
    · rfl
  | .nested r t => by
    refine ⟨_, E.answers_answer db p.unordered r t.joins, ?_⟩
    unfold count
    dsimp only
    split
    · split
      · exact E.countsDistinct_countDistinct _
      · rfl
    · rfl

/-- How many instances a query has, and how many a count of it says that there are. -/
def tally [DecidableEq ι] (schema : Schema ι) (p : Plan ι) : Option (Nat × Nat) :=
  match outcome (p.resolve schema p.select false true) {} with
  | (.ok r, t) =>
    match materialize schema r.fullScan (E.answer db schema p r t.joins) (fun _ => false) with
    | .ok out => (p.counting? schema).map fun q => (out.length, E.count db schema p q)
    | .error _ => none
  | (.error _, _) => none

theorem tally_eq [DecidableEq ι] {p : Plan ι} {r : ResolvedSelect ι} {t : Scope} {c k : Compiled ι}
    {q : Counting ι} {m n : Nat} (hs : p.Selects schema r t c) (hq : p.CountsBy schema k q)
    (h : E.tally db schema p = some (m, n)) :
    ∃ out, materialize schema c.scan (E.answer db schema p r t.joins) (fun _ => false) = .ok out ∧
      out.length = m ∧ E.count db schema p q = n := by
  obtain ⟨-, -, -, -, -, -, hscan⟩ := hs.writes
  rw [tally, hs.resolves] at h
  dsimp only at h
  rw [← hscan, hq.counting] at h
  split at h
  · rename_i out hm
    obtain ⟨hlength, hcount⟩ := Prod.mk.inj (Option.some.inj h)
    exact ⟨out, hm, hlength, hcount⟩
  · cases h

end

variable {E db}

/-- SELECTs with one window that list the same rows are answered by as many. -/
theorem Answers.length_eq {p q : Plan ι} {r s : ResolvedSelect ι} {joins more : List Join}
    {rows rows' : List (List Value)} (h : E.Answers db schema p r joins rows)
    (h' : E.Answers db schema q s more rows') (hd : p.distinct = q.distinct)
    (hlimit : p.limit = q.limit) (hoffset : p.offset = q.offset)
    (hsame : (E.matched db (schema p.model).table joins r.filters).map
        (E.shows (schema p.model).table r) =
      (E.matched db (schema q.model).table more s.filters).map (E.shows (schema q.model).table s)) :
    rows.length = rows'.length := by
  obtain ⟨listed, ordered, hlisted, hperm, rfl⟩ := h
  obtain ⟨listed', ordered', hlisted', hperm', rfl⟩ := h'
  rw [hlimit, hoffset]
  refine length_window ?_
  rw [hperm.length_eq, hperm'.length_eq]
  rw [hsame, hd] at hlisted
  split at hlisted
  · rename_i hdistinct
    rw [if_pos hdistinct] at hlisted'
    exact hlisted.length_eq E.alikeRows hlisted'
  · rename_i hdistinct
    rw [if_neg hdistinct] at hlisted'
    rw [hlisted, hlisted']

/-- A SELECT that is neither paged nor DISTINCT gives all rows that are kept. -/
theorem Answers.length_plain {p : Plan ι} {r : ResolvedSelect ι} {joins : List Join}
    {rows : List (List Value)} (h : E.Answers db schema p r joins rows) (hp : p.paged = false)
    (hd : p.distinct = false) :
    rows.length = (E.matched db (schema p.model).table joins r.filters).length := by
  obtain ⟨listed, ordered, hlisted, hperm, rfl⟩ := h
  rw [hd, if_neg Bool.false_ne_true] at hlisted
  rw [window_unpaged hp, hperm.length_eq, hlisted, List.length_map]

/-- Without a window a SELECT gives rows that it lists, and something alike for each. -/
theorem Answers.unpaged {p : Plan ι} {r : ResolvedSelect ι} {joins : List Join}
    {rows : List (List Value)} (h : E.Answers db schema p r joins rows) (hp : p.paged = false) :
    (∀ row ∈ rows, ∃ x ∈ E.matched db (schema p.model).table joins r.filters,
        row = E.shows (schema p.model).table r x) ∧
      ∀ x ∈ E.matched db (schema p.model).table joins r.filters,
        ∃ row ∈ rows, List.Forall₂ E.alike (E.shows (schema p.model).table r x) row := by
  obtain ⟨listed, ordered, hlisted, hperm, rfl⟩ := h
  rw [window_unpaged hp]
  simp only [hperm.mem_iff]
  split at hlisted
  · refine ⟨fun row hrow => ?_, fun x hx => hlisted.all _ (List.mem_map_of_mem hx)⟩
    obtain ⟨x, hx, rfl⟩ := List.mem_map.1 (hlisted.mem row hrow)
    exact ⟨x, hx, rfl⟩
  · subst hlisted
    refine ⟨fun row hrow => ?_, fun x hx => ⟨_, List.mem_map_of_mem hx, E.alikeRows.refl _⟩⟩
    obtain ⟨x, hx, rfl⟩ := List.mem_map.1 hrow
    exact ⟨x, hx, rfl⟩

/-! ## Columns -/

/-- The values of the columns of a SELECT on rows at places. -/
def showsAt (E : Engine ι) (schema : Schema ι) (root : ι) (s : ScanPlan ι) (nodes : List (List (Hop ι)))
    (annotations : List (String × Expression ι)) (σ : Placing ι) : List Value :=
  s.entries.map (fun e =>
      match e.target with
      | .field node f => σ ((nodes[node]?).getD []) f.column
      | .computed _ => .null) ++
    annotations.map fun e => E.computes e.2.bare (σ []) (e.2.paths.map (valueAt schema root σ))

theorem shows_eq {root : ι} {r : ResolvedSelect ι} {a : Aliases} {nodes places : List (List (Hop ι))}
    {annotations : List (String × Expression ι)} {x : JoinedRow} {σ : Placing ι}
    (hs : ScanAt schema root a r.scan nodes)
    (ha : r.annotations = annotations.map fun e => (e.1, e.2.withColumns (columnAt schema root a)))
    (hf : ∀ e ∈ annotations, e.2.Fresh) (hx : σ.Agrees schema root a places x) (hroot : [] ∈ places)
    (hnodes : ∀ c ∈ nodes, c ∈ places) (hcover : Covers schema root (annotations.map (·.2)) places) :
    E.shows (schema root).table r x = E.showsAt schema root r.scan nodes annotations σ := by
  have hfields : ∀ e ∈ r.scan.entries, E.shown r.scan x e =
      match e.target with
      | .field node f => σ ((nodes[node]?).getD []) f.column
      | .computed _ => .null := by
    intro e he
    obtain ⟨i, f, n, hn, -, -, rfl⟩ := hs.entry e he
    obtain ⟨c, hc, hat⟩ := hs.place_of_node hn
    simp only [shown, hn, hc, Option.map_some, Option.getD_some, reads, hat.tableAlias,
      hx c (hnodes c (List.mem_of_getElem? hc))]
  have hcomputed : ∀ e ∈ annotations,
      E.computes (e.2.withColumns (columnAt schema root a)).bare (x (schema root).table)
          ((e.2.withColumns (columnAt schema root a)).columns.map (E.reads x)) =
        E.computes e.2.bare (σ []) (e.2.paths.map (valueAt schema root σ)) := by
    intro e he
    have hvalues : (e.2.paths.map (columnAt schema root a)).map (E.reads x) =
        e.2.paths.map (valueAt schema root σ) := by
      rw [List.map_map]
      exact List.map_congr_left fun path hpath => reads_columnAt hx fun w hw =>
        hcover.crossed_mem hroot (List.mem_map_of_mem he) hpath hw
    have htable : x (schema root).table = σ [] := hx [] hroot
    rw [Expression.bare_withColumns, Expression.columns_withColumns _ (hf e he), htable, hvalues]
  rw [shows, showsAt, List.map_congr_left hfields, ha, List.map_map]
  exact congrArg _ (List.map_congr_left hcomputed)

/-! ## Values of a key -/

/-- Values of a column, among them one for each row of which something holds. -/
structure KeyColumn (E : Engine ι) (P : TableRow → Prop) (column : String) (values : List Value) :
    Prop where
  row : ∀ v ∈ values, ∃ r, P r ∧ v = r column
  all : ∀ r, P r → ∃ v ∈ values, E.alike (r column) v

variable {P : TableRow → Prop} {rows : List TableRow} {values : List Value}

/-- Distinct values of a key are one for each row. -/
theorem KeyColumn.onePerRow {column : String} {n : Nat} (h : E.KeyColumn P column values)
    (hP : ∀ r, P r → r ∈ rows) (hnull : ∀ r ∈ rows, r column ≠ .null)
    (hkey : E.Unrepeated rows column) (hn : E.CountsDistinct values n) :
    ∃ out, n = out.length ∧ OnePerRow P (fun v r => E.alike v (r column)) out := by
  obtain ⟨out, hout, hn⟩ := hn
  have hfilter : values.filter (fun v => !v.isNull) = values := by
    refine List.filter_eq_self.2 fun v hv => ?_
    obtain ⟨r, hr, rfl⟩ := h.row v hv
    have hnot := hnull r (hP r hr)
    cases hval : r column <;> simp_all [Value.isNull]
  rw [hfilter] at hout
  refine ⟨out, hn, fun v hv => ?_, fun r hr => ?_, fun v r s hr hs hvr hvs => ?_, ?_⟩
  · obtain ⟨r, hr, rfl⟩ := h.row v (hout.mem v hv)
    exact ⟨r, hr, E.equivalence.refl _⟩
  · obtain ⟨v, hv, hrv⟩ := h.all r hr
    obtain ⟨w, hw, hvw⟩ := hout.all v hv
    exact ⟨w, hw, E.equivalence.symm (E.equivalence.trans hrv hvw)⟩
  · exact hkey.eq (hP r hr) (hP s hs) (hnull r (hP r hr))
      (E.equivalence.trans (E.equivalence.symm hvr) hvs) (hnull s (hP s hs))
  · exact hout.apart.imp fun hvw r _ hvr hwr =>
      hvw (E.equivalence.trans hvr (E.equivalence.symm hwr))

/-- Texts of a key that tell rows apart are one for each row. -/
theorem KeyColumn.texts {f : FieldDef ι} {keys : List (Option String)} (h : E.KeyColumn P f.column values)
    (hP : ∀ r, P r → r ∈ rows) (hnull : ∀ r ∈ rows, r f.column ≠ .null)
    (hkey : E.Unrepeated rows f.column) (htold : (rows.map fun r => f.keyOf (r f.column)).Nodup)
    (hkeys : keys.Nodup) (hmem : ∀ k, k ∈ keys ↔ ∃ v ∈ values, k = f.keyOf v) :
    OnePerRow P (fun k r => k = f.keyOf (r f.column)) keys := by
  refine ⟨fun k hk => ?_, fun r hr => ?_, fun k r s hr hs hkr hks => ?_, ?_⟩
  · obtain ⟨v, hv, rfl⟩ := (hmem k).1 hk
    obtain ⟨r, hr, rfl⟩ := h.row v hv
    exact ⟨r, hr, rfl⟩
  · obtain ⟨v, hv, hrv⟩ := h.all r hr
    obtain ⟨s, hs, rfl⟩ := h.row v hv
    obtain rfl : r = s := hkey.eq (hP r hr) (hP s hs) (hnull r (hP r hr)) hrv (hnull s (hP s hs))
    exact ⟨_, (hmem _).2 ⟨_, hv, rfl⟩, rfl⟩
  · exact List.inj_on_of_nodup_map htold (hP r hr) (hP s hs) (hkr.symm.trans hks)
  · exact hkeys.imp fun hne r _ hkr hlr => hne (hkr.trans hlr.symm)

end Engine

end Orm
