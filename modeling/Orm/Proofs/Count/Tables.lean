import Mathlib.Data.List.Pairwise
import Orm.Proofs.Predicate.Algebra
import Orm.Proofs.Scope.Inner

/-
Rows of joined tables, as FROM, its joins and WHERE give them.

A row of joined tables has a row of each table under the table's alias. Inner and left joins work on one
row after the other (`Engine.joined_flatMap`). The joins of a relation lead from a row of its parent to
rows of its target (`Engine.along`): by left joins to one at least, and to one at most where no join leads
to many.
-/

namespace Orm

/-- A row of a table, by its columns. -/
abbrev TableRow := String → Value

/-- The rows of every table of a database. -/
abbrev Contents := String → List TableRow

/-- Rows of several tables side by side, by their aliases. -/
abbrev JoinedRow := String → TableRow

/-- What stands beside a row without a match. -/
def nullRow : TableRow := fun _ => .null

/--
What a database makes of values. A predicate or a computed value depends on the row of the root and on
the values of its columns; its own columns are left out of it, so that it does not depend on aliases.
-/
structure Engine (ι : Type) where
  /-- Whether two values are not distinct. -/
  alike : Value → Value → Prop
  equivalence : Equivalence alike
  /-- A comparison of two values by an operator. -/
  compares : String → Value → Value → Truth
  /-- Values are equal if both are there and they are not distinct. -/
  equal_iff : ∀ v w, compares "=" v w = .yes ↔ v ≠ .null ∧ w ≠ .null ∧ alike v w
  /-- A column that is not written with a table alias. -/
  elsewhere : JoinedRow → Column → Value
  /-- A comparison of a field, a template or a nested query. -/
  judges : Expression ι → TableRow → List Value → Truth
  /-- NULL is not equal to a value. -/
  judges_null : ∀ l r, Expression.Leaf.pinned l = true → judges (.leaf l) r [.null] ≠ .yes
  /-- A computed column. -/
  computes : Expression ι → TableRow → List Value → Value

/-! ## Expressions without their columns -/

namespace Expression

variable {ι : Type}

mutual
/-- An expression without the columns that it has been given. -/
def bare : Expression ι → Expression ι
  | .leaf l => .leaf { l with column := none }
  | .raw t => .raw { t with columns := none }
  | .func t => .func { t with columns := none }
  | .group connector negated children => .group connector negated (allBare children)
  | .subquery use lhs _ plan => .subquery use lhs none plan

def allBare : List (Expression ι) → List (Expression ι)
  | [] => []
  | e :: rest => bare e :: allBare rest
end

mutual
theorem bare_withColumns (f : String → Column) : ∀ e : Expression ι, (e.withColumns f).bare = e.bare
  | .leaf l => by
    rw [withColumns, bare, bare, Leaf.withColumn]
    split <;> rfl
  | .raw t | .func t => by
    rw [withColumns, bare, bare, Template.withColumns]
    split <;> rfl
  | .group connector negated children => by
    rw [withColumns, bare, bare, allBare_allWithColumns f children]
  | .subquery use lhs column plan => by
    cases lhs <;> cases column <;> rfl

theorem allBare_allWithColumns (f : String → Column) : ∀ es : List (Expression ι),
    allBare (allWithColumns f es) = allBare es
  | [] => rfl
  | e :: rest => by
    rw [allWithColumns, allBare, allBare, bare_withColumns f e, allBare_allWithColumns f rest]
end

mutual
/-- A fresh expression gets one column for each of its paths. -/
theorem columns_withColumns (f : String → Column) : ∀ {e : Expression ι}, e.Fresh →
    (e.withColumns f).columns = e.paths.map f
  | .leaf l, h => by
    rw [Fresh] at h
    simp [withColumns, Leaf.withColumn, h, columns, paths]
  | .raw t, h | .func t, h => by
    rw [Fresh] at h
    simp [withColumns, Template.withColumns, h, columns, paths]
  | .group _ _ children, h => by
    rw [Fresh] at h
    rw [withColumns, columns, paths, columnsAll_allWithColumns f h]
  | .subquery use lhs column plan, h => by
    rw [Fresh] at h
    subst h
    cases lhs <;> rfl

theorem columnsAll_allWithColumns (f : String → Column) : ∀ {es : List (Expression ι)},
    AllFresh es → columnsAll (allWithColumns f es) = (pathsAll es).map f
  | [], _ => rfl
  | e :: rest, h => by
    rw [AllFresh] at h
    rw [allWithColumns, columnsAll, pathsAll, List.map_append, columns_withColumns f h.1,
      columnsAll_allWithColumns f h.2]
end

mutual
theorem truth_withColumns (f : String → Column) (ρ : Expression ι → Truth) : ∀ e : Expression ι,
    truth ρ (e.withColumns f) = truth (fun part => ρ (part.withColumns f)) e
  | .leaf _ | .raw _ | .func _ => rfl
  | .subquery use lhs column plan => by cases lhs <;> cases column <;> rfl
  | .group connector negated children => by
    rw [withColumns, truth, truth, truths_allWithColumns f ρ children]

theorem truths_allWithColumns (f : String → Column) (ρ : Expression ι → Truth) :
    ∀ es : List (Expression ι),
      truths ρ (allWithColumns f es) = truths (fun part => ρ (part.withColumns f)) es
  | [] => rfl
  | e :: rest => by
    rw [allWithColumns, truths, truths, truth_withColumns f ρ e, truths_allWithColumns f ρ rest]
end

mutual
/-- An expression comes to what its parts come to, none of which has other paths. -/
theorem truth_congr {ρ ρ' : Expression ι → Truth} : ∀ {e : Expression ι}, e.Fresh →
    (∀ part : Expression ι, part.Fresh → part.paths ⊆ e.paths → ρ part = ρ' part) →
    truth ρ e = truth ρ' e
  | .leaf l, he, h => h (.leaf l) he (List.Subset.refl _)
  | .raw t, he, h => h (.raw t) he (List.Subset.refl _)
  | .func t, he, h => h (.func t) he (List.Subset.refl _)
  | .subquery use lhs column plan, he, h =>
    h (.subquery use lhs column plan) he (List.Subset.refl _)
  | .group connector negated children, he, h => by
    rw [Fresh] at he
    rw [truth, truth, truths_congr he h]

theorem truths_congr {ρ ρ' : Expression ι → Truth} : ∀ {es : List (Expression ι)}, AllFresh es →
    (∀ part : Expression ι, part.Fresh → part.paths ⊆ pathsAll es → ρ part = ρ' part) →
    truths ρ es = truths ρ' es
  | [], _, _ => rfl
  | e :: rest, he, h => by
    rw [AllFresh] at he
    rw [truths, truths,
      truth_congr he.1 fun part hp hs => h part hp (List.subset_append_of_subset_left _ hs),
      truths_congr he.2 fun part hp hs => h part hp (List.subset_append_of_subset_right _ hs)]
end

mutual
/-- Where an expression holds, so do the comparisons that hold wherever it does. -/
theorem truth_conjoined {ρ : Expression ι → Truth} : ∀ {e : Expression ι}, truth ρ e = .yes →
    ∀ l ∈ e.conjoined, ρ (.leaf l) = .yes
  | .leaf l, h => by
    rw [conjoined, List.forall_mem_singleton]
    exact h
  | .group .all false children, h => by
    rw [truth, truths_eq_map] at h
    exact truths_conjoined fun e he => Truth.all_eq_yes.1 h _ (List.mem_map_of_mem he)
  | .group .all true _, _ | .group .any _ _, _ | .raw _, _ | .func _, _ | .subquery .., _ => by
    simp [conjoined]

theorem truths_conjoined {ρ : Expression ι → Truth} : ∀ {es : List (Expression ι)},
    (∀ e ∈ es, truth ρ e = .yes) → ∀ l ∈ conjoinedAll es, ρ (.leaf l) = .yes
  | [], _ => List.forall_mem_nil _
  | e :: rest, h => by
    obtain ⟨he, hrest⟩ := List.forall_mem_cons.1 h
    rw [conjoinedAll, List.forall_mem_append]
    exact ⟨truth_conjoined he, truths_conjoined hrest⟩
end

end Expression

/-! ## Joins -/

/-- The kinds of join that work on one row after the other. -/
def JoinKind.RowWise (kind : JoinKind) : Prop := kind = .left ∨ kind = .inner

/-- What stands beside a row for which a join finds the given rows. -/
def beside : JoinKind → List TableRow → List TableRow
  | .left, [] => [nullRow]
  | _, rows => rows

namespace Engine

variable {ι : Type} (E : Engine ι) (db : Contents)

/-- The value of a column in a row of joined tables. -/
def reads (x : JoinedRow) : Column → Value
  | [] => .null
  | [table, name] => x table name
  | c => E.elsewhere x c

/-- Whether a row of the joined table goes with a row of those before it. -/
def meets (j : Join) (x : JoinedRow) (r : TableRow) : Bool :=
  Truth.all (j.on.map fun c =>
    E.compares c.operator (E.reads (Function.update x j.tableAlias r) c.left)
      (E.reads (Function.update x j.tableAlias r) c.right)) == .yes

/-- The rows of the joined table that go with a row of those before it. -/
def partners (j : Join) (x : JoinedRow) : List TableRow := (db j.table).filter (E.meets j x)

/-- What a join makes of the rows before it; a right join adds the rows that go with none of them. -/
def join (j : Join) (xs : List JoinedRow) : List JoinedRow :=
  (xs.flatMap fun x => (beside j.kind (E.partners db j x)).map (Function.update x j.tableAlias)) ++
    if j.kind = .right then
      ((db j.table).filter fun r => !xs.any (E.meets j · r)).map
        (Function.update (fun _ => nullRow) j.tableAlias)
    else []

/-- The rows of joined tables, from those of the tables before them. -/
def joined (joins : List Join) (xs : List JoinedRow) : List JoinedRow :=
  joins.foldl (fun xs j => E.join db j xs) xs

/-- The rows of a table that a row before it leads to. -/
def following (e : Edge) (r : TableRow) : List TableRow :=
  (db e.table).filter fun s => E.compares "=" (r e.parentColumn) (s e.column) == .yes

/-- The rows that stand beside a row once a join is made. -/
def next (kind : JoinKind) (e : Edge) (r : TableRow) : List TableRow :=
  beside kind (E.following db e r)

/-- The rows at the end of joins that start from a row. -/
def along (kind : JoinKind) : List Edge → TableRow → List TableRow
  | [], r => [r]
  | e :: es, r => (E.next db kind e r).flatMap (along kind es)

/-! ### One row after the other -/

variable {E db} {kind : JoinKind} {e : Edge} {es : List Edge} {r s : TableRow}

theorem join_of_rowWise {j : Join} (hj : j.kind.RowWise) (xs : List JoinedRow) :
    E.join db j xs =
      xs.flatMap fun x => (beside j.kind (E.partners db j x)).map (Function.update x j.tableAlias) := by
  have hright : j.kind ≠ .right := by
    rcases hj with hj | hj <;> simp [hj]
  rw [join, if_neg hright, List.append_nil]

theorem joined_append (joins more : List Join) (xs : List JoinedRow) :
    E.joined db (joins ++ more) xs = E.joined db more (E.joined db joins xs) :=
  List.foldl_append

theorem joined_flatMap {joins : List Join} (hj : ∀ j ∈ joins, j.kind.RowWise) (xs : List JoinedRow) :
    E.joined db joins xs = xs.flatMap fun x => E.joined db joins [x] := by
  induction joins generalizing xs with
  | nil => exact (List.flatMap_singleton' xs).symm
  | cons j joins ih =>
    obtain ⟨hhead, hrest⟩ := List.forall_mem_cons.1 hj
    have hone : E.join db j xs = xs.flatMap fun x => E.join db j [x] := by
      simp only [join_of_rowWise hhead, List.flatMap_singleton]
    calc E.joined db joins (E.join db j xs)
        = (xs.flatMap fun x => E.join db j [x]).flatMap fun y => E.joined db joins [y] := by
          rw [ih hrest, hone]
      _ = xs.flatMap fun x => (E.join db j [x]).flatMap fun y => E.joined db joins [y] :=
          List.flatMap_assoc
      _ = xs.flatMap fun x => E.joined db joins (E.join db j [x]) := by
          simp only [← ih hrest]

/-- A relation's join puts beside a row what the row of its parent leads to. -/
theorem join_step (hk : kind.RowWise) {x w : String} (hne : x ≠ w) (y : JoinedRow) :
    E.join db ((e.step x w).join kind) [y] =
      (E.next db kind e (y x)).map (Function.update y w) := by
  have hpartners : E.partners db ((e.step x w).join kind) y = E.following db e (y x) := by
    refine List.filter_congr fun r _ => ?_
    simp [meets, JoinStep.join, Edge.step, reads, Function.update_of_ne hne]
  rw [join_of_rowWise hk, List.flatMap_singleton, hpartners]
  rfl

/-! ### The rows that joins lead to -/

theorem following_nullRow (e : Edge) : E.following db e nullRow = [] := by
  refine List.filter_eq_nil_iff.2 fun s _ => ?_
  rw [beq_iff_eq, E.equal_iff]
  exact fun h => h.1 rfl

theorem mem_next_left : s ∈ E.next db .left e r ↔
    s ∈ E.following db e r ∨ E.following db e r = [] ∧ s = nullRow := by
  unfold next
  cases E.following db e r <;> simp [beside]

theorem next_left_ne_nil (e : Edge) (r : TableRow) : E.next db .left e r ≠ [] := by
  unfold next
  cases E.following db e r <;> simp [beside]

theorem length_next (h : (E.following db e r).length ≤ 1) : (E.next db kind e r).length ≤ 1 := by
  unfold next beside
  split
  · exact Nat.le_refl 1
  · exact h

theorem along_ne_nil (es : List Edge) (r : TableRow) : E.along db .left es r ≠ [] := by
  induction es generalizing r with
  | nil => exact List.cons_ne_nil _ _
  | cons e es ih =>
    have hne : E.next db .left e r ≠ [] := next_left_ne_nil e r
    obtain ⟨s, hs⟩ := List.exists_mem_of_ne_nil _ hne
    rw [along, Ne, List.flatMap_eq_nil_iff]
    exact fun h => ih s (h s hs)

/-- Nothing stands beside a row that is NULL itself. -/
theorem along_nullRow (es : List Edge) : E.along db .left es nullRow = [nullRow] := by
  induction es with
  | nil => rfl
  | cons e es ih => simp [along, next, beside, following_nullRow, ih]

/-- What an inner join leads to, a left join leads to as well. -/
theorem along_left_of_inner (h : s ∈ E.along db .inner es r) : s ∈ E.along db .left es r := by
  induction es generalizing r with
  | nil => exact h
  | cons e es ih =>
    rw [along, List.mem_flatMap] at h ⊢
    obtain ⟨m, hm, hs⟩ := h
    exact ⟨m, mem_next_left.2 (.inl hm), ih hs⟩

/-- A left join leads to nothing else but NULL. -/
theorem along_inner_of_left (hs : s ≠ nullRow) (h : s ∈ E.along db .left es r) :
    s ∈ E.along db .inner es r := by
  induction es generalizing r with
  | nil => exact h
  | cons e es ih =>
    rw [along, List.mem_flatMap] at h ⊢
    obtain ⟨m, hm, hsm⟩ := h
    rcases mem_next_left.1 hm with hm | ⟨-, rfl⟩
    · exact ⟨m, hm, ih hsm⟩
    · rw [along_nullRow, List.mem_singleton] at hsm
      exact absurd hsm hs

/-- Whichever join leads to a row that is not NULL, any other does so too. -/
theorem along_of_along {other : JoinKind} (hk : kind.RowWise) (ho : other.RowWise)
    (hs : other = .inner → s ≠ nullRow) (h : s ∈ E.along db kind es r) : s ∈ E.along db other es r := by
  obtain rfl | rfl := hk <;> obtain rfl | rfl := ho
  · exact h
  · exact along_inner_of_left (hs rfl) h
  · exact along_left_of_inner h
  · exact h

/-- No two rows are equal in a column. -/
def Unrepeated (E : Engine ι) (rows : List TableRow) (column : String) : Prop :=
  rows.Pairwise fun r s => E.compares "=" (r column) (s column) ≠ .yes

theorem length_following (h : E.Unrepeated (db e.table) e.column) (r : TableRow) :
    (E.following db e r).length ≤ 1 := by
  have hpair : (E.following db e r).Pairwise fun _ _ => False := by
    refine (h.sublist List.filter_sublist).imp_of_mem fun {s t} hs ht hst => hst ?_
    obtain ⟨-, hs⟩ := List.mem_filter.1 hs
    obtain ⟨-, ht⟩ := List.mem_filter.1 ht
    obtain ⟨-, hs, hrs⟩ := (E.equal_iff _ _).1 (beq_iff_eq.1 hs)
    obtain ⟨-, ht, hrt⟩ := (E.equal_iff _ _).1 (beq_iff_eq.1 ht)
    exact (E.equal_iff _ _).2 ⟨hs, ht, E.equivalence.trans (E.equivalence.symm hrs) hrt⟩
  match E.following db e r, hpair with
  | [], _ | [_], _ => simp
  | _ :: _ :: _, hpair => exact absurd (List.rel_of_pairwise_cons hpair List.mem_cons_self) not_false

/-- Rows that are equal in such a column are one row. -/
theorem Unrepeated.eq {rows : List TableRow} {column : String} (h : E.Unrepeated rows column)
    (hr : r ∈ rows) (hs : s ∈ rows) (hnull : r column ≠ .null) (hrs : E.alike (r column) (s column))
    (hnull' : s column ≠ .null) : r = s := by
  have hsymm : Std.Symm fun r s : TableRow => E.compares "=" (r column) (s column) ≠ .yes := by
    refine ⟨fun r s hne heq => hne ?_⟩
    obtain ⟨hs, hr, hsr⟩ := (E.equal_iff _ _).1 heq
    exact (E.equal_iff _ _).2 ⟨hr, hs, E.equivalence.symm hsr⟩
  by_contra hne
  exact h.forall hr hs hne ((E.equal_iff _ _).2 ⟨hnull, hnull', hrs⟩)

theorem length_along (h : ∀ e ∈ es, E.Unrepeated (db e.table) e.column) (r : TableRow) :
    (E.along db kind es r).length ≤ 1 := by
  induction es generalizing r with
  | nil => exact Nat.le_refl 1
  | cons e es ih =>
    obtain ⟨he, hes⟩ := List.forall_mem_cons.1 h
    have hnext : (E.next db kind e r).length ≤ 1 := length_next (length_following he r)
    rw [along]
    match E.next db kind e r, hnext with
    | [], _ => simp
    | [m], _ => simpa using ih hes m

/-! ## Predicates -/

variable (E)

/-- What an expression says of a row of joined tables, of which those of the root have a name. -/
def truthOf (table : String) (x : JoinedRow) (e : Expression ι) : Truth :=
  e.truth fun part => E.judges part.bare (x table) (part.columns.map (E.reads x))

/-- Whether WHERE keeps a row: only if each of its predicates holds. -/
def keeps (table : String) (filters : List (Expression ι)) (x : JoinedRow) : Bool :=
  Truth.all (filters.map (E.truthOf table x)) == .yes

end Engine

end Orm
