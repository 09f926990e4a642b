import Orm.Proofs.Paging
import Orm.Proofs.Script.Steps
import Orm.Proofs.Tree.First
import Orm.Verb.Reading

/-
The first instance of a query (`first_of_all`). `first` asks for one row in place of the rows that the
query is limited to. So it is the head of `all`, unless later rows of the window belong to the same
instance, of which it then has only what the first row brings, or the query is limited to no rows at all.
-/

namespace Orm

variable {ι ρ σ : Type}

/-- The rows within a window. -/
def window {α : Type} (limit offset : Option Nat) (rows : List α) : List α :=
  let rest := rows.drop (offset.getD 0)
  match limit with
  | none => rest
  | some n => rest.take n

/-- A window of one row begins as any other does that is not empty. -/
theorem window_one {α : Type} {limit : Option Nat} (h : limit ≠ some 0) (offset : Option Nat)
    (rows : List α) : window (some 1) offset rows = (window limit offset rows).take 1 := by
  cases limit with
  | none => rfl
  | some n =>
    have hn : 1 ≤ n := Nat.one_le_iff_ne_zero.2 fun hz => h (hz ▸ rfl)
    rw [window, window, List.take_take, Nat.min_eq_left hn]

namespace Environment

/-- Whatever has been reported in the world, the executor answers a SELECT with a window by those rows
of its result that are within it, and reading them is not called off. -/
def Serves (env : Environment ι ρ σ) (db : Executor) (w : World ρ σ) (c : Compiled ι)
    (rows : List Row) (limit offset : Option Nat) : Prop :=
  ∀ log, ∃ v, Yields (env.runStatement db .query (c.windowed limit offset).statement)
    { w with log } (window limit offset rows) v ∧ ∀ i, Script.watching env db v i = false

variable [DecidableEq ι] {env : Environment ι ρ σ} {db : Executor} {w : World ρ σ}
  {p : Plan ι} {c : Compiled ι} {rows : List Row}

/-- The instances of a SELECT that is answered are those of the rows in the answer. -/
theorem select_answered {v : World ρ σ}
    (h : Yields (env.runStatement db .query c.statement) w rows v) :
    outcome (env.select db c) w =
      (materialize env.schema c.scan (rows.map (·.values)) (Script.watching env db v),
        env.reading v rows.length) := by
  have hbind := outcome_bind (env.runStatement db .query c.statement) (fun rows : List Row => do
    let calledOff ← db.watch env rows.length
    Effect.ofResult (materialize env.schema c.scan (rows.map (·.values)) calledOff)) w
  rw [h] at hbind
  exact hbind

/-- The instances of a query are those of the rows within its window. -/
theorem all_served (hs : env.Serves db w c rows p.limit p.offset)
    (hc : compileSelect env.schema p.unpaged = .ok c) :
    (outcome (env.all db p) w).1 = materialize env.schema c.scan
      ((window p.limit p.offset rows).map (·.values)) fun _ => false := by
  obtain ⟨v, hv, hoff⟩ := hs (w.log ++ verbSpan "all" (env.schema p.model).table)
  have hcompile : compileSelect env.schema p = .ok (c.windowed p.limit p.offset) := by
    rw [compileSelect_unpaged, hc]
    rfl
  rw [Environment.all, hcompile, outcome_bind]
  change (outcome (env.select db _) _).1 = _
  rw [select_answered hv, ← funext hoff]
  rfl

/-- The first instance of a query is that of the one row within its window of one row. -/
theorem first_served (hs : env.Serves db w c rows (some 1) p.offset)
    (hc : compileSelect env.schema p.unpaged = .ok c) :
    (outcome (env.first db p) w).1 = (materialize env.schema c.scan
      ((window (some 1) p.offset rows).map (·.values)) fun _ => false).map List.head? := by
  have hall : (outcome (env.all db (p.limited 1)) w).1 = materialize env.schema c.scan
      ((window (some 1) p.offset rows).map (·.values)) fun _ => false := all_served hs hc
  rw [← hall, Environment.first, outcome_bind]
  rcases outcome (env.all db (p.limited 1)) w with ⟨_ | _, _⟩ <;> rfl

/--
The first instance of a query that is not limited to no rows: there is one if there are any, it has the
columns of the head of all, and it is the head of all unless rows are grouped and a later row of the
window has the first one's key.
-/
theorem first_of_all {out : List (Instance ι)}
    (hwindow : env.Serves db w c rows p.limit p.offset)
    (hfirst : env.Serves db w c rows (some 1) p.offset)
    (hc : compileSelect env.schema p.unpaged = .ok c) (hlimit : p.limit ≠ some 0)
    (h : (outcome (env.all db p) w).1 = .ok out) :
    ∃ o, (outcome (env.first db p) w).1 = .ok o ∧ (o = none ↔ out = []) ∧
      (∀ x ∈ o, ∀ y ∈ out.head?, x.SameColumns env.schema y) ∧
      ((c.scan.groupRows = true →
          c.scan.HeadAlone ((window p.limit p.offset rows).map (·.values))) → o = out.head?) := by
  rw [all_served hwindow hc] at h
  rw [first_served hfirst hc, window_one hlimit, List.map_take]
  generalize (window p.limit p.offset rows).map (·.values) = values at h ⊢
  cases values with
  | nil =>
    obtain rfl := Except.ok.inj h
    exact ⟨none, rfl, by simp, by simp, fun _ => rfl⟩
  | cons row rest =>
    obtain ⟨x, y, ys, rfl, hx, hcolumns, halone⟩ := materialize_first h
    refine ⟨some x, congrArg (Except.map List.head?) hx, by simp, fun x' hx' y' hy' => ?_,
      fun hgroup => congrArg some (halone hgroup)⟩
    obtain rfl := Option.some.inj hx'
    obtain rfl := Option.some.inj hy'
    exact hcolumns

end Environment

/-- The windows that `all` and `first` ask for. -/
def Plan.windows (p : Plan ι) : List (Option Nat × Option Nat) :=
  [(p.limit, p.offset), (some 1, p.offset)]

/-- The one of some windows that a text asks for. -/
def Compiled.asked (c : Compiled ι) (windows : List (Option Nat × Option Nat)) (sql : String) :
    Option (Option Nat × Option Nat) :=
  windows.find? fun w => (c.windowed w.1 w.2).statement.sql.print .sqlite == sql

/-- A database that has the rows of one SELECT, and answers some windows of them. -/
def Sample.paging (c : Compiled Sample) (rows : List Row)
    (windows : List (Option Nat × Option Nat)) : Environment Sample Empty Unit where
  schema := Sample.schema
  driver := "sqlite"
  dialect := .sqlite
  answer
    | .execute, _, _, _ => ({ result := .ok (0 : Nat) }, ())
    | .query, sql, _, _ =>
      ({ result := .ok ((c.asked windows sql).elim [] fun w => window w.1 w.2 rows) }, ())
    | .insert, _, _, _ => ({ result := .ok .null }, ())
  react := nofun
  receiverFires := nofun
  rowFires _ _ := []

/-- Whether the texts of some windows tell them apart. -/
def Compiled.apart (c : Compiled ι) (windows : List (Option Nat × Option Nat)) : Bool :=
  windows.all fun w =>
    c.asked windows ((c.windowed w.1 w.2).statement.sql.print .sqlite) == some w

theorem Sample.paging_serves {p : Plan Sample} {c : Compiled Sample}
    (h : c.apart p.windows = true) (rows : List Row) :
    (Sample.paging c rows p.windows).Serves .connection { outside := () } c rows p.limit p.offset ∧
      (Sample.paging c rows p.windows).Serves .connection { outside := () } c rows (some 1)
        p.offset := by
  have hserves : ∀ limit offset, (limit, offset) ∈ p.windows →
      (Sample.paging c rows p.windows).Serves .connection { outside := () } c rows limit offset := by
    refine fun limit offset hmem log => ⟨_, Prod.ext ?_ rfl, fun _ => rfl⟩
    exact congrArg (fun asked => Except.ok (asked.elim [] fun w => window w.1 w.2 rows))
      (beq_iff_eq.1 (List.all_eq_true.1 h _ hmem))
  exact ⟨hserves _ _ List.mem_cons_self, hserves _ _ (List.mem_cons_of_mem _ List.mem_cons_self)⟩

/-- A todo and a tag of it. -/
def Sample.tagged (todo tag : Value) : Row where
  columns := ["todos_id", "tags_id_tags_1_id"]
  values := [todo, tag]
  sameLength := rfl

/-- Todos with their tags, but for the first row, and two rows at most. -/
def tagsOfTodos : Plan Sample where
  model := .todo
  select := ["id", "tags.id"]
  limit := some 2
  offset := some 1

/-- Three todos, the last one with two tags. -/
def rowsOfTags : List Row :=
  [Sample.tagged (.int 1) (.int 5), Sample.tagged (.int 2) (.int 6),
    Sample.tagged (.int 3) (.int 7), Sample.tagged (.int 3) (.int 8)]

theorem tagsOfTodos_first : ∃ (c : Compiled Sample) (out : List (Instance Sample)),
    compileSelect Sample.schema tagsOfTodos.unpaged = .ok c ∧ c.scan.groupRows = true ∧
      (outcome ((Sample.paging c rowsOfTags tagsOfTodos.windows).all .connection tagsOfTodos)
        { outside := () }).1 = .ok out ∧ out.length = 2 ∧
      (outcome ((Sample.paging c rowsOfTags tagsOfTodos.windows).first .connection tagsOfTodos)
        { outside := () }).1 = .ok out.head? := by
  obtain ⟨c, hc⟩ : ∃ c, compileSelect Sample.schema tagsOfTodos.unpaged = .ok c :=
    exists_eq_ok (by decide +kernel)
  have hchecked : (compileSelect Sample.schema tagsOfTodos.unpaged).toOption.all (fun c =>
      c.apart tagsOfTodos.windows && c.scan.groupRows &&
      decide (c.scan.HeadAlone ((window (some 2) (some 1) rowsOfTags).map (·.values))) &&
      (materialize Sample.schema c.scan ((window (some 2) (some 1) rowsOfTags).map (·.values))
        fun _ => false).toOption.any (·.length == 2)) = true := by
    decide +kernel
  rw [hc] at hchecked
  simp only [Except.toOption, Option.all_some, Bool.and_eq_true, decide_eq_true_eq] at hchecked
  obtain ⟨⟨⟨hapart, hgroup⟩, halone⟩, hout⟩ := hchecked
  obtain ⟨hwindow, hone⟩ := Sample.paging_serves hapart rowsOfTags
  have hall := Environment.all_served hwindow hc
  cases hm : materialize Sample.schema c.scan
      ((window (some 2) (some 1) rowsOfTags).map (·.values)) fun _ => false with
  | error e => simp [hm] at hout
  | ok out =>
    obtain ⟨o, ho, -, -, hhead⟩ := Environment.first_of_all hwindow hone hc (by decide)
      (hall.trans hm)
    refine ⟨c, out, hc, hgroup, hall.trans hm, by simpa [hm] using hout, ?_⟩
    rw [← hhead fun _ => halone]
    exact ho

/-- Todos with their tags. -/
def allTagsOfTodos : Plan Sample where
  model := .todo
  select := ["id", "tags.id"]

/-- No todos. -/
def noTodos : Plan Sample where
  model := .todo
  select := ["id"]
  limit := some 0

/-- How many tags a todo has been given. -/
def Instance.tagCount (x : Instance Sample) : Option Nat :=
  (x.relatedMany Sample.schema "tags").toOption.map List.length

/-- What `all` and `first` give of some rows is, given their windows, what these are made into. -/
theorem Sample.paging_runs {p : Plan Sample} {c : Compiled Sample} (rows : List Row)
    {out : List (Instance Sample)} {o : Option (Instance Sample)}
    (hc : compileSelect Sample.schema p.unpaged = .ok c) (h : c.apart p.windows = true)
    (hall : materialize Sample.schema c.scan ((window p.limit p.offset rows).map (·.values))
      (fun _ => false) = .ok out)
    (hfirst : (materialize Sample.schema c.scan ((window (some 1) p.offset rows).map (·.values))
      fun _ => false).map List.head? = .ok o) :
    (outcome ((Sample.paging c rows p.windows).all .connection p) { outside := () }).1 = .ok out ∧
      (outcome ((Sample.paging c rows p.windows).first .connection p) { outside := () }).1 = .ok o := by
  obtain ⟨hwindow, hone⟩ := Sample.paging_serves h rows
  exact ⟨(Environment.all_served hwindow hc).trans hall, (Environment.first_served hone hc).trans hfirst⟩

/-- Whether there is one instance, which passes a test. -/
def isOne (test : Instance Sample → Bool) (r : Result (List (Instance Sample))) : Bool :=
  r.toOption.any fun out => out.length == 1 && out.all test

theorem eq_ok_of_isOne {test : Instance Sample → Bool} {r : Result (List (Instance Sample))}
    (h : isOne test r = true) : ∃ x, r = .ok [x] ∧ test x = true := by
  cases r with
  | error e => cases h
  | ok out =>
    obtain ⟨hlength, htest⟩ := Bool.and_eq_true_iff.1 h
    obtain ⟨x, rfl⟩ := List.length_eq_one_iff.1 (beq_iff_eq.1 hlength)
    exact ⟨x, rfl, List.all_eq_true.1 htest x List.mem_cons_self⟩

/-- Of a todo with two tags, the first instance has only one. And of no rows at all there is a first
one. -/
theorem first_not_head_of_all :
    (∃ (c : Compiled Sample) (x y : Instance Sample),
      let rows := [Sample.tagged (.int 1) (.int 5), Sample.tagged (.int 1) (.int 6)]
      let env := Sample.paging c rows allTagsOfTodos.windows
      compileSelect Sample.schema allTagsOfTodos.unpaged = .ok c ∧
      env.Serves .connection { outside := () } c rows none none ∧
      env.Serves .connection { outside := () } c rows (some 1) none ∧
      (outcome (env.all .connection allTagsOfTodos) { outside := () }).1 = .ok [x] ∧
      (outcome (env.first .connection allTagsOfTodos) { outside := () }).1 = .ok (some y) ∧
      x.tagCount = some 2 ∧ y.tagCount = some 1) ∧
    ∃ (c : Compiled Sample) (y : Instance Sample),
      let rows := [{ columns := ["todos_id"], values := [.int 1], sameLength := rfl }]
      let env := Sample.paging c rows noTodos.windows
      compileSelect Sample.schema noTodos.unpaged = .ok c ∧
      env.Serves .connection { outside := () } c rows (some 0) none ∧
      env.Serves .connection { outside := () } c rows (some 1) none ∧
      (outcome (env.all .connection noTodos) { outside := () }).1 = .ok [] ∧
      (outcome (env.first .connection noTodos) { outside := () }).1 = .ok (some y) := by
  constructor
  · obtain ⟨c, hc⟩ : ∃ c, compileSelect Sample.schema allTagsOfTodos.unpaged = .ok c :=
      exists_eq_ok (by decide +kernel)
    have hchecked : (compileSelect Sample.schema allTagsOfTodos.unpaged).toOption.all (fun c =>
        c.apart allTagsOfTodos.windows &&
        isOne (·.tagCount == some 2) (materialize Sample.schema c.scan
          [[.int 1, .int 5], [.int 1, .int 6]] fun _ => false) &&
        isOne (·.tagCount == some 1) (materialize Sample.schema c.scan [[.int 1, .int 5]]
          fun _ => false)) = true := by
      decide +kernel
    rw [hc] at hchecked
    simp only [Except.toOption, Option.all_some, Bool.and_eq_true] at hchecked
    obtain ⟨⟨hapart, hall⟩, hfirst⟩ := hchecked
    obtain ⟨x, hx, hcount⟩ := eq_ok_of_isOne hall
    obtain ⟨y, hy, hcount'⟩ := eq_ok_of_isOne hfirst
    have hserves := Sample.paging_serves hapart
      [Sample.tagged (.int 1) (.int 5), Sample.tagged (.int 1) (.int 6)]
    have hruns := Sample.paging_runs [Sample.tagged (.int 1) (.int 5), Sample.tagged (.int 1) (.int 6)]
      hc hapart hx (congrArg (Except.map List.head?) hy)
    exact ⟨c, x, y, hc, hserves.1, hserves.2, hruns.1, hruns.2, beq_iff_eq.1 hcount,
      beq_iff_eq.1 hcount'⟩
  · obtain ⟨c, hc⟩ : ∃ c, compileSelect Sample.schema noTodos.unpaged = .ok c :=
      exists_eq_ok (by decide +kernel)
    have hchecked : (compileSelect Sample.schema noTodos.unpaged).toOption.all (fun c =>
        c.apart noTodos.windows && isOne (fun _ => true)
          (materialize Sample.schema c.scan [[.int 1]] fun _ => false)) = true := by
      decide +kernel
    rw [hc] at hchecked
    simp only [Except.toOption, Option.all_some, Bool.and_eq_true] at hchecked
    obtain ⟨hapart, hfirst⟩ := hchecked
    obtain ⟨y, hy, -⟩ := eq_ok_of_isOne hfirst
    have hserves := Sample.paging_serves hapart
      [{ columns := ["todos_id"], values := [.int 1], sameLength := rfl }]
    have hruns := Sample.paging_runs [{ columns := ["todos_id"], values := [.int 1], sameLength := rfl }]
      hc hapart rfl (congrArg (Except.map List.head?) hy)
    exact ⟨c, y, hc, hserves.1, hserves.2, hruns.1, hruns.2⟩

end Orm
