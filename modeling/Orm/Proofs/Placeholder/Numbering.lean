import Orm.Proofs.Statement

/-
Parameters are numbered in the order in which they are read: every writer that binds values gives a
text whose parameters, from left to right, are the numbers of the values it has bound.

`Counted` is the relation that carries this through a computation: each writer extends it by its own
values, and texts written one after the other are counted one after the other (`Counted.append`).
-/

namespace Orm

/-- The number of a parameter. -/
def Piece.param? : Piece → Option Nat
  | .param n => some n
  | _ => none

/-- The numbers of the parameters of a text, from left to right. -/
def Sql.params (sql : Sql) : List Nat := sql.filterMap Piece.param?

namespace Sql

@[simp] theorem params_nil : params [] = [] := rfl

@[simp] theorem params_param (n : Nat) (sql : Sql) : params (.param n :: sql) = n :: sql.params := rfl

@[simp] theorem params_text (s : String) (sql : Sql) : params (.text s :: sql) = sql.params := rfl

@[simp] theorem params_ident (ps : List String) (sql : Sql) :
    params (.ident ps :: sql) = sql.params := rfl

@[simp] theorem params_offset (n : Nat) (sql : Sql) : params (.offset n :: sql) = sql.params := rfl

@[simp] theorem params_emptyInsert (sql : Sql) : params (.emptyInsert :: sql) = sql.params := rfl

@[simp] theorem params_returning (cs : List String) (sql : Sql) :
    params (.returning cs :: sql) = sql.params := rfl

@[simp] theorem params_append (a b : Sql) : params (a ++ b) = a.params ++ b.params :=
  List.filterMap_append

@[simp] theorem params_ofText (s : String) : params (ofText s) = [] := rfl

@[simp] theorem params_name (s : String) : params (name s) = [] := rfl

@[simp] theorem params_join (separator : String) : ∀ parts : List Sql,
    params (join separator parts) = parts.flatMap params
  | [] => rfl
  | [p] => by simp [join]
  | p :: q :: rest => by
    have hj : join separator (p :: q :: rest) = p ++ ofText separator ++ join separator (q :: rest) :=
      rfl
    rw [hj, params_append, params_append, params_ofText, List.append_nil,
      params_join separator (q :: rest)]
    rfl

theorem params_flatMap {α : Type} {f : α → Sql} (h : ∀ a, (f a).params = []) :
    ∀ l : List α, params (l.flatMap f) = []
  | [] => rfl
  | a :: l => by rw [List.flatMap_cons, params_append, h a, params_flatMap h l, List.nil_append]

end Sql

/-- The values bound between two moments have exactly these numbers. -/
def Counted (before after : List Value) (numbers : List Nat) : Prop :=
  ∃ new, after = before ++ new ∧ numbers = List.range' (before.length + 1) new.length

namespace Counted

theorem refl (args : List Value) : Counted args args [] := ⟨[], by simp, rfl⟩

theorem append {a b c : List Value} {p q : List Nat} (h : Counted a b p) (h' : Counted b c q) :
    Counted a c (p ++ q) := by
  obtain ⟨new, rfl, rfl⟩ := h
  obtain ⟨new', rfl, rfl⟩ := h'
  refine ⟨new ++ new', by simp, ?_⟩
  rw [List.length_append, List.length_append, ← List.range'_append_1]
  congr 2
  omega

/-- What is counted from nothing is counted from one on. -/
theorem of_nil {args : List Value} {p : List Nat} (h : Counted [] args p) :
    p = List.range' 1 args.length := by
  obtain ⟨new, rfl, rfl⟩ := h
  simp

end Counted

/-- Every run counts the parameters of what it gives. -/
def Numbers {α : Type} (x : Binding α) (params : α → List Nat) : Prop :=
  ∀ args a args', Yields x args a args' → Counted args args' (params a)

theorem bindValue_numbers (v : Value) : Numbers (bindValue v) fun p => Sql.params [p] := by
  intro args p args' h
  simp only [bindValue, Yields.bind_iff, Yields.modify_iff, Yields.get_iff, Yields.pure_iff] at h
  obtain ⟨_, _, rfl, _, _, ⟨rfl, rfl⟩, rfl, rfl⟩ := h
  exact ⟨[v], by simp, by simp⟩

/-- A list of runs counts the parameters one after the other. -/
theorem Numbers.mapM {α β : Type} {f : α → Binding β} {params : β → List Nat}
    (h : ∀ a, Numbers (f a) params) : ∀ l : List α, Numbers (l.mapM f) (·.flatMap params)
  | [], args, bs, args', hy => by
    rw [List.mapM_nil, Yields.pure_iff] at hy
    obtain ⟨rfl, rfl⟩ := hy
    exact Counted.refl args
  | a :: l, args, bs, args', hy => by
    simp only [List.mapM_cons, Yields.bind_iff, Yields.pure_iff] at hy
    obtain ⟨b, t, hb, cs, u, hcs, rfl, rfl⟩ := hy
    simp only [List.flatMap_cons]
    exact (h a _ _ _ hb).append (Numbers.mapM h l _ _ _ hcs)

/-! ## Expressions -/

theorem Template.fill_numbers (t : Template) (tokens : List TemplateToken) (columns : List Column)
    (params : List Value) : Numbers (t.fill tokens columns params) Sql.params := by
  intro args sql args' h
  fun_induction Template.fill t tokens columns params generalizing args sql args' with
  | case1 =>
    obtain ⟨rfl, rfl⟩ := Yields.pure_iff.1 h
    exact Counted.refl args
  | case2 => exact absurd h Yields.not_throw
  | case3 => exact absurd h Yields.not_throw
  | case4 rest c cs ps ih =>
    simp only [Yields.bind_iff, Yields.pure_iff] at h
    obtain ⟨sql', u, h, rfl, rfl⟩ := h
    have := ih _ _ _ h
    simpa using this
  | case5 => exact absurd h Yields.not_throw
  | case6 rest cs p ps ih =>
    simp only [Yields.bind_iff, Yields.pure_iff] at h
    obtain ⟨q, u, hq, sql', v, h, rfl, rfl⟩ := h
    have := (bindValue_numbers p _ _ _ hq).append (ih _ _ _ h)
    rwa [← Sql.params_append] at this
  | case7 c rest cs ps ih =>
    simp only [Yields.bind_iff, Yields.pure_iff] at h
    obtain ⟨sql', u, h, rfl, rfl⟩ := h
    have := ih _ _ _ h
    simpa using this

theorem Template.write_numbers (t : Template) : Numbers t.write Sql.params := by
  unfold Template.write
  split
  · exact fun _ _ _ h => absurd h Yields.not_throw
  · exact t.fill_numbers _ _ _

/-- The five forms of a comparison. -/
inductive Lookup.Written (column : Sql) : List Value → Sql → List Value → Prop
  | never {args} : Written column args (.ofText "1=0") args
  | member {args args'} {items : List Value} {ps : List Piece}
    (h : Yields (items.mapM bindValue) args ps args') : Written column args
      (column ++ .ofText " IN (" ++ Sql.join ", " (ps.map ([·])) ++ .ofText ")") args'
  | pattern {args args' v q} (p : Pattern) (h : Yields (bindValue v) args q args') :
    Written column args (p.write column q) args'
  | null {args} (wanted : Bool) :
    Written column args (column ++ .ofText (if wanted then " IS NULL" else " IS NOT NULL")) args
  | compared {args args' v q} (l : Lookup) (h : Yields (bindValue v) args q args') :
    Written column args (column ++ [.text (" " ++ l.operator ++ " "), q]) args'

theorem Lookup.written_of_yields {l : Lookup} {column : Sql} {values args args' : List Value}
    {sql : Sql} (h : Yields (l.write column values) args sql args') :
    Lookup.Written column args sql args' := by
  unfold Lookup.write at h
  split at h
  · dsimp only at h
    split at h
    · obtain ⟨rfl, rfl⟩ := Yields.pure_iff.1 h
      exact .never
    · simp only [Yields.bind_iff, Yields.pure_iff] at h
      obtain ⟨ps, t, hps, rfl, rfl⟩ := h
      exact .member hps
  · simp only [Yields.bind_iff, Yields.mk_pure_iff] at h
    obtain ⟨v, _, ⟨-, rfl⟩, h⟩ := h
    split at h
    · simp only [Yields.bind_iff, Yields.pure_iff] at h
      obtain ⟨q, t, hq, rfl, rfl⟩ := h
      exact .pattern _ hq
    · split at h
      · simp only [Yields.bind_iff, Yields.mk_pure_iff, Yields.pure_iff] at h
        obtain ⟨wanted, _, ⟨-, rfl⟩, rfl, rfl⟩ := h
        exact .null wanted
      · split at h
        · obtain ⟨rfl, rfl⟩ := Yields.pure_iff.1 h
          exact .null true
        · simp only [Yields.bind_iff, Yields.pure_iff] at h
          obtain ⟨q, t, hq, rfl, rfl⟩ := h
          exact .compared .exact hq
      · simp only [Yields.bind_iff, Yields.pure_iff] at h
        obtain ⟨q, t, hq, rfl, rfl⟩ := h
        exact .compared l hq

theorem Lookup.Pattern.write_params (p : Pattern) (column : Sql) (q : Piece) :
    (p.write column q).params = column.params ++ Sql.params [q] := by
  unfold Pattern.write
  split <;> cases q <;> simp

theorem Lookup.write_numbers (l : Lookup) {column : Sql} (hc : column.params = [])
    (values : List Value) : Numbers (l.write column values) Sql.params := by
  intro args sql args' h
  cases Lookup.written_of_yields h with
  | never => exact Counted.refl args
  | member h =>
    have := Numbers.mapM bindValue_numbers _ _ _ _ h
    simpa [hc, List.flatMap_map] using this
  | pattern p h =>
    rw [p.write_params, hc, List.nil_append]
    exact bindValue_numbers _ _ _ _ h
  | null wanted => simpa [hc] using Counted.refl args
  | compared l h =>
    have := bindValue_numbers _ _ _ _ h
    simpa [hc] using this

namespace Expression

variable {ι : Type} {schema : Schema ι} {nested : Plan ι → Binding Sql}

theorem useSql_params {use : SubqueryUse} {column : Option Column} {inner sql : Sql}
    (h : useSql use column inner = .ok sql) : sql.params = inner.params := by
  unfold useSql at h
  split at h
  · split at h
    · cases h
    · cases h; simp
  all_goals cases h; simp

mutual
theorem write_numbers (hn : ∀ p, Numbers (nested p) Sql.params) :
    ∀ e : Expression ι, Numbers (e.write schema nested) Sql.params
  | .leaf l => by
    unfold write
    split
    · exact fun _ _ _ h => absurd h Yields.not_throw
    · exact l.lookup.write_numbers rfl _
  | .raw t | .func t => by
    unfold write
    exact t.write_numbers
  | .group connector negated [] => by
    intro args sql args' h
    unfold write at h
    obtain ⟨rfl, rfl⟩ := Yields.pure_iff.1 h
    cases connector <;> exact Counted.refl args
  | .group connector negated (e :: rest) => by
    intro args sql args' h
    simp only [write, Yields.bind_iff, Yields.pure_iff] at h
    obtain ⟨first, t, hf, parts, u, hp, rfl, rfl⟩ := h
    have := (write_numbers hn e _ _ _ hf).append (writeAll_numbers hn rest _ _ _ hp)
    simpa [enclose] using this
  | .subquery use lhs column plan => by
    intro args sql args' h
    simp only [write, Yields.bind_iff, Yields.mk_pure_iff] at h
    obtain ⟨q, _, ⟨-, rfl⟩, inner, t, hi, hu, rfl⟩ := h
    rw [useSql_params hu]
    exact hn q _ _ _ hi

theorem writeAll_numbers (hn : ∀ p, Numbers (nested p) Sql.params) :
    ∀ es : List (Expression ι), Numbers (writeAll schema nested es) (·.flatMap Sql.params)
  | [] => by
    intro args parts args' h
    unfold writeAll at h
    obtain ⟨rfl, rfl⟩ := Yields.pure_iff.1 h
    exact Counted.refl args
  | e :: rest => by
    intro args parts args' h
    simp only [writeAll, Yields.bind_iff, Yields.pure_iff] at h
    obtain ⟨first, t, hf, others, u, ho, rfl, rfl⟩ := h
    simp only [List.flatMap_cons]
    exact (write_numbers hn e _ _ _ hf).append (writeAll_numbers hn rest _ _ _ ho)
end

end Expression

/-! ## Statements -/

theorem OnCondition.sql_params (c : OnCondition) : c.sql.params = [] := rfl

theorem Join.sql_params (j : Join) : j.sql.params = [] := by
  unfold Join.sql
  have hon : (Sql.join " AND " (j.on.map OnCondition.sql)).params = [] := by
    simp [List.flatMap_map, OnCondition.sql_params]
  split <;> split <;> simp [hon]

@[simp] theorem joinsSql_params (joins : List Join) : (joinsSql joins).params = [] :=
  Sql.params_flatMap Join.sql_params joins

@[simp] theorem whereSql_params (parts : List Sql) :
    (whereSql parts).params = parts.flatMap Sql.params := by
  unfold whereSql
  split
  · rename_i h
    simp [List.isEmpty_iff.1 h]
  · simp

theorem orderingSql_params {items : List Sql} (h : ∀ s ∈ items, s.params = []) :
    (orderingSql items).params = [] := by
  unfold orderingSql
  split
  · rfl
  · simpa using h

@[simp] theorem pagingSql_params (limit offset : Option Nat) :
    (pagingSql limit offset).params = [] := by
  cases limit <;> cases offset <;> rfl

variable {ι : Type} {schema : Schema ι} {nested : Plan ι → Binding Sql}

@[simp] theorem ScanPlan.fieldSql_params (s : ScanPlan ι) (e : ScanEntry ι) :
    (s.fieldSql e).params = [] := by
  unfold ScanPlan.fieldSql
  split <;> rfl

/-- An item of an ordering binds nothing. -/
theorem resolveOrderingItem_params (root : ι) (computed : List String) (item : String) :
    Keeps (fun _ => True) (resolveOrderingItem schema root computed item)
      fun s => s.params = [] := by
  unfold resolveOrderingItem
  dsimp only
  split
  · exact (Keeps.any _).bind fun c _ => Keeps.of_pure rfl
  · exact (Keeps.any _).bind fun c _ => Keeps.of_pure rfl

theorem Plan.Stages.ordering_params {p : Plan ι} {paths : List String} {asNested dedupe : Bool}
    {s t : Scope} {r : ResolvedSelect ι} (h : p.Stages schema paths asNested dedupe s r t) :
    ∀ item ∈ r.ordering, item.params = [] :=
  ((Keeps.mapM fun item _ => resolveOrderingItem_params p.model _ item).of_yields trivial
    h.ordering).2

theorem writeAnnotations_numbers (hn : ∀ p, Numbers (nested p) Sql.params) :
    ∀ es : List (String × Expression ι),
      Numbers (writeAnnotations schema nested es) (·.flatMap Sql.params)
  | [], args, parts, args', h => by
    unfold writeAnnotations at h
    obtain ⟨rfl, rfl⟩ := Yields.pure_iff.1 h
    exact Counted.refl args
  | (name, e) :: rest, args, parts, args', h => by
    simp only [writeAnnotations, Yields.bind_iff, Yields.pure_iff] at h
    obtain ⟨value, t, hv, others, u, ho, rfl, rfl⟩ := h
    have := (Expression.write_numbers hn e _ _ _ hv).append
      (writeAnnotations_numbers hn rest _ _ _ ho)
    simpa using this

/-- The text of a SELECT has the parameters of its computed columns, then those of its predicates. -/
theorem Plan.Stages.selectSql_params {p : Plan ι} {paths : List String} {asNested dedupe : Bool}
    {s t : Scope} {r : ResolvedSelect ι} (h : p.Stages schema paths asNested dedupe s r t)
    (joins : List Join) (computed predicates : List Sql) :
    (p.selectSql schema r joins computed predicates).params =
      computed.flatMap Sql.params ++ predicates.flatMap Sql.params := by
  have hf : (r.scan.entries.map r.scan.fieldSql).flatMap Sql.params = [] := by
    simp [List.flatMap_map]
  simp [Plan.selectSql, hf, orderingSql_params h.ordering_params]

theorem Plan.writeSelect_numbers (hn : ∀ p, Numbers (nested p) Sql.params) (p : Plan ι)
    (paths : List String) (asNested dedupe : Bool) :
    Numbers (p.writeSelect schema nested paths asNested dedupe) (Sql.params ·.1) := by
  intro args out args' h
  obtain ⟨r, scope, computed, mid, predicates, hr, hc, hp, rfl⟩ := Plan.writeSelect_cases h
  obtain ⟨-, ⟨stages⟩⟩ := Plan.stages hr
  dsimp only
  rw [stages.selectSql_params]
  exact (writeAnnotations_numbers hn _ _ _ _ hc).append (Expression.writeAll_numbers hn _ _ _ _ hp)

theorem Plan.writeNested_numbers : ∀ (depth : Nat) (p : Plan ι),
    Numbers (Plan.writeNested schema depth p) Sql.params
  | 0, p => fun _ _ _ h => absurd h Yields.not_throw
  | depth + 1, p => by
    intro args sql args' h
    simp only [Plan.writeNested, Yields.bind_iff, Yields.pure_iff] at h
    obtain ⟨out, _, h, rfl, rfl⟩ := h
    exact p.writeSelect_numbers (Plan.writeNested_numbers depth) _ _ _ _ _ _ h

theorem Plan.nestedIn_numbers (p q : Plan ι) : Numbers (p.nestedIn schema q) Sql.params :=
  Plan.writeNested_numbers _ q

theorem ScanPlan.countedSql_params (scan : ScanPlan ι) : scan.countedSql.params = [] := by
  unfold ScanPlan.countedSql
  split
  · split <;> rfl
  · rfl

theorem Model.countedSql_params (m : Model ι) (multiplied : Bool) :
    (m.countedSql multiplied).params = [] := by
  unfold Model.countedSql
  split
  · split <;> rfl
  · rfl

theorem writeCountNested_numbers (p : Plan ι) : Numbers (writeCountNested schema p) Sql.params := by
  intro args sql args' h
  obtain ⟨sub, scan, hs, rfl⟩ := writeCountNested_cases h
  have := p.unordered.writeSelect_numbers p.unordered.nestedIn_numbers _ _ _ _ _ _ hs
  simpa [ScanPlan.countedSql_params] using this

theorem writeCountPlain_numbers (p : Plan ι) : Numbers (writeCountPlain schema p) Sql.params := by
  intro args sql args' h
  obtain ⟨filters, scope, predicates, -, hp, rfl⟩ := writeCountPlain_cases h
  have := Expression.writeAll_numbers p.nestedIn_numbers _ _ _ _ hp
  simpa [Model.countedSql_params] using this

theorem writeWhere_counted {p : Plan ι} {args args' : List Value} {sql : Sql}
    (h : Yields (writeWhere schema p) args (some sql) args') : Counted args args' sql.params := by
  obtain ⟨filters, scope, predicates, -, hp, ⟨-, rfl⟩ | ⟨pk, -, rfl⟩⟩ := writeWhere_cases h
  all_goals
    have := Expression.writeAll_numbers p.nestedIn_numbers _ _ _ _ hp
    simpa [Model.memberSql] using this

theorem writeSets_numbers : ∀ fields : List (FieldDef ι × Value),
    Numbers (writeSets fields) (·.flatMap Sql.params)
  | [], args, parts, args', h => by
    unfold writeSets at h
    obtain ⟨rfl, rfl⟩ := Yields.pure_iff.1 h
    exact Counted.refl args
  | (f, v) :: rest, args, parts, args', h => by
    simp only [writeSets, Yields.bind_iff, Yields.pure_iff] at h
    obtain ⟨q, t, hq, others, u, ho, rfl, rfl⟩ := h
    have := (bindValue_numbers v _ _ _ hq).append (writeSets_numbers rest _ _ _ ho)
    simpa using this

theorem insertBody_params (written : List (FieldDef ι × Value)) (returning : List (FieldDef ι)) :
    (insertBody written returning).params = List.range' 1 written.length := by
  have hp : ((List.range written.length).map fun i => [Piece.param (i + 1)]).flatMap Sql.params =
      List.range' 1 written.length := by
    rw [List.range'_eq_map_range, List.flatMap_map, List.map_eq_flatMap]
    simp only [Sql.params_param, Sql.params_nil, Nat.add_comm 1]
  have hc : (written.map fun e => Sql.name e.1.column).flatMap Sql.params = [] := by
    simp [List.flatMap_map]
  have ht : Sql.params (if returning.isEmpty then [] else [.returning (returning.map (·.column))]) =
      [] := by
    split <;> rfl
  unfold insertBody
  rw [Sql.params_append, ht, List.append_nil]
  split
  · rename_i h
    simp [List.isEmpty_iff.1 h]
  · simp only [Sql.params_append, Sql.params_text, Sql.params_join, hc, hp, Sql.params_nil,
      List.nil_append, List.append_nil]

/-! ## Compiled statements -/

/-- The parameters of a statement are the numbers of its values, each once and in their order. -/
def Statement.Numbered (s : Statement) : Prop := s.sql.params = List.range' 1 s.args.length

theorem compileSelect_numbered {p : Plan ι} {c : Compiled ι} (h : compileSelect schema p = .ok c) :
    c.statement.Numbered := by
  obtain ⟨sql, scan, args, hw, rfl⟩ := compileSelect_cases h
  exact (p.writeSelect_numbers p.nestedIn_numbers _ _ _ _ _ _ hw).of_nil

theorem compileValues_numbered {p : Plan ι} {paths : List String} {c : Compiled ι}
    (h : compileValues schema p paths = .ok c) : c.statement.Numbered := by
  obtain ⟨sql, scan, args, hw, rfl⟩ := compileValues_cases h
  exact (Plan.writeSelect_numbers (Plan.nestedIn_numbers _) _ _ _ _ _ _ _ hw).of_nil

theorem compileCount_numbered {p : Plan ι} {c : Compiled ι} (h : compileCount schema p = .ok c) :
    c.statement.Numbered := by
  obtain ⟨-, sql, args, hw, rfl⟩ := compileCount_cases h
  split at hw
  · exact (writeCountNested_numbers p _ _ _ hw).of_nil
  · exact (writeCountPlain_numbers p _ _ _ hw).of_nil

theorem compileInsert_numbered {model : ι} {x : Instance ι} {c : Compiled ι}
    (h : compileInsert schema model x = .ok c) : c.statement.Numbered := by
  obtain ⟨fields, -, rfl⟩ := compileInsert_cases h
  simp [Statement.Numbered, insertBody_params]

theorem compileUpdate_numbered {p : Plan ι} {x : Instance ι} {c : Compiled ι}
    (h : compileUpdate schema p x = .ok c) : c.statement.Numbered := by
  obtain ⟨fields, sets, mid, predicate, args, -, hs, hw, rfl⟩ := compileUpdate_cases h
  have := ((writeSets_numbers fields _ _ _ hs).append (writeWhere_counted hw)).of_nil
  simpa [Statement.Numbered] using this

theorem compileDelete_numbered {p : Plan ι} {c : Compiled ι} (h : compileDelete schema p = .ok c) :
    c.statement.Numbered := by
  obtain ⟨predicate, args, hw, rfl⟩ := compileDelete_cases h
  exact (writeWhere_counted hw).of_nil

end Orm
