import Orm.Proofs.Predicate.Writing

/-
What an expression says of a row is found from its parts (`Expression.verdict`): a group makes of its
children what its connective and its negation say; a comparison, a template or a nested query says
what its own text says. The text that is written for an expression says the same
(`Expression.write_verdict`).

Groups are written in brackets, and nothing else has an `OR` outside brackets except for templates,
which are written as they are given. A template that has one must therefore not be an operand among
others of an `AND` (`Expression.Delimited`).

The text of a SELECT is a passage if no template of the query leaves anything open, so a query nested
in another does not reach beyond the brackets around it.
-/

namespace Orm

section

open Reading

variable {ι : Type} {schema : Schema ι} {nested : Plan ι → Binding Sql} {p : Plan ι}

theorem writeAnnotations_passage
    (hn : ∀ p, Demand.closed.OnPlan p → (nested p).Gives Sql.Passage) :
    ∀ es : List (String × Expression ι), Demand.closed.OnNamed es →
      (writeAnnotations schema nested es).Gives fun parts => ∀ p ∈ parts, Sql.Passage p
  | [], _ => by
    unfold writeAnnotations
    exact Keeps.of_pure (by simp)
  | (name, e) :: rest, h => by
    rw [Demand.OnNamed] at h
    unfold writeAnnotations
    refine (Expression.write_passage hn e h.1).bind fun value hv => ?_
    refine (writeAnnotations_passage hn rest h.2).bind fun parts hp => Keeps.of_pure
      (List.forall_mem_cons.2 ⟨?_, hp⟩)
    refine (hv.divided (s := [.text " AS "]) (.of_run rfl rfl) (.ident [name])).congr ?_
    simp

/-! ## Clauses -/

theorem ScanPlan.fieldSql_passage (s : ScanPlan ι) (e : ScanEntry ι) : (s.fieldSql e).Passage := by
  unfold ScanPlan.fieldSql
  split
  · exact ⟨_, .of_items rfl⟩
  · exact .ident _

theorem OnCondition.sql_passage {c : OnCondition} (h : c.operator ∈ joinOperators) :
    c.sql.Passage := by
  have compared : ∀ op ∈ joinOperators, ∃ is, Sql.Divides [.text (" " ++ op ++ " ")] is := by
    simp only [joinOperators, List.forall_mem_cons]
    exact ⟨⟨_, .of_run rfl rfl⟩, ⟨_, .of_run rfl rfl⟩, ⟨_, .of_run rfl rfl⟩, ⟨_, .of_run rfl rfl⟩,
      ⟨_, .of_run rfl rfl⟩, ⟨_, .of_run rfl rfl⟩, ⟨_, .of_run rfl rfl⟩, ⟨_, .of_run rfl rfl⟩,
      fun _ h => absurd h List.not_mem_nil⟩
  obtain ⟨is, his⟩ := compared c.operator h
  exact (Sql.Passage.ident c.left).divided his (.ident c.right)

theorem Join.sql_tail {j : Join} (h : ∀ c ∈ j.on, c.operator ∈ joinOperators) : j.sql.Tail := by
  have head : Sql.Tail [.text (" " ++ j.kind.sql ++ " "), .ident [j.table]] := by
    cases j.kind <;> exact ⟨⟨_, .of_items rfl⟩, rfl⟩
  have conditions : Sql.Passage (Sql.join " AND " (j.on.map OnCondition.sql)) := by
    refine .join Sql.divides_and fun p hp => ?_
    obtain ⟨c, hc, rfl⟩ := List.mem_map.1 hp
    exact OnCondition.sql_passage (h c hc)
  unfold Join.sql
  refine (head.append ?_).append ?_
  · split
    · exact .nil
    · exact ⟨⟨_, .of_items rfl⟩, rfl⟩
  · split
    · exact .nil
    · exact .of_divides (s := [.text " ON "]) (.of_run rfl rfl) conditions

theorem whereSql_tail {parts : List Sql} (h : ∀ p ∈ parts, Sql.Passage p) :
    (whereSql parts).Tail := by
  unfold whereSql
  split
  · exact .nil
  · exact .of_divides (s := [.text " WHERE "]) (.of_run rfl rfl)
      (.join Sql.divides_and h)

theorem orderingSql_tail {items : List Sql} (h : ∀ p ∈ items, Sql.Passage p) :
    (orderingSql items).Tail := by
  unfold orderingSql
  split
  · exact .nil
  · exact .of_divides (s := [.text " ORDER BY "]) (.of_run rfl rfl)
      (.join Sql.divides_comma h)

theorem pagingSql_tail (limit offset : Option Nat) : (pagingSql limit offset).Tail := by
  have limited : Sql.Divides [.text " LIMIT "] _ := .of_run rfl rfl
  have skipped : Sql.Divides [.text " OFFSET "] _ := .of_run rfl rfl
  unfold pagingSql
  split
  · rename_i l o
    refine (Sql.Tail.of_divides limited
      ((Sql.Passage.number l).divided skipped (.number o))).congr ?_
    simp [Sql.glyphs, Piece.glyphs]
  · rename_i l
    refine (Sql.Tail.of_divides limited (.number l)).congr ?_
    simp [Sql.glyphs, Piece.glyphs]
  · exact ⟨⟨_, .slot rfl⟩, rfl⟩
  · exact .nil

theorem resolveOrderingItem_passage (root : ι) (computed : List String) (item : String) :
    Keeps (fun s => s.aliases.Sound ∧ s.Known) (resolveOrderingItem schema root computed item)
      Sql.Passage := by
  have directed : ∀ (column : Column) (descending : Bool),
      Sql.Passage [.ident column, .text (if descending then " DESC" else " ASC")] := by
    intro column descending
    cases descending <;> exact ⟨_, .of_items rfl⟩
  unfold resolveOrderingItem
  dsimp only
  split
  · exact Keeps.of_pure (directed _ _)
  · exact ((Demand.closed_resolves root).path _ false).bind fun c _ =>
      Keeps.of_pure (directed _ _)

/-! ## SELECT -/

theorem Plan.selectSql_passage {r : ResolvedSelect ι} {scope : Scope}
    {computed predicates : List Sql} (hscope : scope.Known) (hcomp : ∀ q ∈ computed, Sql.Passage q)
    (hpred : ∀ q ∈ predicates, Sql.Passage q) (hord : ∀ q ∈ r.ordering, Sql.Passage q) :
    (p.selectSql schema r scope.joins computed predicates).Passage := by
  have columns : Sql.Passage (Sql.join ", " (r.scan.entries.map r.scan.fieldSql ++ computed)) := by
    refine .join Sql.divides_comma fun q hq => ?_
    rcases List.mem_append.1 hq with hq | hq
    · obtain ⟨e, -, rfl⟩ := List.mem_map.1 hq
      exact r.scan.fieldSql_passage e
    · exact hcomp q hq
  have table : Sql.Tail [.text " FROM ", .ident [(schema p.model).table]] :=
    ⟨⟨_, .of_items rfl⟩, rfl⟩
  have joins : (joinsSql scope.joins).Tail :=
    Sql.Tail.flatMap fun j hj => Join.sql_tail (hscope j hj)
  have clauses := (((table.append joins).append (whereSql_tail hpred)).append
    (orderingSql_tail hord)).append (pagingSql_tail p.limit p.offset)
  unfold Plan.selectSql
  have head : Sql.Passage (.text (if p.distinct then "SELECT DISTINCT " else "SELECT ") ::
      Sql.join ", " (r.scan.entries.map r.scan.fieldSql ++ computed)) := by
    cases p.distinct
    · exact Sql.Passage.led (s := [.text "SELECT "]) rfl columns
    · exact Sql.Passage.led (s := [.text "SELECT DISTINCT "]) rfl columns
  simpa using head.before clauses

theorem Plan.writeSelect_passage
    (hn : ∀ q, Demand.closed.OnPlan q → (nested q).Gives Sql.Passage)
    (hp : Demand.closed.OnPlan p) (paths : List String) (asNested dedupe : Bool) :
    (p.writeSelect schema nested paths asNested dedupe).Gives fun out => out.1.Passage := by
  refine Keeps.of_forall fun args out args' hy => ?_
  obtain ⟨r, scope, computed, mid, predicates, hr, hc, hpr, rfl⟩ := Plan.writeSelect_cases hy
  obtain ⟨-, ⟨stages⟩⟩ := Plan.stages hr
  obtain ⟨-, annotations, filters⟩ := (Demand.onPlan_iff p).1 hp
  have hD : Demand.closed.Resolves schema p.model fun s => s.aliases.Sound ∧ s.Known :=
    Demand.closed_resolves p.model
  have hI : Scope.ExplicitInvariant schema p.model p.joins Scope.Known := Scope.known_invariant p.joins
  have h₁ := hI.addExplicits (List.Subset.refl _) Aliases.sound_empty Scope.known_empty stages.joins
  obtain ⟨h₂, -⟩ := (hI.projection trivial dedupe paths).of_yields h₁ stages.projection
  obtain ⟨h₃, -, hann⟩ := (resolveNamed_meets hD _ annotations).of_yields h₂ stages.annotations
  obtain ⟨h₄, hfil⟩ := (resolveFilters_meets hD _ filters).of_yields h₃ stages.filters
  obtain ⟨h₅, hord⟩ := (Keeps.mapM fun item _ =>
    resolveOrderingItem_passage p.model _ item).of_yields h₄ stages.ordering
  exact Plan.selectSql_passage h₅.2 ((writeAnnotations_passage hn _ hann).of_yields trivial hc).2
    ((Expression.writeAll_passage hn _ hfil).of_yields trivial hpr).2 hord

theorem Plan.writeNested_passage : ∀ (depth : Nat) (q : Plan ι), Demand.closed.OnPlan q →
    (Plan.writeNested schema depth q).Gives Sql.Passage
  | 0, _, _ => Keeps.of_throw
  | depth + 1, q, hq => by
    unfold Plan.writeNested
    exact (Plan.writeSelect_passage (Plan.writeNested_passage depth) hq _ _ _).bind
      fun out ho => Keeps.of_pure ho

theorem Plan.nestedIn_passage (q q' : Plan ι) (h : Demand.closed.OnPlan q') :
    (q.nestedIn schema q').Gives Sql.Passage :=
  Plan.writeNested_passage _ q' h

end

section

open Reading

variable {ι : Type} {schema : Schema ι} {nested : Plan ι → Binding Sql}

/-! ## What expressions say -/

def Connector.combine : Connector → List Truth → Truth
  | .all => .all
  | .any => .any

def Connector.word : Connector → Item
  | .all => andWord
  | .any => orWord

/-- The truth, or its negation. -/
def Truth.negated (negated : Bool) (t : Truth) : Truth := if negated then t.negate else t

namespace Expression

mutual
/-- What an expression says of a row, with values bound as they are when it is written. -/
def verdict (ρ : Valuation) (schema : Schema ι) (nested : Plan ι → Binding Sql) :
    Expression ι → Binding Truth
  | .group connector negated children => do
    let truths ← verdictAll ρ schema nested children
    return .negated negated (connector.combine truths)
  | .leaf l => do return (← write schema nested (.leaf l)).truth ρ
  | .raw t => do return (← write schema nested (.raw t)).truth ρ
  | .func t => do return (← write schema nested (.func t)).truth ρ
  | .subquery use lhs column plan => do
    return (← write schema nested (.subquery use lhs column plan)).truth ρ

def verdictAll (ρ : Valuation) (schema : Schema ι) (nested : Plan ι → Binding Sql) :
    List (Expression ι) → Binding (List Truth)
  | [] => return []
  | e :: rest => do
    let first ← verdict ρ schema nested e
    return first :: (← verdictAll ρ schema nested rest)
end

/-- A template with an `OR` outside brackets. -/
def loose : Expression ι → Bool
  | .raw t | .func t => t.loose
  | _ => false

mutual
/--
Every template is a predicate by itself, none with an `OR` outside brackets is one of several operands
of an `AND`, and queries nested in the expression leave nothing open.
-/
def Delimited : Expression ι → Prop
  | .leaf _ => True
  | .raw t | .func t => t.isPredicate = true
  | .group connector _ children =>
    DelimitedAll children ∧
      (connector = .all → children.length ≤ 1 ∨ ∀ e ∈ children, e.loose = false)
  | .subquery _ _ _ plan => Demand.closed.OnPlan plan

def DelimitedAll : List (Expression ι) → Prop
  | [] => True
  | e :: rest => Delimited e ∧ DelimitedAll rest
end

/-! ## Resolving -/

theorem Template.resolve_text (schema : Schema ι) (root : ι) (t : Template) :
    Keeps (fun _ => True) (Template.resolve schema root t) fun t' => t'.text = t.text := by
  unfold Template.resolve
  split
  · exact Keeps.of_pure rfl
  · exact (Keeps.any _).bind fun _ _ => Keeps.of_pure rfl

theorem loose_of_text {t t' : Template} (h : t'.text = t.text) :
    t'.isPredicate = t.isPredicate ∧ t'.loose = t.loose := by
  simp only [Template.isPredicate, Template.loose, Template.shape, h, and_self]

theorem none_loose {es es' : List (Expression ι)} (h : es'.map loose = es.map loose)
    (hes : ∀ e ∈ es, e.loose = false) : ∀ e ∈ es', e.loose = false := by
  intro e he
  have hmem : e.loose ∈ es.map loose := h ▸ List.mem_map_of_mem he
  obtain ⟨c, hc, hce⟩ := List.mem_map.1 hmem
  rw [← hce]
  exact hes c hc

mutual
theorem resolveIn_delimited (schema : Schema ι) (root : ι) : ∀ (top : Bool) (e : Expression ι),
    Keeps (fun _ => True) (resolveIn schema root top e) fun e' =>
      (e.Delimited → e'.Delimited) ∧ e'.loose = e.loose
  | top, .leaf l => by
    unfold resolveIn
    refine (Keeps.any _).bind fun _ _ => ?_
    split
    · exact Keeps.of_pure ⟨id, rfl⟩
    · refine (Keeps.any _).bind fun _ _ => Keeps.of_pure ⟨fun _ => ?_, rfl⟩
      rw [Delimited]
      trivial
  | top, .raw t => by
    unfold resolveIn
    refine (Template.resolve_text schema root t).bind fun t' ht => Keeps.of_pure ?_
    obtain ⟨hp, hl⟩ := loose_of_text ht
    rw [Delimited, Delimited, hp]
    exact ⟨id, hl⟩
  | top, .func t => by
    unfold resolveIn
    refine (Template.resolve_text schema root t).bind fun t' ht => Keeps.of_pure ?_
    obtain ⟨hp, hl⟩ := loose_of_text ht
    rw [Delimited, Delimited, hp]
    exact ⟨id, hl⟩
  | top, .group connector negated children => by
    unfold resolveIn
    refine (Keeps.any _).bind fun _ _ => ?_
    refine (resolveAll_delimited schema root _ children).bind fun es hes => Keeps.of_pure ?_
    refine ⟨fun h => ?_, rfl⟩
    rw [Delimited] at h ⊢
    have hlength : es.length = children.length := by
      simpa using congrArg List.length hes.2
    exact ⟨hes.1 h.1, fun hc => (h.2 hc).imp (fun hle => hlength ▸ hle) (none_loose hes.2)⟩
  | top, .subquery use lhs column plan => by
    unfold resolveIn
    refine (Keeps.any _).bind fun _ _ => ?_
    split
    · refine (Keeps.any _).bind fun _ _ => Keeps.of_pure ⟨fun h => ?_, rfl⟩
      rw [Delimited] at h ⊢
      exact h
    · exact Keeps.of_pure ⟨id, rfl⟩

theorem resolveAll_delimited (schema : Schema ι) (root : ι) :
    ∀ (top : Bool) (es : List (Expression ι)),
    Keeps (fun _ => True) (resolveAll schema root top es) fun es' =>
      (DelimitedAll es → DelimitedAll es') ∧ es'.map loose = es.map loose
  | _, [] => by
    unfold resolveAll
    exact Keeps.of_pure ⟨id, rfl⟩
  | top, e :: rest => by
    unfold resolveAll
    refine (resolveIn_delimited schema root top e).bind fun e' he => ?_
    refine (resolveAll_delimited schema root top rest).bind fun es hes => Keeps.of_pure ?_
    rw [List.map_cons, List.map_cons, he.2, hes.2]
    refine ⟨fun h => ?_, rfl⟩
    rw [DelimitedAll] at h ⊢
    exact ⟨he.1 h.1, hes.1 h.2⟩
end

/-! ## Writing -/

/-- What has no children says what its text says. -/
theorem verdict_of_text {e : Expression ι} {args args' : List Value} {sql : Sql}
    {items : List Item}
    (he : ∀ ρ, verdict ρ schema nested e = do return (← write schema nested e).truth ρ)
    (h : Yields (write schema nested e) args sql args') (hr : sql.Reads items) (ρ : Valuation) :
    Yields (verdict ρ schema nested e) args (ρ.truth items) args' := by
  rw [he, Yields.bind_iff]
  exact ⟨sql, args', h, Yields.pure_iff.2 ⟨hr.truth_eq ρ, rfl⟩⟩

/-- The items are one predicate, with an `OR` outside brackets only if the expression is loose. -/
structure ReadAs (e : Expression ι) (items : List Item) : Prop where
  isPredicate : IsPredicate items
  noOr : e.loose = false → hasOr items = false

theorem ReadAs.of_conjunct {e : Expression ι} {items : List Item} (h : IsConjunct items) :
    e.ReadAs items :=
  ⟨h.toIsPredicate, fun _ => h.noOr⟩

/-- The operands of a connective say together what it makes of what they say by themselves. -/
theorem truth_joined {connector : Connector} {es : List (Expression ι)}
    {itemss : List (List Item)} (h : List.Forall₂ ReadAs es itemss) (hne : es ≠ [])
    (hc : connector = .all → es.length ≤ 1 ∨ ∀ e ∈ es, e.loose = false) :
    IsPredicate ([connector.word].intercalate itemss) ∧ ∀ ρ : Valuation,
      ρ.truth ([connector.word].intercalate itemss) = connector.combine (itemss.map ρ.truth) := by
  have hpredicate : ∀ is ∈ itemss, IsPredicate is :=
    forall_mem_of_forall₂ h fun e _ is he => he.isPredicate
  have hitemss : itemss ≠ [] := by
    rintro rfl
    cases h
    exact hne rfl
  cases connector with
  | all =>
    have hor : itemss.length ≤ 1 ∨ ∀ is ∈ itemss, hasOr is = false := by
      refine (hc rfl).imp (fun hle => h.length_eq ▸ hle) fun hloose => ?_
      exact forall_mem_of_forall₂ h fun e he is hread => hread.noOr (hloose e he)
    exact ⟨isPredicate_joined rfl rfl hpredicate, fun ρ => truth_all hitemss hpredicate hor⟩
  | any => exact ⟨isPredicate_joined rfl rfl hpredicate, fun ρ => truth_any hitemss hpredicate⟩

theorem connector_divides (connector : Connector) :
    Sql.Divides [.text connector.sql] [connector.word] := by
  cases connector
  · exact Sql.divides_and
  · exact Sql.divides_or

theorem enclose_reads {negated : Bool} {inner : Sql} {is : List Item} (h : inner.Reads is)
    (hq : isQuery is = false) : ∃ items, (enclose negated inner).Reads items ∧ IsConjunct items ∧
      ∀ ρ : Valuation, ρ.truth items = .negated negated (ρ.truth is) := by
  have hopen : Sql.OpensWith [.text "("] [] := .of_run rfl
  have hnot : Sql.OpensWith [.text "NOT ("] [notWord] := .of_run rfl
  cases negated
  · exact ⟨_, h.bracket hopen, ⟨⟨rfl, rfl⟩, rfl⟩, fun ρ => truth_brackets hq⟩
  · exact ⟨_, h.bracket hnot, ⟨⟨rfl, rfl⟩, rfl⟩, fun ρ => truth_not_brackets hq⟩

/-- What an empty group says. -/
theorem empty_reads (connector : Connector) : ∃ is, (Sql.ofText connector.empty).Reads is ∧
    isQuery is = false ∧ ∀ ρ : Valuation, ρ.truth is = connector.combine [] := by
  cases connector
  · exact ⟨_, .of_items rfl, rfl, fun ρ => (truth_comparison rfl (by decide)).trans ρ.always⟩
  · exact ⟨_, .of_items rfl, rfl, fun ρ => (truth_comparison rfl (by decide)).trans ρ.never⟩

mutual
/-- The text of an expression says what the expression says. -/
theorem write_verdict (hn : ∀ p, Demand.closed.OnPlan p → (nested p).Gives Sql.Passage) :
    ∀ e : Expression ι, e.Delimited → ∀ {args args' : List Value} {sql : Sql},
      Yields (write schema nested e) args sql args' →
      ∃ items, sql.Reads items ∧ e.ReadAs items ∧ ∀ ρ : Valuation,
        Yields (verdict ρ schema nested e) args (ρ.truth items) args'
  | .leaf l, _, args, args', sql, h => by
    have hw := h
    unfold write at h
    split at h
    · exact absurd h Yields.not_throw
    · obtain ⟨items, hr, hc⟩ := Lookup.write_reads h
      exact ⟨items, hr, .of_conjunct hc, verdict_of_text (fun ρ => by rw [verdict]) hw hr⟩
  | .raw t, hd, args, args', sql, h => by
    have hw := h
    rw [Delimited] at hd
    unfold write at h
    obtain ⟨items, hr, hp, hor⟩ := Template.write_predicate hd h
    exact ⟨items, hr, ⟨hp, fun hl => hor.trans hl⟩, verdict_of_text (fun ρ => by rw [verdict]) hw hr⟩
  | .func t, hd, args, args', sql, h => by
    have hw := h
    rw [Delimited] at hd
    unfold write at h
    obtain ⟨items, hr, hp, hor⟩ := Template.write_predicate hd h
    exact ⟨items, hr, ⟨hp, fun hl => hor.trans hl⟩, verdict_of_text (fun ρ => by rw [verdict]) hw hr⟩
  | .group connector negated children, hd, args, args', sql, h => by
    rw [Delimited] at hd
    have ih : ∀ parts, Yields (writeAll schema nested children) args parts args' →
        ∃ itemss, List.Forall₂ Sql.Reads parts itemss ∧ List.Forall₂ ReadAs children itemss ∧
          ∀ ρ : Valuation,
            Yields (verdictAll ρ schema nested children) args (itemss.map ρ.truth) args' :=
      fun parts => writeAll_verdict hn children hd.1
    cases children with
    | nil =>
      unfold write at h
      obtain ⟨rfl, rfl⟩ := Yields.pure_iff.1 h
      obtain ⟨is, his, hq, htruth⟩ := empty_reads connector
      obtain ⟨items, hr, hc, heq⟩ := enclose_reads his hq
      refine ⟨items, hr, .of_conjunct hc, fun ρ => ?_⟩
      simp only [verdict, verdictAll, Yields.bind_iff, Yields.pure_iff]
      exact ⟨[], args, ⟨rfl, rfl⟩, by rw [heq, htruth], rfl⟩
    | cons e rest =>
      simp only [write, Yields.bind_iff, Yields.pure_iff] at h
      obtain ⟨first, t, hf, parts, u, hp, rfl, rfl⟩ := h
      have hall : Yields (writeAll schema nested (e :: rest)) args (first :: parts) u := by
        simp only [writeAll, Yields.bind_iff, Yields.pure_iff]
        exact ⟨first, t, hf, parts, u, hp, rfl, rfl⟩
      obtain ⟨itemss, hrs, hes, hvs⟩ := ih (first :: parts) hall
      obtain ⟨hpredicate, htruth⟩ := truth_joined hes (List.cons_ne_nil e rest) hd.2
      have hjoin := Sql.Reads.join (connector_divides connector) hrs
      obtain ⟨items, hr, hc, heq⟩ := enclose_reads hjoin hpredicate.notQuery
      refine ⟨items, hr, .of_conjunct hc, fun ρ => ?_⟩
      rw [verdict, Yields.bind_iff]
      exact ⟨_, u, hvs ρ, Yields.pure_iff.2 ⟨by rw [heq, htruth], rfl⟩⟩
  | .subquery use lhs column plan, hd, args, args', sql, h => by
    have hw := h
    rw [Delimited] at hd
    simp only [write, Yields.bind_iff, Yields.mk_pure_iff] at h
    obtain ⟨q, _, ⟨hq, rfl⟩, inner, t, hi, hu, rfl⟩ := h
    have hclosed : Demand.closed.OnPlan q := by
      obtain ⟨select, rfl⟩ := projected_eq_ok hq
      rw [Demand.onPlan_iff] at hd ⊢
      exact hd
    obtain ⟨-, hpassage⟩ := (hn q hclosed).of_yields trivial hi
    obtain ⟨items, hr, hc⟩ := useSql_reads hpassage hu
    exact ⟨items, hr, .of_conjunct hc, verdict_of_text (fun ρ => by rw [verdict]) hw hr⟩

theorem writeAll_verdict (hn : ∀ p, Demand.closed.OnPlan p → (nested p).Gives Sql.Passage) :
    ∀ es : List (Expression ι), DelimitedAll es → ∀ {args args' : List Value} {parts : List Sql},
      Yields (writeAll schema nested es) args parts args' →
      ∃ itemss, List.Forall₂ Sql.Reads parts itemss ∧ List.Forall₂ ReadAs es itemss ∧
        ∀ ρ : Valuation, Yields (verdictAll ρ schema nested es) args (itemss.map ρ.truth) args'
  | [], _, args, args', parts, h => by
    unfold writeAll at h
    obtain ⟨rfl, rfl⟩ := Yields.pure_iff.1 h
    refine ⟨[], .nil, .nil, fun ρ => ?_⟩
    rw [verdictAll]
    exact Yields.pure_iff.2 ⟨rfl, rfl⟩
  | e :: rest, hd, args, args', parts, h => by
    rw [DelimitedAll] at hd
    simp only [writeAll, Yields.bind_iff, Yields.pure_iff] at h
    obtain ⟨first, t, hf, others, u, ho, rfl, rfl⟩ := h
    obtain ⟨items, hr, he, hv⟩ := write_verdict hn e hd.1 hf
    obtain ⟨itemss, hrs, hes, hvs⟩ := writeAll_verdict hn rest hd.2 ho
    refine ⟨items :: itemss, .cons hr hrs, .cons he hes, fun ρ => ?_⟩
    simp only [verdictAll, Yields.bind_iff, Yields.pure_iff]
    exact ⟨_, t, hv ρ, _, u, hvs ρ, rfl, rfl⟩
end

end Expression

end

end Orm
