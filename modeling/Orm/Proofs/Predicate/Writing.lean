import Orm.Proofs.Placeholder.Writing
import Orm.Proofs.Predicate.Shape
import Orm.Proofs.Scope.Invariant

/-
Every writer gives passages: no text that is written for a query leaves a bracket, a quote or a comment
open, if none of its templates does. Comparisons and nested queries are predicates without an `OR`
outside brackets whatever they compare. The conditions of joins compare by known operators, too: those of
relations test for equality, and an explicit join with any other is refused (`Scope.known_invariant`).
-/

namespace Orm

open Reading

variable {ι : Type} {schema : Schema ι} {nested : Plan ι → Binding Sql}

/-! ## Passages -/

/-- A text that stands for itself. -/
def Sql.Passage (sql : Sql) : Prop := ∃ items, sql.Reads items

/-- A passage that may follow any other. -/
structure Sql.Tail (sql : Sql) : Prop where
  passage : sql.Passage
  separate : sql.Separate

namespace Sql

variable {a b s : Sql} {between : List Item}

theorem divides_and : Divides [.text " AND "] [andWord] := .of_run rfl rfl

theorem divides_or : Divides [.text " OR "] [orWord] := .of_run rfl rfl

theorem divides_comma : Divides [.text ", "] [.sign ','] := .of_run rfl rfl

theorem Passage.nil : Passage [] := ⟨[], .nil⟩

theorem Passage.ident (c : Column) : Passage [.ident c] := ⟨_, .slot rfl⟩

theorem Passage.param (n : Nat) : Passage [.param n] := ⟨_, .slot rfl⟩

theorem Passage.before (ha : Passage a) (hb : Tail b) : Passage (a ++ b) := by
  obtain ⟨is, ha⟩ := ha
  obtain ⟨js, hjs⟩ := hb.passage
  exact ⟨_, ha.append hjs hb.separate⟩

theorem Passage.divided (ha : Passage a) (hs : Divides s between) (hb : Passage b) :
    Passage (a ++ s ++ b) := by
  obtain ⟨is, ha⟩ := ha
  obtain ⟨js, hb⟩ := hb
  exact ⟨_, ha.divided hs hb⟩

theorem Passage.bracket {before : List Item} (hs : OpensWith s before) (ha : Passage a) :
    Passage (s ++ a ++ [.text ")"]) := by
  obtain ⟨is, ha⟩ := ha
  exact ⟨_, ha.bracket hs⟩

theorem Passage.congr (h : Passage a) (hg : b.glyphs = a.glyphs) : Passage b := by
  obtain ⟨is, h⟩ := h
  exact ⟨is, h.congr hg⟩

theorem Passage.join {w : String} (hs : Divides [.text w] between) : ∀ {parts : List Sql},
    (∀ p ∈ parts, Passage p) → Passage (Sql.join w parts)
  | [], _ => .nil
  | [p], h => h p List.mem_cons_self
  | p :: _ :: _, h =>
    (h p List.mem_cons_self).divided hs (join hs fun r hr => h r (List.mem_cons_of_mem p hr))

/-- A passage behind words with which a text begins. -/
theorem Passage.led (hs : ({} : Reader).run s.glyphs = some { items := between }) (ha : Passage a) :
    Passage (s ++ a) := by
  obtain ⟨is, ha⟩ := ha
  exact ⟨_, ha.led hs⟩

theorem Tail.nil : Tail [] := ⟨.nil, rfl⟩

theorem Tail.congr (h : Tail a) (hg : b.glyphs = a.glyphs) : Tail b :=
  ⟨h.passage.congr hg, by rw [Separate, hg]; exact h.separate⟩

/-- A clause begins with words of its own. -/
theorem Tail.of_divides (hs : Divides s between) (ha : Passage a) : Tail (s ++ a) :=
  ⟨by simpa using Passage.nil.divided hs ha, .of_head hs.ends a⟩

theorem Tail.append (ha : Tail a) (hb : Tail b) : Tail (a ++ b) := by
  refine ⟨ha.passage.before hb, ?_⟩
  have := ha.separate
  rw [Separate, glyphs_append]
  cases hg : a.glyphs with
  | nil => exact hb.separate
  | cons g gs => simpa [Separate, hg] using this

theorem Tail.flatMap {α : Type} {f : α → Sql} : ∀ {l : List α}, (∀ x ∈ l, Tail (f x)) →
    Tail (l.flatMap f)
  | [], _ => .nil
  | x :: l, h => by
    rw [List.flatMap_cons]
    exact (h x List.mem_cons_self).append (Tail.flatMap fun y hy => h y (List.mem_cons_of_mem x hy))

/-- The items of joined texts. -/
theorem Reads.join {w : String} (hs : Divides [.text w] between) :
    ∀ {parts : List Sql} {itemss : List (List Item)}, List.Forall₂ Reads parts itemss →
      Reads (Sql.join w parts) (between.intercalate itemss)
  | [], _, .nil => .nil
  | [p], _, .cons h .nil => by
    rw [List.intercalate_singleton]
    exact h
  | p :: q :: rest, _, .cons h (.cons h' hrest) => by
    rw [List.intercalate_cons_cons, List.append_assoc]
    exact h.divided hs (Reads.join hs (.cons h' hrest))

/-! ## Numbers -/

/-- The digits of a number are one word, and no keyword. -/
theorem Passage.number (n : Nat) : Passage [.text (toString n)] := by
  have digits : ∀ c ∈ (toString n).toList, c.isDigit = true := fun _ => Text.isDigit_of_mem_toString
  have hglyphs : Sql.glyphs [.text (toString n)] = (toString n).toList.map .char := by
    simp [glyphs, Piece.glyphs]
  cases hcs : (toString n).toList with
  | nil => exact ⟨[], Reads.nil.congr (by rw [hglyphs, hcs]; rfl)⟩
  | cons c cs =>
    rw [hcs, List.forall_mem_cons] at digits
    refine ⟨[.word ((c :: cs).map Char.toUpper)], fun r hr => ?_⟩
    have hrun := Reader.run_word (r := { r with mode := .word [c.toUpper] }) rfl
      fun d hd => wordChar_of_isDigit (digits.2 d hd)
    rw [hglyphs, hcs, List.map_cons, Reader.run_cons, Reader.step_of_plain hr,
      Reader.start_digit r digits.1, Option.bind_some, hrun, Option.bind_some]
    rw [Reader.settle]
    refine (Reader.endWord_digit _ digits.1 _).trans ?_
    rw [Reader.put, hr]
    rfl

end Sql

/-! ## Comparisons -/

theorem Lookup.write_reads {l : Lookup} {c : Column} {values args args' : List Value} {sql : Sql}
    (h : Yields (l.write [.ident c] values) args sql args') :
    ∃ items, sql.Reads items ∧ IsConjunct items := by
  have name : Sql.Reads [.ident c] [.slot (.ident c)] := .slot rfl
  cases Lookup.written_of_yields h with
  | never => exact ⟨_, .of_items rfl, ⟨⟨rfl, rfl⟩, rfl⟩⟩
  | @member _ _ ps h =>
    have hps := ((Keeps.mapM fun v _ => bindValue_gives v).of_yields trivial h).2
    have items : Sql.Passage (Sql.join ", " (ps.map ([·]))) := by
      refine Sql.Passage.join Sql.divides_comma fun p hp => ?_
      obtain ⟨q, hq, rfl⟩ := List.mem_map.1 hp
      obtain ⟨n, rfl⟩ := hps q hq
      exact .param n
    obtain ⟨is, his⟩ := items
    have hin : Sql.OpensWith [.text " IN ("] [.word "IN".toList] := .of_run rfl
    refine ⟨_, (name.append (his.bracket hin) rfl).congr ?_, ⟨⟨rfl, rfl⟩, rfl⟩⟩
    simp [Sql.ofText]
  | pattern p h =>
    obtain ⟨-, n, rfl⟩ := (bindValue_gives _).of_yields trivial h
    rcases p with ⟨before, after, ignoreCase⟩
    cases ignoreCase
    · exact ⟨_, .of_items rfl, ⟨⟨rfl, rfl⟩, rfl⟩⟩
    · exact ⟨_, .of_items rfl, ⟨⟨rfl, rfl⟩, rfl⟩⟩
  | null wanted =>
    cases wanted
    · exact ⟨_, .of_items rfl, ⟨⟨rfl, rfl⟩, rfl⟩⟩
    · exact ⟨_, .of_items rfl, ⟨⟨rfl, rfl⟩, rfl⟩⟩
  | compared l h =>
    obtain ⟨-, n, rfl⟩ := (bindValue_gives _).of_yields trivial h
    cases l <;> exact ⟨_, .of_items rfl, ⟨⟨rfl, rfl⟩, rfl⟩⟩

/-! ## Templates -/

/-- A part of a template; a slot is left empty. -/
def TemplateToken.shape : TemplateToken → Piece
  | .literal c => .text (String.singleton c)
  | .column | .param => .param 0

namespace Template

/-- The text of a template with empty slots. -/
def shape (t : Template) : Sql := (TemplateToken.ofText t.text.toList).map TemplateToken.shape

/-- The text leaves nothing open. -/
def closed (t : Template) : Bool := t.shape.items.isSome

/-- The text is a predicate by itself. -/
def isPredicate (t : Template) : Bool :=
  t.shape.items.any fun items => !ranging false items && !isQuery items

/-- The text has an `OR` outside brackets. -/
def loose (t : Template) : Bool := t.shape.items.any hasOr

/-- Filling the slots changes nothing else. -/
theorem fill_glyphs (t : Template) {tokens : List TemplateToken} {columns : List Column}
    {params args args' : List Value} {sql : Sql}
    (h : Yields (t.fill tokens columns params) args sql args') :
    (Sql.glyphs (tokens.map TemplateToken.shape)).map (Glyph.refill fun _ => .param 0) =
      sql.glyphs.map (Glyph.refill fun _ => .param 0) := by
  fun_induction Template.fill t tokens columns params generalizing args sql args' with
  | case1 =>
    obtain ⟨rfl, rfl⟩ := Yields.pure_iff.1 h
    rfl
  | case2 => exact absurd h Yields.not_throw
  | case3 => exact absurd h Yields.not_throw
  | case4 rest c cs ps ih =>
    simp only [Yields.bind_iff, Yields.pure_iff] at h
    obtain ⟨sql', u, h, rfl, rfl⟩ := h
    have := ih h
    simpa [Sql.glyphs, Piece.glyphs, TemplateToken.shape, Glyph.refill] using this
  | case5 => exact absurd h Yields.not_throw
  | case6 rest cs p ps ih =>
    simp only [Yields.bind_iff, Yields.pure_iff] at h
    obtain ⟨q, u, hq, sql', v, h, rfl, rfl⟩ := h
    obtain ⟨-, n, rfl⟩ := (bindValue_gives p).of_yields trivial hq
    have := ih h
    simpa [Sql.glyphs, Piece.glyphs, TemplateToken.shape, Glyph.refill] using this
  | case7 c rest cs ps ih =>
    simp only [Yields.bind_iff, Yields.pure_iff] at h
    obtain ⟨sql', u, h, rfl, rfl⟩ := h
    have := ih h
    simpa [Sql.glyphs, Piece.glyphs, TemplateToken.shape, Glyph.refill] using this

/-- The text of a template with its slots filled has the items of the template. -/
theorem write_reads {t : Template} {args args' : List Value} {sql : Sql} {is : List Item}
    (hs : t.shape.items = some is) (h : Yields t.write args sql args') :
    ∃ items, sql.Reads items ∧
      refillAll (fun _ => .param 0) is = refillAll (fun _ => .param 0) items := by
  unfold write at h
  split at h
  · exact absurd h Yields.not_throw
  · exact Sql.Reads.of_shape hs (t.fill_glyphs h)

theorem write_passage {t : Template} (ht : t.closed = true) : t.write.Gives Sql.Passage := by
  obtain ⟨is, his⟩ := Option.isSome_iff_exists.1 ht
  refine Keeps.of_forall fun args sql args' h => ?_
  obtain ⟨items, hr, -⟩ := t.write_reads his h
  exact ⟨items, hr⟩

theorem write_predicate {t : Template} {args args' : List Value} {sql : Sql}
    (ht : t.isPredicate = true) (h : Yields t.write args sql args') :
    ∃ items, sql.Reads items ∧ IsPredicate items ∧ hasOr items = t.loose := by
  obtain ⟨is, his, hp⟩ := (Option.any_eq_true _ _).1 ht
  obtain ⟨items, hr, hshape⟩ := t.write_reads his h
  simp only [Bool.and_eq_true, Bool.not_eq_true'] at hp
  refine ⟨items, hr, ⟨?_, ?_⟩, ?_⟩
  · rw [← ranging_refillAll (f := fun _ => .param 0), ← hshape, ranging_refillAll, hp.1]
  · rw [← isQuery_refillAll (f := fun _ => .param 0), ← hshape, isQuery_refillAll, hp.2]
  · rw [loose, his, Option.any_some, hasOr, hasOr,
      ← any_isWord_refillAll (f := fun _ => .param 0), ← hshape, any_isWord_refillAll]

end Template

/-! ## Joins -/

/-- All joins compare by known operators. -/
def Scope.Known (s : Scope) : Prop := ∀ j ∈ s.joins, ∀ c ∈ j.on, c.operator ∈ joinOperators

theorem Scope.known_empty : Scope.Known {} := by simp [Scope.Known]

theorem Scope.Known.append {s : Scope} (h : s.Known) {j : Join} (hj : ∀ c ∈ j.on, c.operator ∈ joinOperators)
    {toMany : Bool} : Scope.Known { s with joins := s.joins ++ [j], toMany } := by
  intro i hi
  rcases List.mem_append.1 hi with hi | hi
  · exact h i hi
  · exact List.mem_singleton.1 hi ▸ hj

theorem Scope.Known.addCondition {a : String} {c : OnCondition} (hc : c.operator ∈ joinOperators) :
    ∀ {joins : List Join}, (∀ j ∈ joins, ∀ o ∈ j.on, o.operator ∈ joinOperators) →
      ∀ j ∈ Orm.addCondition a c joins, ∀ o ∈ j.on, o.operator ∈ joinOperators
  | [], h => h
  | j :: rest, h => by
    rw [List.forall_mem_cons] at h
    unfold Orm.addCondition
    split
    · rw [List.forall_mem_cons]
      refine ⟨fun o ho => ?_, h.2⟩
      rcases List.mem_append.1 ho with ho | ho
      · exact h.1 o ho
      · exact List.mem_singleton.1 ho ▸ hc
    · rw [List.forall_mem_cons]
      exact ⟨h.1, Scope.Known.addCondition hc h.2⟩

theorem Scope.known_invariant {root : ι} (joins : List ExplicitJoin) :
    Scope.ExplicitInvariant schema root joins Scope.Known where
  names _ _ _ h := h
  step s kind st _ _ h := by
    unfold Scope.addStep
    split
    · exact h
    · refine h.append fun c hc => ?_
      obtain rfl := List.mem_singleton.1 hc
      exact List.mem_cons_self
  condition _ _ _ _ hc h := Scope.Known.addCondition hc h
  table j _ _ s condition _ hc h := by
    refine h.append fun c hon => hc c ?_
    dsimp only at hon
    split at hon
    · exact absurd hon List.not_mem_nil
    · simpa using hon

/-! ## Expressions -/

/-- Queries all of whose templates leave nothing open. -/
def Demand.closed : Demand ι where
  column _ := True
  template t := t.closed = true
  plan _ := True

theorem Demand.closed_resolves (root : ι) :
    Demand.closed.Resolves schema root fun s => s.aliases.Sound ∧ s.Known where
  path path _ := by
    have h : Scope.ExplicitInvariant schema root [] Scope.Known := Scope.known_invariant []
    exact h.resolvePath trivial (fun _ => trivial) path
  template _ _ h := h

namespace Expression

theorem enclose_passage {negated : Bool} {inner : Sql} (h : inner.Passage) :
    (enclose negated inner).Passage := by
  have hopen : Sql.OpensWith [.text "("] [] := .of_run rfl
  have hnot : Sql.OpensWith [.text "NOT ("] [notWord] := .of_run rfl
  cases negated
  · exact h.bracket hopen
  · exact h.bracket hnot

/-- A nested query in its place is a comparison or a value. -/
theorem useSql_reads {use : SubqueryUse} {column : Option Column} {inner sql : Sql}
    (hi : inner.Passage) (h : useSql use column inner = .ok sql) :
    ∃ items, sql.Reads items ∧ IsConjunct items := by
  obtain ⟨is, his⟩ := hi
  unfold useSql at h
  split at h
  · split at h
    · cases h
    · rename_i c
      cases h
      have name : Sql.Reads [.ident c] [.slot (.ident c)] := .slot rfl
      have hin : Sql.OpensWith [.text " IN ("] [.word "IN".toList] := .of_run rfl
      refine ⟨_, (name.append (his.bracket hin) rfl).congr ?_, ⟨⟨rfl, rfl⟩, rfl⟩⟩
      simp
  · cases h
    have hexists : Sql.OpensWith [.text "EXISTS ("] [.word "EXISTS".toList] := .of_run rfl
    exact ⟨_, his.bracket hexists, ⟨⟨rfl, rfl⟩, rfl⟩⟩
  · cases h
    have hfrom : Sql.OpensWith [.text "SELECT COUNT(*) FROM ("] _ := .of_run rfl
    have hopen : Sql.OpensWith [.text "("] [] := .of_run rfl
    have hlabel : Sql.Divides [.text " AS "] [.word "AS".toList] := .of_run rfl rfl
    have name : Sql.Reads [.ident ["djorm_count"]] _ := .slot rfl
    have := ((his.bracket hfrom).divided hlabel name).bracket hopen
    refine ⟨_, this.congr ?_, ⟨⟨rfl, rfl⟩, rfl⟩⟩
    simp [Sql.glyphs, Piece.glyphs]
  · cases h
    have hopen : Sql.OpensWith [.text "("] [] := .of_run rfl
    exact ⟨_, his.bracket hopen, ⟨⟨rfl, rfl⟩, rfl⟩⟩

mutual
theorem write_passage (hn : ∀ p, Demand.closed.OnPlan p → (nested p).Gives Sql.Passage) :
    ∀ e : Expression ι, Demand.closed.OnExpression e → (e.write schema nested).Gives Sql.Passage
  | .leaf l, _ => by
    unfold write
    split
    · exact Keeps.of_throw
    · rename_i c hc
      refine Keeps.of_forall fun args sql args' h => ?_
      obtain ⟨items, hr, -⟩ := Lookup.write_reads h
      exact ⟨items, hr⟩
  | .raw t, h | .func t, h => by
    rw [Demand.OnExpression] at h
    unfold write
    exact Template.write_passage h.1
  | .group connector negated [], _ => by
    unfold write
    refine Keeps.of_pure (enclose_passage ?_)
    cases connector <;> exact ⟨_, .of_items rfl⟩
  | .group connector negated (e :: rest), h => by
    rw [Demand.OnExpression, Demand.OnAll] at h
    unfold write
    refine (write_passage hn e h.1).bind fun first hf => ?_
    refine (writeAll_passage hn rest h.2).bind fun parts hp => Keeps.of_pure ?_
    refine enclose_passage ?_
    have all : ∀ p ∈ first :: parts, Sql.Passage p := List.forall_mem_cons.2 ⟨hf, hp⟩
    cases connector
    · exact .join Sql.divides_and all
    · exact .join Sql.divides_or all
  | .subquery use lhs column plan, h => by
    rw [Demand.OnExpression] at h
    unfold write
    refine Keeps.bind (Q := Demand.closed.OnPlan) (Keeps.of_result fun q hq => ?_) fun q hq => ?_
    · obtain ⟨select, rfl⟩ := projected_eq_ok hq
      rw [Demand.onPlan_iff] at h ⊢
      exact h.2
    · refine (hn q hq).bind fun inner hi => Keeps.of_result fun sql hsql => ?_
      obtain ⟨items, hr, -⟩ := useSql_reads hi hsql
      exact ⟨items, hr⟩

theorem writeAll_passage (hn : ∀ p, Demand.closed.OnPlan p → (nested p).Gives Sql.Passage) :
    ∀ es : List (Expression ι), Demand.closed.OnAll es →
      (writeAll schema nested es).Gives fun parts => ∀ p ∈ parts, Sql.Passage p
  | [], _ => by
    unfold writeAll
    exact Keeps.of_pure (by simp)
  | e :: rest, h => by
    rw [Demand.OnAll] at h
    unfold writeAll
    refine (write_passage hn e h.1).bind fun first hf => ?_
    exact (writeAll_passage hn rest h.2).bind fun parts hp => Keeps.of_pure
      (List.forall_mem_cons.2 ⟨hf, hp⟩)
end

end Expression

end Orm
