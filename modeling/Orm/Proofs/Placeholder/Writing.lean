import Orm.Proofs.Placeholder.Reading
import Orm.Proofs.Spelling.Queries

/-
Queries whose texts can be read: in no name of theirs a placeholder begins, and no digit follows the
slot of a parameter.

Texts put together from fragments: every writer gives a text of the characters that names and templates
have, in which no digit follows a placeholder. That holds for any set of characters that has those of
a statement's own words (`Spells`).
-/

namespace Orm

variable {ι : Type} {schema : Schema ι} {d : Dialect} {A : Alphabet}

/-! ## Names in which no placeholder begins -/

/-- A name of one part or several, in none of which a placeholder begins. -/
structure Column.Plain (c : Column) : Prop where
  parts : ∀ part ∈ c, Text.Plain part
  ne_nil : c ≠ []

structure FieldDef.Plain (f : FieldDef ι) : Prop where
  column : Text.Plain f.column
  /-- A relation without a column gives its name to the table between, and to aliases. -/
  name : f.hasColumn = false → Text.Plain f.name

structure Model.Plain (m : Model ι) : Prop where
  table : Text.Plain m.table
  fields : ∀ f ∈ m.fields, f.Plain

instance (f : FieldDef ι) : Decidable f.Plain :=
  decidable_of_iff (Text.Plain f.column ∧ (f.hasColumn = false → Text.Plain f.name))
    ⟨fun h => ⟨h.1, h.2⟩, fun h => ⟨h.column, h.name⟩⟩

instance (m : Model ι) : Decidable m.Plain :=
  have := List.decidableBAll (fun f => f.Plain) m.fields
  decidable_of_iff (Text.Plain m.table ∧ ∀ f ∈ m.fields, f.Plain)
    ⟨fun h => ⟨h.1, h.2⟩, fun h => ⟨h.table, h.fields⟩⟩

def Schema.Plain (schema : Schema ι) : Prop := ∀ i, (schema i).Plain

theorem Schema.Plain.only (h : Schema.Plain schema) : Schema.Only Unmarked schema := fun i =>
  ⟨(h i).table, fun f hf => ⟨((h i).fields f hf).column, ((h i).fields f hf).name⟩⟩

/-- Names that a query gives itself: those of its computed columns and of the tables it joins. -/
structure Plan.Named (schema : Schema ι) (p : Plan ι) : Prop where
  annotations : ∀ a ∈ p.annotations, Text.Plain a.1
  targets : ∀ j ∈ p.joins, joinedRelation? schema p.model j.target = none → Text.Plain j.target
  conditions : ∀ j ∈ p.joins, ∀ c, j.condition = some c → Text.Plain c.left ∧ Text.Plain c.right

/-- No placeholder begins in the names of a query, nor in the literal text of its templates. -/
def Plan.Plain (schema : Schema ι) (p : Plan ι) : Prop :=
  Demand.OnPlan
    { column := Column.Plain
      template := fun t => '$' ∉ t.text.toList
      plan := Plan.Named schema } p

/-! ## Slots of parameters -/

/-- Whether a part of a template is written with a digit in front. -/
def TemplateToken.startsWithDigit (d : Dialect) : TemplateToken → Bool
  | .column => d.quote.isDigit
  | .param => false
  | .literal c => c.isDigit

/-- Whether no slot for a parameter is directly followed by a digit. -/
def TemplateToken.spaced (d : Dialect) : List TemplateToken → Bool
  | [] => true
  | t :: rest => !(t == .param && rest.head?.any (startsWithDigit d)) && spaced d rest

def Template.Spaced (d : Dialect) (t : Template) : Prop :=
  TemplateToken.spaced d (TemplateToken.ofText t.text.toList) = true

def Plan.Spaced (d : Dialect) (p : Plan ι) : Prop :=
  Demand.OnPlan { column := fun _ => True, template := Template.Spaced d, plan := fun _ => True } p

/-! ## Texts that can be written -/

/-- What the texts of a query are written from. -/
def Demand.writable (A : Alphabet) (schema : Schema ι) (d : Dialect) : Demand ι where
  column c := c.Only A.name ∧ (d.placeholder = .dollar → c ≠ [])
  template t := t.Only A.text ∧ (d.placeholder = .dollar → t.Spaced d)
  plan := Plan.Names A.name schema

theorem Plan.writable {p : Plan ι} (hp : p.Plain schema)
    (hs : d.placeholder = .dollar → p.Spaced d) :
    (Demand.writable .unmarked schema d).OnPlan p := by
  have template : ∀ t : Template, '$' ∉ t.text.toList → t.Only Unmarked :=
    fun t h c hc hq => ⟨hq, fun hd => h (hd ▸ hc)⟩
  have plan : ∀ q : Plan ι, q.Named schema → q.Names Unmarked schema :=
    fun q h => ⟨h.annotations, h.targets, h.conditions⟩
  by_cases hd : d.placeholder = .dollar
  · refine Demand.Cover.onPlan ?_ p hp (hs hd)
    exact ⟨fun c h _ => ⟨h.parts, fun _ => h.ne_nil⟩, fun t h h' => ⟨template t h, fun _ => h'⟩,
      fun q h _ => plan q h⟩
  · refine Demand.Cover.onPlan ?_ p hp hp
    exact ⟨fun c h _ => ⟨h.parts, fun _ => h.ne_nil⟩, fun t h _ => ⟨template t h, fun h' => absurd h' hd⟩,
      fun q h _ => plan q h⟩

theorem Demand.writable_resolves [Spells A.name] (hs : Schema.Only A.name schema) (root : ι) :
    (Demand.writable A schema d).Resolves schema root (Scope.Only A.name) where
  path path inner := (resolvePath_only hs root path inner).imp fun _ hc => ⟨hc.1, fun _ => hc.2⟩
  template _ _ h := h

/-! ## Fragments -/

variable {nested : Plan ι → Binding Sql}

/-- A word that may stand behind a placeholder. -/
def Text.Separates (s : String) : Prop :=
  Text.Only Common s ∧ s.toList.head?.any (!·.isDigit) = true

instance (s : String) : Decidable (Text.Separates s) := instDecidableAnd

namespace Sql.Fragment

theorem nil : Fragment A d [] := ⟨nofun, fun _ => trivial⟩

theorem of_only {sql : Sql} (h : sql.Only A) (hp : sql.params = []) : Fragment A d sql :=
  ⟨h, fun _ => apart_of_params_eq_nil hp⟩

theorem append {a b : Sql} (ha : Fragment A d a) (hb : Fragment A d b)
    (ho : d.placeholder = .dollar → Opens d b) : Fragment A d (a ++ b) where
  only p hp := (List.mem_append.1 hp).elim (ha.only p) (hb.only p)
  apart hd := (ha.apart hd).append (hb.apart hd) (ho hd)

theorem text {s : String} (hs : Text.Only A.text s) {sql : Sql} (h : Fragment A d sql) :
    Fragment A d (.text s :: sql) where
  only p hp := by
    rcases List.mem_cons.1 hp with rfl | hp
    · exact hs
    · exact h.only p hp
  apart hd := ⟨fun hp => absurd rfl hp, h.apart hd⟩

theorem ident {c : Column} (hc : c.Only A.name) {sql : Sql} (h : Fragment A d sql) :
    Fragment A d (.ident c :: sql) where
  only p hp := by
    rcases List.mem_cons.1 hp with rfl | hp
    · exact hc
    · exact h.only p hp
  apart hd := ⟨fun hp => absurd rfl hp, h.apart hd⟩

theorem param (n : Nat) : Fragment A d [.param n] where
  only p hp := by
    obtain rfl := List.mem_singleton.1 hp
    trivial
  apart _ := ⟨fun _ c hc => by simp [print] at hc, trivial⟩

variable [Spells A.text]

theorem word {s : String} (hs : Text.Only Common s) {sql : Sql} (h : Fragment A d sql) :
    Fragment A d (.text s :: sql) :=
  h.text (Text.word hs)

/-- Two fragments with a separator between them. -/
theorem sep {a b : Sql} (ha : Fragment A d a) {s : String} (hs : Text.Separates s)
    (hb : Fragment A d b) : Fragment A d (a ++ .text s :: b) :=
  ha.append (hb.word hs.1) fun _ => opens_text hs.2 b

theorem close {a : Sql} (ha : Fragment A d a) {s : String} (hs : Text.Separates s) :
    Fragment A d (a ++ [.text s]) :=
  ha.sep hs nil

theorem join {s : String} (hs : Text.Separates s) : ∀ {parts : List Sql},
    (∀ p ∈ parts, Fragment A d p) → Fragment A d (Sql.join s parts)
  | [], _ => nil
  | [p], h => h p List.mem_cons_self
  | p :: q :: rest, h => by
    have hj : Sql.join s (p :: q :: rest) = p ++ .text s :: Sql.join s (q :: rest) := by
      simp [Sql.join, Sql.ofText]
    rw [hj]
    exact (h p List.mem_cons_self).sep hs (join hs fun r hr => h r (List.mem_cons_of_mem p hr))

end Sql.Fragment

/-- A fragment that may follow any other. -/
structure Sql.Clause (A : Alphabet) (d : Dialect) (sql : Sql) : Prop
    extends Sql.Fragment A d sql where
  opens : Sql.Opens d sql

namespace Sql.Clause

theorem nil : Clause A d [] := ⟨.nil, fun c hc => by simp [print] at hc⟩

theorem text [Spells A.text] {s : String} (hs : Text.Separates s) {sql : Sql} (h : Fragment A d sql) :
    Clause A d (.text s :: sql) :=
  ⟨h.word hs.1, opens_text hs.2 sql⟩

theorem append {a b : Sql} (ha : Clause A d a) (hb : Clause A d b) : Clause A d (a ++ b) :=
  ⟨ha.toFragment.append hb.toFragment fun _ => hb.opens, ha.opens.append hb.opens⟩

theorem flatMap {α : Type} {f : α → Sql} : ∀ {l : List α}, (∀ a ∈ l, Clause A d (f a)) →
    Clause A d (l.flatMap f)
  | [], _ => nil
  | a :: l, h => by
    rw [List.flatMap_cons]
    exact (h a List.mem_cons_self).append (flatMap fun b hb => h b (List.mem_cons_of_mem a hb))

end Sql.Clause

theorem Sql.Fragment.before {a b : Sql} (ha : Fragment A d a) (hb : Clause A d b) :
    Fragment A d (a ++ b) :=
  ha.append hb.toFragment fun _ => hb.opens

/-! ## Templates and comparisons -/

/-- Every run of a binding gives such a result. -/
abbrev Binding.Gives {α : Type} (b : Binding α) (Q : α → Prop) : Prop := Keeps (fun _ => True) b Q

theorem bindValue_gives (v : Value) : (bindValue v).Gives fun q => ∃ n, q = .param n := by
  intro args _
  refine ⟨trivial, fun q hq => ⟨(args ++ [v]).length, ?_⟩⟩
  have : (outcome (bindValue v) args).1 = .ok (.param (args ++ [v]).length) := rfl
  rw [this, Except.ok.injEq] at hq
  exact hq.symm

/-- Literals of a template are characters of its text other than the sign of a parameter. -/
theorem TemplateToken.literal_mem (cs : List Char) :
    ∀ c, .literal c ∈ ofText cs → c ∈ cs ∧ c ≠ '?' := by
  induction cs using ofText.induct with
  | case1 => simp [ofText]
  | case2 rest ih =>
    intro c hc
    simp only [ofText, List.mem_cons, reduceCtorEq, false_or] at hc
    exact ⟨List.mem_cons_of_mem _ (List.mem_cons_of_mem _ (ih c hc).1), (ih c hc).2⟩
  | case3 rest ih =>
    intro c hc
    simp only [ofText, List.mem_cons, literal.injEq] at hc
    rcases hc with rfl | hc
    · exact ⟨by simp, by decide⟩
    · exact ⟨List.mem_cons_of_mem _ (List.mem_cons_of_mem _ (ih c hc).1), (ih c hc).2⟩
  | case4 rest ih =>
    intro c hc
    simp only [ofText, List.mem_cons, reduceCtorEq, false_or] at hc
    exact ⟨List.mem_cons_of_mem _ (ih c hc).1, (ih c hc).2⟩
  | case5 x rest hs hp hq ih =>
    intro c hc
    rw [ofText] at hc
    · rcases List.mem_cons.1 hc with hc | hc
      · simp only [literal.injEq] at hc
        subst hc
        exact ⟨List.mem_cons_self, fun h => hq (h ▸ rfl)⟩
      · exact ⟨List.mem_cons_of_mem _ (ih c hc).1, (ih c hc).2⟩
    all_goals assumption

theorem Template.fill_fragment (t : Template) : ∀ (tokens : List TemplateToken)
    (columns : List Column) (params : List Value),
    (∀ c, .literal c ∈ tokens → A.text c) →
    (d.placeholder = .dollar → TemplateToken.spaced d tokens = true) →
    (∀ c ∈ columns, Column.Only A.name c ∧ (d.placeholder = .dollar → c ≠ [])) →
    (t.fill tokens columns params).Gives fun sql => sql.Fragment A d ∧
      (d.placeholder = .dollar → tokens.head?.any (TemplateToken.startsWithDigit d) = false →
        sql.Opens d) := by
  intro tokens columns params
  fun_induction t.fill tokens columns params with
  | case1 => exact fun _ _ _ => Keeps.of_pure ⟨.nil, fun _ _ c hc => by simp [Sql.print] at hc⟩
  | case2 => exact fun _ _ _ => Keeps.of_throw
  | case3 => exact fun _ _ _ => Keeps.of_throw
  | case4 rest c cs ps ih =>
    intro hl hsp hc
    refine (ih (fun x hx => hl x (List.mem_cons_of_mem _ hx)) (fun h => ?_)
      fun x hx => hc x (List.mem_cons_of_mem _ hx)).bind fun sql hsql => Keeps.of_pure ?_
    · have := hsp h
      rw [TemplateToken.spaced, Bool.and_eq_true] at this
      exact this.2
    · obtain ⟨hcol, hne⟩ := hc c List.mem_cons_self
      refine ⟨hsql.1.ident hcol, fun hd hq x hx => ?_⟩
      have hhead := d.head?_quotePath (hne hd)
      rw [Sql.toList_print_cons, List.head?_append, Piece.print, hhead] at hx
      simp only [Option.some_or, Option.some.injEq] at hx
      simpa [TemplateToken.startsWithDigit, hx] using hq
  | case5 => exact fun _ _ _ => Keeps.of_throw
  | case6 rest cs p ps ih =>
    intro hl hsp hc
    refine (bindValue_gives p).bind ?_
    rintro _ ⟨n, rfl⟩
    have hspaced := fun h => hsp h
    simp only [TemplateToken.spaced, beq_self_eq_true, Bool.true_and, Bool.and_eq_true,
      Bool.not_eq_true'] at hspaced
    refine (ih (fun x hx => hl x (List.mem_cons_of_mem _ hx)) (fun h => (hspaced h).2) hc).bind
      fun sql hsql => Keeps.of_pure ?_
    refine ⟨(Sql.Fragment.param n).append hsql.1 fun h => hsql.2 h (hspaced h).1, fun hd _ x hx => ?_⟩
    rw [Sql.toList_print_cons] at hx
    simp [Piece.print, Dialect.placeholderText, hd, Placeholder.text] at hx
    subst hx
    decide
  | case7 c rest cs ps ih =>
    intro hl hsp hc
    refine (ih (fun x hx => hl x (List.mem_cons_of_mem _ hx)) (fun h => ?_) hc).bind
      fun sql hsql => Keeps.of_pure ?_
    · have := hsp h
      rw [TemplateToken.spaced, Bool.and_eq_true] at this
      exact this.2
    · refine ⟨hsql.1.text (Text.only_singleton (hl c List.mem_cons_self)), fun _ hq => ?_⟩
      refine Sql.opens_text ?_ sql
      simpa [TemplateToken.startsWithDigit] using hq

theorem Template.write_fragment {t : Template}
    (ht : (Demand.writable A schema d).template t)
    (hc : ∀ cs, t.columns = some cs → ∀ c ∈ cs, (Demand.writable A schema d).column c) :
    t.write.Gives (Sql.Fragment A d) := by
  unfold Template.write
  split
  · exact Keeps.of_throw
  · rename_i columns hcols
    refine (t.fill_fragment _ columns t.params (fun c hmem => ?_) ht.2 (hc columns hcols)).imp
      fun _ h => h.1
    obtain ⟨hin, hq⟩ := TemplateToken.literal_mem _ c hmem
    exact ht.1 c hin hq

theorem Lookup.operator_separates (l : Lookup) : Text.Separates (" " ++ l.operator ++ " ") := by
  cases l <;> decide

theorem Lookup.write_fragment [Spells A.text] (l : Lookup) {c : Column} (hc : c.Only A.name)
    (values : List Value) :
    (l.write [.ident c] values).Gives (Sql.Fragment A d) := by
  refine Keeps.of_forall fun args sql args' hy => ?_
  have name : Sql.Fragment A d [.ident c] := Sql.Fragment.nil.ident hc
  have slot : ∀ {v a q a'}, Yields (bindValue v) a q a' → Sql.Fragment A d [q] := by
    intro v a q a' h
    obtain ⟨-, n, rfl⟩ := (bindValue_gives v).of_yields trivial h
    exact .param n
  cases Lookup.written_of_yields hy with
  | never => exact Sql.Fragment.nil.word (by decide)
  | @member _ _ ps h =>
    have hps := ((Keeps.mapM fun v _ => bindValue_gives v).of_yields trivial h).2
    have items : Sql.Fragment A d (Sql.join ", " (ps.map ([·]))) := by
      refine Sql.Fragment.join (by decide) fun p hp => ?_
      obtain ⟨q, hq, rfl⟩ := List.mem_map.1 hp
      obtain ⟨n, rfl⟩ := hps q hq
      exact .param n
    rw [List.append_assoc, List.append_assoc]
    exact name.sep (by decide) (items.close (by decide))
  | pattern p h =>
    unfold Lookup.Pattern.write
    split
    · exact ((name.sep (by decide) ((slot h).close (by decide))).word (by decide))
    · exact name.sep (by decide) ((slot h).close (by decide))
  | null wanted =>
    refine name.close ?_
    cases wanted <;> decide
  | compared l h => exact name.sep l.operator_separates (slot h)

/-! ## Expressions -/

namespace Expression

theorem enclose_fragment [Spells A.text] {negated : Bool} {inner : Sql}
    (h : inner.Fragment A d) :
    (enclose negated inner).Fragment A d := by
  refine (h.close (by decide)).word ?_
  cases negated <;> decide

theorem useSql_fragment [Spells A.name] [Spells A.text] {use : SubqueryUse} {column : Option Column}
    {inner sql : Sql}
    (hc : ∀ c, column = some c → Column.Only A.name c) (hi : inner.Fragment A d)
    (h : useSql use column inner = .ok sql) : sql.Fragment A d := by
  unfold useSql at h
  split at h
  · split at h
    · cases h
    · cases h
      exact ((hi.close (by decide)).word (by decide)).ident (hc _ rfl)
  · cases h
    exact (hi.close (by decide)).word (by decide)
  · cases h
    have name : Sql.Fragment A d [.ident ["djorm_count"], .text ")"] :=
      (Sql.Fragment.nil.word (by decide)).ident (Column.only_one (Text.word (by decide)))
    exact (hi.sep (by decide) name).word (by decide)
  · cases h
    exact (hi.close (by decide)).word (by decide)

theorem projected_eq_ok {plan q : Plan ι} (h : projected schema plan = .ok q) :
    ∃ select, q = { plan with select } := by
  unfold projected at h
  split at h
  · simp only [bind_eq_ok, pure_eq_ok] at h
    obtain ⟨pk, -, rfl⟩ := h
    exact ⟨_, rfl⟩
  · simp only [pure_eq_ok] at h
    subst h
    refine ⟨plan.select, ?_⟩
    cases plan
    rfl

theorem projected_writable {plan q : Plan ι} (h : projected schema plan = .ok q)
    (hp : (Demand.writable A schema d).OnPlan plan) : (Demand.writable A schema d).OnPlan q := by
  obtain ⟨select, rfl⟩ := projected_eq_ok h
  rw [Demand.onPlan_iff] at hp ⊢
  exact ⟨⟨hp.1.annotations, hp.1.targets, hp.1.conditions⟩, hp.2⟩

mutual
theorem write_fragment [Spells A.name] [Spells A.text]
    (hn : ∀ p, (Demand.writable A schema d).OnPlan p → (nested p).Gives (Sql.Fragment A d)) :
    ∀ e : Expression ι, (Demand.writable A schema d).OnExpression e →
      (e.write schema nested).Gives (Sql.Fragment A d)
  | .leaf l, h => by
    rw [Demand.OnExpression] at h
    unfold write
    split
    · exact Keeps.of_throw
    · rename_i c hc
      exact l.lookup.write_fragment (h c hc).1 _
  | .raw t, h => by
    rw [Demand.OnExpression] at h
    unfold write
    exact Template.write_fragment h.1 h.2
  | .func t, h => by
    rw [Demand.OnExpression] at h
    unfold write
    exact Template.write_fragment h.1 h.2
  | .group connector negated [], _ => by
    unfold write
    refine Keeps.of_pure (enclose_fragment (Sql.Fragment.nil.word ?_))
    cases connector <;> decide
  | .group connector negated (e :: rest), h => by
    rw [Demand.OnExpression, Demand.OnAll] at h
    unfold write
    refine (write_fragment hn e h.1).bind fun first hf => ?_
    refine (writeAll_fragment hn rest h.2).bind fun parts hp => Keeps.of_pure ?_
    refine enclose_fragment (Sql.Fragment.join ?_ fun p hmem => ?_)
    · cases connector <;> decide
    · rcases List.mem_cons.1 hmem with rfl | hmem
      · exact hf
      · exact hp p hmem
  | .subquery use lhs column plan, h => by
    rw [Demand.OnExpression] at h
    unfold write
    refine (Keeps.of_result fun q hq => projected_writable hq h.2).bind fun q hq => ?_
    refine (hn q hq).bind fun inner hi => Keeps.of_result fun sql hsql => ?_
    exact useSql_fragment (fun c hc => (h.1 c hc).1) hi hsql

theorem writeAll_fragment [Spells A.name] [Spells A.text]
    (hn : ∀ p, (Demand.writable A schema d).OnPlan p → (nested p).Gives (Sql.Fragment A d)) :
    ∀ es : List (Expression ι), (Demand.writable A schema d).OnAll es →
      (writeAll schema nested es).Gives fun parts => ∀ p ∈ parts, Sql.Fragment A d p
  | [], _ => by
    unfold writeAll
    exact Keeps.of_pure (by simp)
  | e :: rest, h => by
    rw [Demand.OnAll] at h
    unfold writeAll
    refine (write_fragment hn e h.1).bind fun first hf => ?_
    refine (writeAll_fragment hn rest h.2).bind fun parts hp => Keeps.of_pure fun p hmem => ?_
    rcases List.mem_cons.1 hmem with rfl | hmem
    · exact hf
    · exact hp p hmem
end

end Expression

theorem writeAnnotations_fragment [Spells A.name] [Spells A.text]
    (hn : ∀ p, (Demand.writable A schema d).OnPlan p → (nested p).Gives (Sql.Fragment A d)) :
    ∀ es : List (String × Expression ι), (∀ a ∈ es, Text.Only A.name a.1) →
      (Demand.writable A schema d).OnNamed es →
      (writeAnnotations schema nested es).Gives fun parts => ∀ p ∈ parts, Sql.Fragment A d p
  | [], _, _ => by
    unfold writeAnnotations
    exact Keeps.of_pure (by simp)
  | (name, e) :: rest, ha, h => by
    rw [Demand.OnNamed] at h
    unfold writeAnnotations
    refine (Expression.write_fragment hn e h.1).bind fun value hv => ?_
    refine (writeAnnotations_fragment hn rest (fun a hm => ha a (List.mem_cons_of_mem _ hm)) h.2).bind
      fun parts hp => Keeps.of_pure fun p hmem => ?_
    rcases List.mem_cons.1 hmem with rfl | hmem
    · exact hv.sep (by decide) (Sql.Fragment.nil.ident (Column.only_one (ha _ List.mem_cons_self)))
    · exact hp p hmem

end Orm
