import Orm.Proofs.Alike.Values
import Orm.Proofs.Place.Edge

/-
Whether a query can be resolved and written does not depend on what is in scope and bound already.
Runs from states of which nothing is known fail both or succeed both (`Paired Unrelated`); what they
give may be other columns, but as many of them (`Expression.SameForm`).
-/

namespace Orm

variable {ι α β σ τ : Type} {schema : Schema ι} {root : ι}

/-! ## Runs from any two states -/

/-- Nothing is known of the two. -/
def Unrelated (_ : α) (_ : β) : Prop := True

namespace Paired

variable {x : ExceptT Error (StateM σ) α} {y : ExceptT Error (StateM τ) β} {Q : α → β → Prop}

theorem yields (h : Paired Unrelated x y Q) {s s' : σ} {a : α} (hy : Yields x s a s') (t : τ) :
    ∃ b t', Yields y t b t' ∧ Q a b := by
  obtain ⟨hq, -⟩ := h s t trivial
  obtain ⟨b, hb, hab⟩ := hq.exists_ok (congrArg Prod.fst hy)
  exact ⟨b, (outcome y t).2, Prod.ext hb rfl, hab⟩

end Paired

/-! ## Joining -/

/-- Only the columns that a relation compares may be missing, wherever it starts. -/
theorem relationSteps_unrelated (x x' : String) (parent : Model ι) (f : FieldDef ι)
    (r : Relation ι) : Paired Unrelated (Naming.relationSteps schema x parent f r)
      (Naming.relationSteps schema x' parent f r) Unrelated := by
  intro a b _
  rw [outcome_relationSteps, outcome_relationSteps]
  cases relationEdges schema parent f r with
  | error e => exact ⟨trivial, trivial⟩
  | ok es => exact ⟨trivial, trivial⟩

theorem hop_unrelated (x x' : String) (parent : Model ι) (f : FieldDef ι) :
    Paired Unrelated (Naming.hop schema x parent f) (Naming.hop schema x' parent f) Unrelated := by
  unfold Naming.hop
  split
  · exact .of_throw
  · exact relationSteps_unrelated x x' parent f _

theorem chain_unrelated (x x' : String) (chain : List (Hop ι)) :
    Paired Unrelated (Naming.chain schema x chain) (Naming.chain schema x' chain) Unrelated := by
  induction chain generalizing x x' with
  | nil => exact .of_pure trivial
  | cons h chain ih =>
    unfold Naming.chain
    exact (relationSteps_unrelated x x' _ _ _).bind fun _ _ _ => (ih _ _).bind fun _ _ _ =>
      .of_pure trivial

theorem Paired.naming {n : Naming α} {n' : Naming β} (h : Paired Unrelated n n' Unrelated) :
    Paired Unrelated (Resolving.naming n) (Resolving.naming n') Unrelated := by
  intro s t _
  rw [outcome_naming, outcome_naming]
  exact ⟨(h s.aliases t.aliases trivial).1, trivial⟩

theorem addSteps_unrelated (kind kind' : JoinKind) (steps steps' : List JoinStep) :
    Paired Unrelated (addSteps kind steps) (addSteps kind' steps') Unrelated :=
  fun _ _ _ => ⟨trivial, trivial⟩

theorem joinChain_unrelated (x x' : String) (chain : List (Hop ι)) (kind kind' : JoinKind) :
    Paired Unrelated (joinChain schema x chain kind) (joinChain schema x' chain kind') Unrelated :=
  (chain_unrelated x x' chain).naming.bind fun _ _ _ =>
    (addSteps_unrelated _ _ _ _).bind fun _ _ _ => .of_pure trivial

theorem joinRelation_unrelated (x x' : String) (m : ι) (f : FieldDef ι) (kind kind' : JoinKind) :
    Paired Unrelated (joinRelation schema x m f kind) (joinRelation schema x' m f kind')
      Unrelated :=
  (hop_unrelated x x' (schema m) f).naming.bind fun _ _ _ =>
    (addSteps_unrelated _ _ _ _).bind fun _ _ _ => .of_pure trivial

theorem ofResult_unrelated (r : Result α) :
    Paired Unrelated (Resolving.ofResult r) (Resolving.ofResult r) Eq :=
  .of_tied (.same r)

/-- A path has a column whatever tables are in scope, or never. -/
theorem resolvePath_unrelated (path : String) (preferInner preferInner' : Bool) :
    Paired Unrelated (resolvePath schema root path preferInner)
      (resolvePath schema root path preferInner') Unrelated := by
  unfold resolvePath
  refine (ofResult_unrelated _).bind fun w w' hw => ?_
  subst hw
  split
  · exact .of_throw
  refine (joinChain_unrelated _ _ _ _ _).bind fun hops hops' _ => ?_
  dsimp only
  split
  · exact .of_pure trivial
  · refine (joinRelation_unrelated _ _ _ _ _ _).bind fun _ _ _ => ?_
    refine (ofResult_unrelated _).bind fun target target' ht => ?_
    subst ht
    exact (ofResult_unrelated _).bind fun _ _ _ => .of_pure trivial

/-- A path that has a column. -/
def Resolves (schema : Schema ι) (root : ι) (path : String) : Prop :=
  ∀ s, ∃ column t, Yields (resolvePath schema root path false) s column t

theorem Resolves.of_yields {path : String} {preferInner : Bool} {s t : Scope} {column : Column}
    (h : Yields (resolvePath schema root path preferInner) s column t) :
    Resolves schema root path := fun u => by
  obtain ⟨column', t', hy, -⟩ := (resolvePath_unrelated path preferInner false).yields h u
  exact ⟨column', t', hy⟩

/-! ## Expressions of one form -/

structure Leaf.SameForm (a b : Leaf) : Prop where
  lookup : b.lookup = a.lookup
  values : b.values = a.values
  column : b.column.isSome = a.column.isSome

structure Template.SameForm (a b : Template) : Prop where
  text : b.text = a.text
  params : b.params = a.params
  columns : b.columns.map List.length = a.columns.map List.length

mutual
/-- The second is the first with other columns in the place of its own. -/
inductive Expression.SameForm : Expression ι → Expression ι → Prop
  | leaf {a b : Leaf} (h : Leaf.SameForm a b) : SameForm (.leaf a) (.leaf b)
  | raw {a b : Template} (h : Template.SameForm a b) : SameForm (.raw a) (.raw b)
  | func {a b : Template} (h : Template.SameForm a b) : SameForm (.func a) (.func b)
  | group {c : Connector} {negated : Bool} {xs ys : List (Expression ι)}
    (h : Expression.AllSameForm xs ys) : SameForm (.group c negated xs) (.group c negated ys)
  | subquery {use : SubqueryUse} {lhs : Option String} {column column' : Option Column}
    {plan : Plan ι} (h : column'.isSome = column.isSome) :
    SameForm (.subquery use lhs column plan) (.subquery use lhs column' plan)

inductive Expression.AllSameForm : List (Expression ι) → List (Expression ι) → Prop
  | nil : AllSameForm [] []
  | cons {a b : Expression ι} {as bs : List (Expression ι)} (h : Expression.SameForm a b)
    (hs : Expression.AllSameForm as bs) : AllSameForm (a :: as) (b :: bs)
end

open Expression (depth depthAll planDepth)

theorem Template.resolve_unrelated (t : Template) :
    Paired Unrelated (Expression.Template.resolve schema root t)
      (Expression.Template.resolve schema root t) Template.SameForm := by
  unfold Expression.Template.resolve
  split
  · exact .of_pure ⟨rfl, rfl, rfl⟩
  · refine (Paired.mapM (List.forall₂_same.2 fun path _ =>
      resolvePath_unrelated path false false)).bind fun columns columns' h => ?_
    exact .of_pure ⟨rfl, rfl, congrArg some h.length_eq.symm⟩

mutual
/-- An expression is resolved to one form in any scope, or in none. -/
theorem Expression.resolveIn_unrelated : ∀ (top : Bool) (e : Expression ι),
    Paired Unrelated (Expression.resolveIn schema root top e)
      (Expression.resolveIn schema root top e)
      fun a b => Expression.SameForm a b ∧ depth a = depth e
  | top, .leaf l => by
    rw [Expression.resolveIn]
    refine (ofResult_unrelated _).bind fun _ _ _ => ?_
    split
    · exact .of_pure ⟨.leaf ⟨rfl, rfl, rfl⟩, rfl⟩
    · refine (resolvePath_unrelated _ _ _).bind fun _ _ _ => ?_
      exact .of_pure ⟨.leaf ⟨rfl, rfl, rfl⟩, rfl⟩
  | top, .raw t => by
    rw [Expression.resolveIn]
    exact (Template.resolve_unrelated t).bind fun _ _ h => .of_pure ⟨.raw h, rfl⟩
  | top, .func t => by
    rw [Expression.resolveIn]
    exact (Template.resolve_unrelated t).bind fun _ _ h => .of_pure ⟨.func h, rfl⟩
  | top, .group connector negated children => by
    rw [Expression.resolveIn]
    refine (ofResult_unrelated _).bind fun _ _ _ => ?_
    refine (Expression.resolveAll_unrelated _ children).bind fun as bs h => ?_
    exact .of_pure ⟨.group h.1, by rw [depth, depth, h.2]⟩
  | top, .subquery use lhs column plan => by
    unfold Expression.resolveIn
    refine (ofResult_unrelated _).bind fun _ _ _ => ?_
    split
    · refine (resolvePath_unrelated _ _ _).bind fun _ _ _ => ?_
      exact .of_pure ⟨.subquery rfl, rfl⟩
    · exact .of_pure ⟨.subquery rfl, rfl⟩

theorem Expression.resolveAll_unrelated : ∀ (top : Bool) (es : List (Expression ι)),
    Paired Unrelated (Expression.resolveAll schema root top es)
      (Expression.resolveAll schema root top es)
      fun as bs => Expression.AllSameForm as bs ∧ depthAll as = depthAll es
  | _, [] => .of_pure ⟨.nil, rfl⟩
  | top, e :: rest => by
    rw [Expression.resolveAll]
    refine (Expression.resolveIn_unrelated top e).bind fun a b h => ?_
    refine (Expression.resolveAll_unrelated top rest).bind fun as bs hs => ?_
    exact .of_pure ⟨.cons h.1 hs.1, by rw [depthAll, depthAll, h.2, hs.2]⟩
end

theorem resolveFilters_unrelated (es : List (Expression ι)) :
    Paired Unrelated (resolveFilters schema root es) (resolveFilters schema root es)
      fun as bs => Expression.AllSameForm as bs ∧ depthAll as = depthAll es := by
  induction es with
  | nil => exact .of_pure ⟨.nil, rfl⟩
  | cons e rest ih =>
    rw [resolveFilters]
    refine (Expression.resolveIn_unrelated true e).bind fun a b h => ?_
    refine ih.bind fun as bs hs => ?_
    exact .of_pure ⟨.cons h.1 hs.1, by rw [depthAll, depthAll, h.2, hs.2]⟩

/-! ## Texts -/

theorem bindValue_unrelated (v : Value) : Paired Unrelated (bindValue v) (bindValue v) Unrelated :=
  fun _ _ _ => ⟨trivial, trivial⟩

theorem Lookup.write_unrelated (l : Lookup) (c d : Sql) (values : List Value) :
    Paired Unrelated (l.write c values) (l.write d values) Unrelated := by
  unfold Lookup.write
  dsimp only
  split
  · split
    · exact .of_pure trivial
    · exact (Paired.mapM (List.forall₂_same.2 fun v _ => bindValue_unrelated v)).bind
        fun _ _ _ => .of_pure trivial
  refine (Paired.of_tied (.same _)).bind fun v v' hv => ?_
  subst hv
  split
  · exact (bindValue_unrelated _).bind fun _ _ _ => .of_pure trivial
  split
  · exact (Paired.of_tied (.same _)).bind fun _ _ _ => .of_pure trivial
  · split
    · exact .of_pure trivial
    · exact (bindValue_unrelated _).bind fun _ _ _ => .of_pure trivial
  · exact (bindValue_unrelated _).bind fun _ _ _ => .of_pure trivial

theorem Template.fill_unrelated (t u : Template) (tokens : List TemplateToken) :
    ∀ {cs ds : List Column} (params : List Value), ds.length = cs.length →
    Paired Unrelated (t.fill tokens cs params) (u.fill tokens ds params) Unrelated := by
  induction tokens with
  | nil =>
    intro cs ds params h
    cases cs with
    | nil =>
      obtain rfl := List.length_eq_zero_iff.1 h
      cases params with
      | nil => exact .of_pure trivial
      | cons _ _ => exact .of_throw
    | cons c cs =>
      obtain ⟨d, ds, rfl⟩ := List.exists_cons_of_length_eq_add_one h
      exact .of_throw
  | cons token tokens ih =>
    intro cs ds params h
    cases token with
    | column =>
      cases cs with
      | nil =>
        obtain rfl := List.length_eq_zero_iff.1 h
        exact .of_throw
      | cons c cs =>
        obtain ⟨d, ds, rfl⟩ := List.exists_cons_of_length_eq_add_one h
        exact (ih params (Nat.succ.inj h)).bind fun _ _ _ => .of_pure trivial
    | param =>
      cases params with
      | nil => exact .of_throw
      | cons v params =>
        exact (bindValue_unrelated v).bind fun _ _ _ => (ih params h).bind fun _ _ _ =>
          .of_pure trivial
    | literal c => exact (ih params h).bind fun _ _ _ => .of_pure trivial

theorem Template.write_unrelated {a b : Template} (h : Template.SameForm a b) :
    Paired Unrelated a.write b.write Unrelated := by
  have hcolumns := h.columns
  unfold Template.write
  rw [h.text, h.params]
  cases ha : a.columns with
  | none =>
    rw [ha, Option.map_none, Option.map_eq_none_iff] at hcolumns
    rw [hcolumns]
    exact .of_throw
  | some cs =>
    rw [ha, Option.map_some, Option.map_eq_some_iff] at hcolumns
    obtain ⟨ds, hds, hlength⟩ := hcolumns
    rw [hds]
    exact Template.fill_unrelated a b _ a.params hlength

theorem useSql_unrelated (use : SubqueryUse) {column column' : Option Column}
    (h : column'.isSome = column.isSome) (inner inner' : Sql) :
    Tied Unrelated (Expression.useSql use column inner) (Expression.useSql use column' inner') := by
  cases use with
  | inList =>
    cases column with
    | none =>
      cases column' with
      | none => trivial
      | some _ => cases h
    | some _ =>
      cases column' with
      | none => cases h
      | some _ => trivial
  | «exists» => trivial
  | count => trivial
  | scalar => trivial

section

variable {nested nested' : Plan ι → Binding Sql} {n : Nat}

/-- Queries nested less than `n` deep are written by both or by neither. -/
def NestUnrelated (n : Nat) (nested nested' : Plan ι → Binding Sql) : Prop :=
  ∀ q, planDepth q < n → Paired Unrelated (nested q) (nested' q) Unrelated

mutual
/-- Expressions of one form are both written, whatever is bound already, or neither. -/
theorem Expression.write_unrelated (hn : NestUnrelated n nested nested') :
    ∀ {a b : Expression ι}, Expression.SameForm a b → depth a ≤ n →
    Paired Unrelated (Expression.write schema nested a) (Expression.write schema nested' b) Unrelated
  | _, _, @Expression.SameForm.leaf _ a b h, _ => by
    have hcolumn := h.column
    rw [Expression.write, Expression.write, h.lookup, h.values]
    cases ha : a.column with
    | none =>
      rw [ha, Option.isSome_none, Option.isSome_eq_false_iff, Option.isNone_iff_eq_none] at hcolumn
      rw [hcolumn]
      exact .of_throw
    | some c =>
      rw [ha, Option.isSome_some] at hcolumn
      obtain ⟨d, hd⟩ := Option.isSome_iff_exists.1 hcolumn
      rw [hd]
      exact Lookup.write_unrelated _ _ _ _
  | _, _, .raw h, _ => by
    rw [Expression.write, Expression.write]
    exact Template.write_unrelated h
  | _, _, .func h, _ => by
    rw [Expression.write, Expression.write]
    exact Template.write_unrelated h
  | _, _, .group .nil, _ => by
    rw [Expression.write, Expression.write]
    exact .of_pure trivial
  | _, _, .group (.cons h hs), hd => by
    rw [depth, depthAll] at hd
    rw [Expression.write, Expression.write]
    exact (Expression.write_unrelated hn h (by omega)).bind fun _ _ _ =>
      (Expression.writeAll_unrelated hn hs (by omega)).bind fun _ _ _ => .of_pure trivial
  | _, _, @Expression.SameForm.subquery _ use _ _ _ plan h, hd => by
    rw [depth] at hd
    rw [Expression.write, Expression.write]
    have hprojected : Tied _ (Expression.projected schema plan) (Expression.projected schema plan) :=
      (Plan.Like.refl Likeness.equal_reflexive plan).projected.diag
    refine (Paired.of_tied hprojected).bind fun q q' hq => ?_
    obtain ⟨rfl, -, hdepth⟩ := hq
    exact (hn q (by omega)).bind fun inner inner' _ => .of_tied (useSql_unrelated use h _ _)

theorem Expression.writeAll_unrelated (hn : NestUnrelated n nested nested') :
    ∀ {as bs : List (Expression ι)}, Expression.AllSameForm as bs → depthAll as ≤ n →
    Paired Unrelated (Expression.writeAll schema nested as) (Expression.writeAll schema nested' bs)
      Unrelated
  | _, _, .nil, _ => .of_pure trivial
  | _, _, .cons h hs, hd => by
    rw [depthAll] at hd
    rw [Expression.writeAll, Expression.writeAll]
    exact (Expression.write_unrelated hn h (by omega)).bind fun _ _ _ =>
      (Expression.writeAll_unrelated hn hs (by omega)).bind fun _ _ _ => .of_pure trivial
end

/-- How deep queries may be nested does not matter as long as it is deep enough. -/
theorem Plan.writeNested_unrelated (d d' : Nat) :
    NestUnrelated (min d d') (Plan.writeNested schema d) (Plan.writeNested schema d') := by
  intro q hq s t _
  have hlike := Plan.Like.refl Likeness.equal_reflexive q
  -- each run does what it would with nothing bound before
  have alone (s : List Value) (d' : Nat) (hd : Expression.planDepth q < min d d') :
      Tied (Shifted s.length) (outcome (Plan.writeNested schema d q) []).1
        (outcome (Plan.writeNested schema d' q) s).1 :=
    (Plan.writeNested_paired Likeness.equal_pins (Likeness.equal_writes s) d d' q q hlike hd []
      s (List.append_nil s).symm).1
  have hs := alone s d (by omega)
  have ht := alone t d' hq
  exact ⟨(hs.symm.trans ht).imp fun _ _ _ => trivial, trivial⟩

end

end Orm
