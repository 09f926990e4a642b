import Orm.Proofs.Alike.Basic
import Orm.Proofs.Placeholder.Numbering

/-
Queries that are alike are compiled alike: both fail, or both give the same text and the same plan of
columns, up to the numbers of the parameters. How deep nested queries may be does not matter, as long
as it is deep enough.

Their texts differ at most in the numbers of their parameters, by as much as the runs that wrote them had
bound before: a value never gets into the text.
-/

namespace Orm

section

variable {ι : Type}

/-! ## Numbers that run on -/

/-- The number of a parameter when `k` more values are bound before it. -/
def Piece.shift (k : Nat) : Piece → Piece
  | .param n => .param (n + k)
  | piece => piece

def Sql.shift (k : Nat) (sql : Sql) : Sql := sql.map (Piece.shift k)

namespace Sql

@[simp] theorem shift_nil (k : Nat) : Sql.shift k [] = [] := rfl

@[simp] theorem shift_cons (k : Nat) (piece : Piece) (sql : Sql) :
    Sql.shift k (piece :: sql) = piece.shift k :: Sql.shift k sql := rfl

@[simp] theorem shift_append (k : Nat) (a b : Sql) :
    Sql.shift k (a ++ b) = Sql.shift k a ++ Sql.shift k b :=
  List.map_append

theorem shift_zero (sql : Sql) : Sql.shift 0 sql = sql := by
  have hid : Piece.shift 0 = id := by
    funext piece
    cases piece <;> rfl
  rw [Sql.shift, hid, List.map_id]

/-- Text without parameters stays as it is. -/
theorem shift_of_params (k : Nat) : ∀ {sql : Sql}, sql.params = [] → Sql.shift k sql = sql
  | [], _ => rfl
  | piece :: sql, h => by
    cases piece with
    | param n => cases h
    | _ => exact congrArg (_ :: ·) (shift_of_params k h)

theorem shift_join (k : Nat) (separator : String) : ∀ parts : List Sql,
    Sql.shift k (Sql.join separator parts) = Sql.join separator (parts.map (Sql.shift k))
  | [] => rfl
  | [_] => rfl
  | p :: q :: rest => by
    have ih := shift_join k separator (q :: rest)
    change Sql.shift k (p ++ ofText separator ++ Sql.join separator (q :: rest)) = _
    rw [shift_append, shift_append, ih]
    rfl

end Sql

/-- The second text is the first, its parameters counted from `k` on. -/
def Shifted (k : Nat) (a b : Sql) : Prop := b = Sql.shift k a

def ShiftedAll (k : Nat) (as bs : List Sql) : Prop := bs = as.map (Sql.shift k)

/-! ## Expressions -/

/-- How runs that are `k` values apart write values that may stand for each other. -/
structure Likeness.Writes (L : Likeness) (k : Nat) (R : List Value → List Value → Prop) :
    Prop where
  compared : ∀ {l : Lookup} {vs ws : List Value} (c : Column), L.compared l vs ws →
    Paired R (l.write [.ident c] vs) (l.write [.ident c] ws) (Shifted k)
  filled : ∀ {vs ws : List Value} (t u : Template) (tokens : List TemplateToken)
    (columns : List Column), L.filled vs ws →
    Paired R (t.fill tokens columns vs) (u.fill tokens columns ws) (Shifted k)

variable {schema : Schema ι} {nested nested' : Plan ι → Binding Sql} {L : Likeness} {k n : Nat}
  {R : List Value → List Value → Prop}

open Expression (depth depthAll depthNamed planDepth)

/-- Nested queries that are alike, and nested less than `n` deep, are written alike. -/
def Likeness.Nests (L : Likeness) (k : Nat) (R : List Value → List Value → Prop) (n : Nat)
    (nested nested' : Plan ι → Binding Sql) : Prop :=
  ∀ p q, Plan.Like L p q → planDepth p < n → Paired R (nested p) (nested' q) (Shifted k)

theorem Template.write_paired (hL : L.Writes k R) {a b : Template} (h : Template.Like L a b) :
    Paired R a.write b.write (Shifted k) := by
  unfold Template.write
  rw [h.columns, h.text]
  cases a.columns with
  | none => exact .of_throw
  | some columns => exact hL.filled a b _ columns h.params

theorem Plan.Like.projected {p q : Plan ι} (h : Plan.Like L p q) :
    Tied (fun p' q' => Plan.Like L p' q' ∧ planDepth p' = planDepth p)
      (Expression.projected schema p) (Expression.projected schema q) := by
  cases h with
  | mk ha hf =>
    unfold Expression.projected
    dsimp only
    split
    · refine (Tied.same _).bind fun pk pk' hpk => ?_
      subst hpk
      refine ⟨.mk ha hf, ?_⟩
      rw [Expression.planDepth_eq, Expression.planDepth_eq]
    · exact ⟨.mk ha hf, rfl⟩

theorem shift_useSql (use : SubqueryUse) (column : Option Column) {a b : Sql} (h : Shifted k a b) :
    Tied (Shifted k) (Expression.useSql use column a) (Expression.useSql use column b) := by
  subst h
  unfold Expression.useSql
  cases use with
  | inList =>
    cases column with
    | none => trivial
    | some c => simp [Tied, Shifted, Piece.shift]
  | «exists» => simp [Tied, Shifted, Piece.shift]
  | count => simp [Tied, Shifted, Piece.shift]
  | scalar => simp [Tied, Shifted, Piece.shift]

theorem shift_enclose (negated : Bool) (inner : Sql) :
    Sql.shift k (Expression.enclose negated inner) =
      Expression.enclose negated (Sql.shift k inner) := by
  simp [Expression.enclose, Piece.shift]

mutual
theorem Expression.write_paired (hL : L.Writes k R) (hn : L.Nests k R n nested nested') :
    ∀ {a b : Expression ι}, Expression.Like L a b → depth a ≤ n →
    Paired R (Expression.write schema nested a) (Expression.write schema nested' b) (Shifted k)
  | _, _, @Expression.Like.leaf _ _ a _ h, _ => by
    rw [Expression.write, Expression.write, h.column, h.lookup]
    cases a.column with
    | none => exact .of_throw
    | some c => exact hL.compared c h.values
  | _, _, .raw h, _ => by
    rw [Expression.write, Expression.write]
    exact Template.write_paired hL h
  | _, _, .func h, _ => by
    rw [Expression.write, Expression.write]
    exact Template.write_paired hL h
  | _, _, .group .nil, _ => by
    rw [Expression.write, Expression.write]
    refine .of_pure ?_
    rw [Shifted, shift_enclose]
    rfl
  | _, _, .group (.cons h hs), hd => by
    rw [depth, depthAll] at hd
    rw [Expression.write, Expression.write]
    refine (Expression.write_paired hL hn h (by omega)).bind fun first first' hf => ?_
    refine (Expression.writeAll_paired hL hn hs (by omega)).bind fun parts parts' hp => ?_
    refine .of_pure ?_
    subst hf hp
    rw [Shifted, shift_enclose, Sql.shift_join, List.map_cons]
  | _, _, @Expression.Like.subquery _ _ use _ column _ _ h, hd => by
    rw [depth] at hd
    rw [Expression.write, Expression.write]
    refine (Paired.of_tied h.projected).bind fun p' q' hp => ?_
    refine (hn p' q' hp.1 (by omega)).bind fun inner inner' hi => ?_
    exact .of_tied (shift_useSql use column hi)

theorem Expression.writeAll_paired (hL : L.Writes k R) (hn : L.Nests k R n nested nested') :
    ∀ {as bs : List (Expression ι)}, Expression.LikeAll L as bs → depthAll as ≤ n →
    Paired R (Expression.writeAll schema nested as) (Expression.writeAll schema nested' bs)
      (ShiftedAll k)
  | _, _, .nil, _ => .of_pure rfl
  | _, _, .cons h hs, hd => by
    rw [depthAll] at hd
    rw [Expression.writeAll, Expression.writeAll]
    refine (Expression.write_paired hL hn h (by omega)).bind fun first first' hf => ?_
    refine (Expression.writeAll_paired hL hn hs (by omega)).bind fun parts parts' hp => ?_
    refine .of_pure ?_
    subst hf hp
    rfl
end

end

section

variable {ι : Type} {schema : Schema ι} {nested nested' : Plan ι → Binding Sql} {L : Likeness}
  {k n : Nat} {R : List Value → List Value → Prop} {root : ι} {paths : List String}
  {asNested dedupe : Bool}

open Expression (depth depthAll depthNamed planDepth)

theorem shift_whereSql (parts : List Sql) :
    Sql.shift k (whereSql parts) = whereSql (parts.map (Sql.shift k)) := by
  unfold whereSql
  rw [List.isEmpty_map]
  split
  · rfl
  · rw [Sql.shift_cons, Sql.shift_join]
    rfl

/-! ## Resolving -/

theorem resolveFilters_paired (hL : L.Pins) : ∀ {as bs : List (Expression ι)},
    Expression.LikeAll L as bs → Paired Eq (resolveFilters schema root as)
      (resolveFilters schema root bs)
      fun as' bs' => Expression.LikeAll L as' bs' ∧ depthAll as' = depthAll as
  | _, _, .nil => .of_pure ⟨.nil, rfl⟩
  | a :: as, b :: bs, .cons h hs => by
    rw [resolveFilters, resolveFilters]
    refine (Expression.resolveIn_paired hL true h).bind fun a' b' h' => ?_
    refine (resolveFilters_paired hL hs).bind fun as' bs' hs' => ?_
    exact .of_pure ⟨.cons h'.1 hs'.1, by rw [depthAll, depthAll, h'.2, hs'.2]⟩

/-- Alike and under the same names. -/
theorem Expression.LikeNamed.names_eq {as bs : List (String × Expression ι)}
    (h : Expression.LikeNamed L as bs) : bs.map (·.1) = as.map (·.1) := by
  induction as generalizing bs with
  | nil =>
    cases h
    rfl
  | cons a as ih =>
    cases h with
    | cons h hs => rw [List.map_cons, List.map_cons, ih hs]

theorem resolveNamed_paired (hL : L.Pins) : ∀ {as bs : List (String × Expression ι)},
    Expression.LikeNamed L as bs → Paired Eq (resolveNamed schema root as)
      (resolveNamed schema root bs)
      fun as' bs' => Expression.LikeNamed L as' bs' ∧ depthNamed as' = depthNamed as
  | _, _, .nil => .of_pure ⟨.nil, rfl⟩
  | (name, a) :: as, (_, b) :: bs, .cons h hs => by
    rw [resolveNamed, resolveNamed]
    refine (Expression.resolveIn_paired hL true h).bind fun a' b' h' => ?_
    refine (resolveNamed_paired hL hs).bind fun as' bs' hs' => ?_
    exact .of_pure ⟨.cons h'.1 hs'.1, by rw [depthNamed, depthNamed, h'.2, hs'.2]⟩

/-- Resolved queries that are alike, of computed columns and predicates nested at most `n` deep. -/
structure ResolvedSelect.Like (L : Likeness) (n : Nat) (r r' : ResolvedSelect ι) : Prop where
  scan : r'.scan = r.scan
  ordering : r'.ordering = r.ordering
  annotations : Expression.LikeNamed L r.annotations r'.annotations
  filters : Expression.LikeAll L r.filters r'.filters
  depthNamed_le : depthNamed r.annotations ≤ n
  depthAll_le : depthAll r.filters ≤ n
  ordering_params : ∀ item ∈ r.ordering, item.params = []

theorem Plan.resolve_paired (hL : L.Pins) {p q : Plan ι} (h : Plan.Like L p q) :
    Paired Eq (p.resolve schema paths asNested dedupe) (q.resolve schema paths asNested dedupe)
      (ResolvedSelect.Like L (planDepth p)) := by
  cases h with
  | mk ha hf =>
    rw [Expression.planDepth_eq]
    unfold Plan.resolve Plan.check Plan.ordering
    dsimp only
    rw [ha.names_eq]
    refine (Paired.same _).bind fun _ _ _ => ?_
    refine (Paired.same _).bind fun _ _ _ => ?_
    refine (Paired.same _).bind fun scan scan' hs => ?_
    refine (resolveNamed_paired hL ha).bind fun annotations annotations' ha' => ?_
    refine (resolveFilters_paired hL hf).bind fun filters filters' hf' => ?_
    refine (Paired.same_of_keeps (Keeps.mapM fun item _ =>
      resolveOrderingItem_params _ _ item)).bind fun ordering ordering' ho => ?_
    refine (Paired.same _).bind fun scope scope' hsc => ?_
    obtain ⟨rfl, ho⟩ := ho
    subst hs hsc
    refine .of_pure ⟨rfl, rfl, ha'.1, hf'.1, ?_, ?_, ho⟩
    · rw [ha'.2]
      exact Nat.le_max_left _ _
    · rw [hf'.2]
      exact Nat.le_max_right _ _

/-! ## Texts -/

theorem writeAnnotations_paired (hL : L.Writes k R) (hn : L.Nests k R n nested nested') :
    ∀ {as bs : List (String × Expression ι)}, Expression.LikeNamed L as bs → depthNamed as ≤ n →
    Paired R (writeAnnotations schema nested as) (writeAnnotations schema nested' bs)
      (ShiftedAll k) := by
  intro as
  induction as with
  | nil =>
    intro bs h _
    cases h
    exact .of_pure rfl
  | cons _ as ih =>
    intro bs h hd
    cases h with
    | cons h hs =>
      rw [depthNamed] at hd
      rw [writeAnnotations, writeAnnotations]
      refine (Expression.write_paired hL hn h (by omega)).bind fun value value' hv => ?_
      refine (ih hs (by omega)).bind fun rest rest' hr => ?_
      refine .of_pure ?_
      subst hv hr
      simp [ShiftedAll, Piece.shift]

/-! ## SELECT -/

theorem Plan.shift_selectSql {p : Plan ι} {r : ResolvedSelect ι} {joins : List Join}
    {computed predicates : List Sql} (ho : ∀ item ∈ r.ordering, item.params = []) :
    Sql.shift k (p.selectSql schema r joins computed predicates) =
      p.selectSql schema r joins (computed.map (Sql.shift k)) (predicates.map (Sql.shift k)) := by
  have hentries : (r.scan.entries.map r.scan.fieldSql).map (Sql.shift k) =
      r.scan.entries.map r.scan.fieldSql := by
    rw [List.map_map]
    exact List.map_congr_left fun e _ => Sql.shift_of_params k (r.scan.fieldSql_params e)
  have hjoins := Sql.shift_of_params k (joinsSql_params joins)
  have hordering := Sql.shift_of_params k (orderingSql_params ho)
  have hpaging := Sql.shift_of_params k (pagingSql_params p.limit p.offset)
  simp only [Plan.selectSql, Sql.shift_append, Sql.shift_cons, Sql.shift_nil, Sql.shift_join,
    List.map_append, hentries, hjoins, shift_whereSql, hordering, hpaging, Piece.shift]

theorem Plan.Like.selectSql_eq {p q : Plan ι} (h : Plan.Like L p q) {r r' : ResolvedSelect ι}
    (hr : ResolvedSelect.Like L n r r') (joins : List Join) (computed predicates : List Sql) :
    q.selectSql schema r' joins computed predicates =
      p.selectSql schema r joins computed predicates := by
  cases h
  unfold Plan.selectSql
  rw [hr.scan, hr.ordering]

theorem ResolvedSelect.Like.fullScan_eq {r r' : ResolvedSelect ι}
    (h : ResolvedSelect.Like L n r r') : r'.fullScan = r.fullScan := by
  have hnames := congrArg (List.map fun name => (⟨name, .computed name⟩ : ScanEntry ι))
    h.annotations.names_eq
  rw [List.map_map, List.map_map] at hnames
  unfold ResolvedSelect.fullScan
  rw [h.scan]
  exact congrArg (fun computed => { r.scan with entries := r.scan.entries ++ computed }) hnames

/-- A text with the plan of its columns, and the same with the parameters counted from `k` on. -/
def ShiftedSelect (k : Nat) (out out' : Sql × ScanPlan ι) : Prop :=
  out' = (Sql.shift k out.1, out.2)

theorem Plan.writeSelect_paired (hp : L.Pins) (hL : L.Writes k R) {p q : Plan ι}
    (h : Plan.Like L p q) (hn : L.Nests k R (planDepth p) nested nested') :
    Paired R (p.writeSelect schema nested paths asNested dedupe)
      (q.writeSelect schema nested' paths asNested dedupe) (ShiftedSelect k) := by
  rw [Plan.writeSelect_eq, Plan.writeSelect_eq]
  obtain ⟨hr, hs⟩ := Plan.resolve_paired hp h {} {} rfl
  refine (Paired.of_tied hr).bind fun r r' hr => ?_
  refine (writeAnnotations_paired hL hn hr.annotations hr.depthNamed_le).bind
    fun computed computed' hc => ?_
  refine (Expression.writeAll_paired hL hn hr.filters hr.depthAll_le).bind
    fun predicates predicates' hpr => ?_
  refine .of_pure ?_
  subst hc hpr
  rw [ShiftedSelect, Plan.shift_selectSql hr.ordering_params, h.selectSql_eq hr, hr.fullScan_eq, hs]

theorem Plan.writeNested_paired (hp : L.Pins) (hL : L.Writes k R) (d d' : Nat) :
    L.Nests k R (min d d') (Plan.writeNested schema d) (Plan.writeNested schema d') := by
  induction d generalizing d' with
  | zero => exact fun p q h hd => by omega
  | succ d ih =>
    cases d' with
    | zero => exact fun p q h hd => by omega
    | succ d' =>
      intro p q h hd
      have hn : L.Nests k R (planDepth p) (Plan.writeNested schema d)
          (Plan.writeNested schema d') := fun p' q' h' hd' => ih d' p' q' h' (by omega)
      rw [Plan.writeNested, Plan.writeNested, h.select_eq]
      refine (Plan.writeSelect_paired hp hL h hn).bind fun out out' ho => ?_
      subst ho
      exact .of_pure rfl

end

end Orm
