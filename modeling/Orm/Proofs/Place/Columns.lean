import Orm.Proofs.Place.Visit
import Orm.Statement.Select

/-
The columns of paths and of expressions: each is named by the alias of the place where its path ends.
-/

namespace Orm

variable {ι : Type} {schema : Schema ι} {root : ι}

/-! ## Paths -/

namespace Walk

/-- The relation without a column at the end of a path, which is crossed as well. -/
def last? (w : Walk ι) : Option (Hop ι) :=
  w.field.bind fun f => if f.hasColumn then none else f.relation.map fun r => ⟨w.model, f, r⟩

def crossed (w : Walk ι) : List (Hop ι) := w.chain ++ w.last?.toList

def columnName (schema : Schema ι) (w : Walk ι) : String :=
  match w.last? with
  | some h => ((schema h.relation.target).pk?.map (·.column)).getD ""
  | none => (w.field.map (·.column)).getD ""

def joinKind (preferInner : Bool) (w : Walk ι) : JoinKind :=
  if preferInner && w.field.any w.keepsMatched then .inner else .left

/-- The last relation is joined from the left, whatever the others are. -/
def visits (kind : JoinKind) (w : Walk ι) : List (Visit ι) :=
  (placesFrom [] w.chain).map (Visit.mk kind) ++
    (placesFrom w.chain w.last?.toList).map (Visit.mk .left)

theorem last?_of_hasColumn {w : Walk ι} {f : FieldDef ι} (hf : w.field = some f)
    (hc : f.hasColumn = true) : w.last? = none := by
  simp [last?, hf, hc]

theorem last?_of_relation {w : Walk ι} {f : FieldDef ι} {r : Relation ι} (hf : w.field = some f)
    (hc : f.hasColumn = false) (hr : f.relation = some r) : w.last? = some ⟨w.model, f, r⟩ := by
  simp [last?, hf, hc, hr]

theorem mem_visits {kind : JoinKind} {w : Walk ι} {c : List (Hop ι)} :
    (∃ v ∈ w.visits kind, v.place = c) ↔ c <+: w.crossed ∧ c ≠ [] := by
  have hplaces : c ∈ placesFrom [] w.crossed ↔ c <+: w.crossed ∧ c ≠ [] := by
    rw [mem_placesFrom, List.nil_append]
    exact ⟨fun h => ⟨h.2.2, h.2.1⟩, fun h => ⟨List.nil_prefix, h.2, h.1⟩⟩
  rw [← hplaces, crossed, placesFrom_append, List.mem_append]
  simp [visits, or_and_right, exists_or]

end Walk

/-- The column that a path stands for. -/
def columnAt (schema : Schema ι) (root : ι) (a : Aliases) (path : String) : Column :=
  match walk schema root path with
  | .error _ => []
  | .ok w => [a.placeAlias schema root w.crossed, w.columnName schema]

/-- The places that a path visits where it is resolved. -/
def pathVisits (schema : Schema ι) (root : ι) (preferInner : Bool) (path : String) :
    List (Visit ι) :=
  match walk schema root path with
  | .error _ => []
  | .ok w => w.visits (w.joinKind preferInner)

/-- A path crosses the relations of a place: it goes on from there, or ends there without a column. -/
def Crosses (schema : Schema ι) (root : ι) (path : String) (c : List (Hop ι)) : Prop :=
  ∃ w, walk schema root path = .ok w ∧ c <+: w.crossed ∧ c ≠ []

theorem mem_pathVisits (preferInner : Bool) {path : String} {c : List (Hop ι)} :
    (∃ v ∈ pathVisits schema root preferInner path, v.place = c) ↔ Crosses schema root path c := by
  unfold pathVisits Crosses
  split
  · rename_i e he
    simp [he]
  · rename_i w hw
    simp [hw, Walk.mem_visits]

/-- The column at the end of a path, once the relations before it are joined. -/
def pathEnd (schema : Schema ι) (w : Walk ι) (f : FieldDef ι) (tableAlias : String) :
    Resolving Column := do
  if f.hasColumn then return [tableAlias, f.column]
  let targetAlias ← joinRelation schema tableAlias w.model f .left
  let target ← Resolving.ofResult (targetOf schema w.model f)
  let pk ← Resolving.ofResult (schema target).pk
  return [targetAlias, pk.column]

theorem pathEnd_grows (w : Walk ι) (f : FieldDef ι) (tableAlias : String) :
    Grows (pathEnd schema w f tableAlias) := by
  unfold pathEnd
  split
  · exact .of_pure
  · exact (joinRelation_grows _ _ _ _).bind fun _ => Grows.ofResult.bind fun _ =>
      Grows.ofResult.bind fun _ => .of_pure

theorem resolvePath_of_walk {path : String} {preferInner : Bool} {w : Walk ι} {f : FieldDef ι}
    (hw : walk schema root path = .ok w) (hf : w.field = some f) (s : Scope) :
    outcome (resolvePath schema root path preferInner) s =
      outcome (joinChain schema (schema root).table w.chain (w.joinKind preferInner) >>= fun hops =>
        pathEnd schema w f (hops.getLast?.getD (schema root).table)) s := by
  unfold resolvePath Walk.joinKind
  rw [Resolving.ofResult, outcome_bind, outcome_mk_pure, hw]
  dsimp only
  rw [hf]
  rfl

theorem resolvePath_grows (path : String) (preferInner : Bool) :
    Grows (resolvePath schema root path preferInner) := by
  unfold resolvePath
  refine Grows.ofResult.bind fun w => ?_
  split
  · exact .of_throw
  · exact (joinChain_grows _ _ _).bind fun hops => pathEnd_grows w _ _

variable [DecidableEq ι] {others : List String}

/-- A path visits the places along it, and its column is that of the place at its end. -/
theorem resolvePath_visits (hk : JoinKeysDistinct schema) (path : String) (preferInner : Bool) :
    Visits schema root others (resolvePath schema root path preferInner)
      (pathVisits schema root preferInner path) fun a c => c = columnAt schema root a path := by
  refine ⟨resolvePath_grows path preferInner, fun s joined c t hm hy hc => ?_⟩
  have hopen := hy
  simp only [resolvePath, Resolving.ofResult, Yields.bind_iff, Yields.mk_pure_iff] at hopen
  obtain ⟨w, _, ⟨hw, rfl⟩, hopen⟩ := hopen
  cases hf : w.field with
  | none =>
    rw [hf] at hopen
    exact absurd hopen Yields.not_throw
  | some f =>
  clear hopen
  obtain ⟨-, -, hl, hmem⟩ := walk_ok hw
  have hcolumn : ∀ b, columnAt schema root b path =
      [b.placeAlias schema root w.crossed, w.columnName schema] := by
    intro b
    simp only [columnAt, hw]
  have hvisits : pathVisits schema root preferInner path = w.visits (w.joinKind preferInner) := by
    simp only [pathVisits, hw]
  rw [hvisits]
  unfold Yields at hy
  rw [resolvePath_of_walk hw hf] at hy
  obtain ⟨hops, t', hj, hend⟩ := Yields.bind_iff.1 hy
  have hsound := (joinChain_grows _ _ _).sound hm.sound hj
  obtain ⟨hv, hplaced, -, hlast⟩ := joinRoot_visited hk hm ⟨_, hl⟩ hj
    (hc.of_extends ((pathEnd_grows _ _ _).extends hsound hend))
  rw [hlast, pathEnd] at hend
  by_cases hcol : f.hasColumn = true
  · rw [if_pos hcol, Yields.pure_iff] at hend
    obtain ⟨rfl, rfl⟩ := hend
    have hnone := Walk.last?_of_hasColumn hf hcol
    refine ⟨by simpa [Walk.visits, hnone, placesFrom] using hv, fun b hb => ?_⟩
    rw [hcolumn, Walk.crossed, Walk.columnName, hnone, hf]
    simp [hplaced.placeAlias_eq hb]
  · rw [if_neg hcol] at hend
    simp only [Resolving.ofResult, Yields.bind_iff, Yields.pure_iff, Yields.mk_pure_iff] at hend
    obtain ⟨y, _, hrel, target, _, ⟨ht, rfl⟩, pk, _, ⟨hpk, rfl⟩, rfl, rfl⟩ := hend
    obtain ⟨r, hr, -⟩ := FieldDef.relation_of_not_hasColumn (Bool.eq_false_iff.2 hcol)
    obtain ⟨r', hr', rfl⟩ := targetOf_eq_ok ht
    obtain rfl : r = r' := Option.some.inj (hr.symm.trans hr')
    obtain ⟨hv', hplaced', rfl⟩ := joinRelation_visited hk hv.mapped
      (chain_mem_joinedAfter joined (w.joinKind preferInner) w.chain) hr
      (hl.append ⟨rfl, hmem f hf, hr, rfl⟩) hrel hc
    have hsome := Walk.last?_of_relation hf (Bool.eq_false_iff.2 hcol) hr
    refine ⟨by simpa [Walk.visits, hsome, placesFrom] using hv.trans hv', fun b hb => ?_⟩
    rw [hcolumn, Walk.crossed, Walk.columnName, hsome]
    simp [Model.pk_eq_ok.1 hpk, hplaced'.placeAlias_eq hb]

/-! ## Expressions -/

/-- A template with the columns of its fields, unless it has columns. -/
def Template.withColumns (f : String → Column) (t : Template) : Template :=
  if t.columns.isSome then t else { t with columns := some (t.fields.map f) }

def Template.visits (schema : Schema ι) (root : ι) (t : Template) : List (Visit ι) :=
  if t.columns.isSome then [] else t.fields.flatMap (pathVisits schema root false)

def Leaf.withColumn (f : String → Column) (l : Leaf) : Leaf :=
  if l.column.isSome then l else { l with column := some (f l.path) }

namespace Expression

mutual
/-- An expression with the columns of its paths, where it has none yet. -/
def withColumns (f : String → Column) : Expression ι → Expression ι
  | .leaf l => .leaf (l.withColumn f)
  | .raw t => .raw (t.withColumns f)
  | .func t => .func (t.withColumns f)
  | .group connector negated children => .group connector negated (allWithColumns f children)
  | .subquery use (some path) none plan => .subquery use (some path) (some (f path)) plan
  | .subquery use lhs column plan => .subquery use lhs column plan

def allWithColumns (f : String → Column) : List (Expression ι) → List (Expression ι)
  | [] => []
  | e :: rest => withColumns f e :: allWithColumns f rest
end

mutual
/-- The places that an expression visits; `top` holds while all groups around it are plain
conjunctions. -/
def visits (schema : Schema ι) (root : ι) (top : Bool) : Expression ι → List (Visit ι)
  | .leaf l =>
    if l.column.isSome then [] else pathVisits schema root (top && Leaf.pinned l) l.path
  | .raw t | .func t => t.visits schema root
  | .group connector negated children =>
    allVisits schema root (top && connector == .all && !negated) children
  | .subquery _ (some path) none _ => pathVisits schema root false path
  | .subquery .. => []

def allVisits (schema : Schema ι) (root : ι) (top : Bool) : List (Expression ι) → List (Visit ι)
  | [] => []
  | e :: rest => visits schema root top e ++ allVisits schema root top rest
end

theorem resolveTemplate_visits (hk : JoinKeysDistinct schema) (t : Template) :
    Visits schema root others (Template.resolve schema root t) (t.visits schema root)
      fun a t' => t' = t.withColumns (columnAt schema root a) := by
  unfold Template.resolve Template.visits Template.withColumns
  split
  · exact .of_pure fun _ => rfl
  · exact (Visits.mapM fun path _ => resolvePath_visits hk path false).map

mutual
/-- An expression visits the places of its paths, and gets their columns. -/
theorem resolveIn_visits (hk : JoinKeysDistinct schema) : ∀ (top : Bool) (e : Expression ι),
    Visits schema root others (resolveIn schema root top e) (e.visits schema root top)
      fun a e' => e' = e.withColumns (columnAt schema root a)
  | top, .leaf l => by
    simp only [resolveIn, visits, withColumns, Leaf.withColumn]
    refine Visits.after_result fun _ _ => ?_
    split
    · exact .of_pure fun _ => rfl
    · exact (resolvePath_visits hk l.path _).map
  | top, .raw t => by
    simp only [resolveIn, visits, withColumns]
    exact (resolveTemplate_visits hk t).map
  | top, .func t => by
    simp only [resolveIn, visits, withColumns]
    exact (resolveTemplate_visits hk t).map
  | top, .group connector negated children => by
    simp only [resolveIn, visits, withColumns]
    exact Visits.after_result fun _ _ => (resolveAll_visits hk _ children).map
  | top, .subquery use lhs column plan => by
    unfold resolveIn
    refine Visits.after_result fun _ _ => ?_
    split
    · rename_i path
      simp only [visits, withColumns]
      exact (resolvePath_visits hk path false).map
    · rename_i hne
      rw [visits.eq_6 _ _ _ _ _ _ _ hne]
      exact .of_pure fun b => by rw [withColumns.eq_6 _ _ _ _ _ hne]

theorem resolveAll_visits (hk : JoinKeysDistinct schema) : ∀ (top : Bool) (es : List (Expression ι)),
    Visits schema root others (resolveAll schema root top es) (allVisits schema root top es)
      fun a es' => es' = allWithColumns (columnAt schema root a) es
  | _, [] => by
    simp only [resolveAll, allVisits, allWithColumns]
    exact .of_pure fun _ => rfl
  | top, e :: rest => by
    simp only [resolveAll, allVisits, allWithColumns]
    refine (resolveIn_visits hk top e).bind (fun e' => (resolveAll_visits hk top rest).map) ?_
    rintro b e' out rfl rfl
    rfl
end

end Expression

/-! ## Parts of a query -/

theorem resolveNamed_visits (hk : JoinKeysDistinct schema) (es : List (String × Expression ι)) :
    Visits schema root others (resolveNamed schema root es)
      (es.flatMap fun e => e.2.visits schema root true)
      fun a out => out = es.map fun e => (e.1, e.2.withColumns (columnAt schema root a)) := by
  induction es with
  | nil => exact .of_pure fun _ => rfl
  | cons e rest ih =>
    unfold resolveNamed
    rw [List.flatMap_cons]
    refine (Expression.resolveIn_visits hk true e.2).bind (fun e' => ih.map) ?_
    rintro b e' out rfl rfl
    rfl

theorem resolveFilters_visits (hk : JoinKeysDistinct schema) (es : List (Expression ι)) :
    Visits schema root others (resolveFilters schema root es)
      (es.flatMap (Expression.visits schema root true))
      fun a out => out = es.map (Expression.withColumns (columnAt schema root a)) := by
  induction es with
  | nil => exact .of_pure fun _ => rfl
  | cons e rest ih =>
    unfold resolveFilters
    rw [List.flatMap_cons]
    refine (Expression.resolveIn_visits hk true e).bind (fun e' => ih.map) ?_
    rintro b e' out rfl rfl
    rfl

/-- Whether an item of an ordering is a computed column. -/
def ordersComputed (computed : List String) (item : String) : Bool :=
  computed.contains (orderingPath item).1

def orderingItemSql (f : String → Column) (computed : List String) (item : String) : Sql :=
  [.ident (if ordersComputed computed item then [(orderingPath item).1] else f (orderingPath item).1),
    .text (if (orderingPath item).2 then " DESC" else " ASC")]

def orderingVisits (schema : Schema ι) (root : ι) (computed : List String) (item : String) :
    List (Visit ι) :=
  if ordersComputed computed item then []
  else pathVisits schema root false (orderingPath item).1

theorem resolveOrderingItem_visits (hk : JoinKeysDistinct schema) (computed : List String)
    (item : String) : Visits schema root others (resolveOrderingItem schema root computed item)
      (orderingVisits schema root computed item)
      fun a out => out = orderingItemSql (columnAt schema root a) computed item := by
  unfold resolveOrderingItem orderingVisits orderingItemSql ordersComputed
  rcases orderingPath item with ⟨path, descending⟩
  dsimp only
  split
  · exact .of_pure fun _ => rfl
  · exact (resolvePath_visits hk path false).map

/-! ## Fresh expressions -/

namespace Expression

omit [DecidableEq ι]

mutual
/-- An expression as it is built: no path has a column yet. -/
def Fresh : Expression ι → Prop
  | .leaf l => l.column = none
  | .raw t | .func t => t.columns = none
  | .group _ _ children => AllFresh children
  | .subquery _ _ column _ => column = none

def AllFresh : List (Expression ι) → Prop
  | [] => True
  | e :: rest => Fresh e ∧ AllFresh rest
end

mutual
/-- A fresh expression visits exactly what its paths cross. -/
theorem mem_visits {c : List (Hop ι)} : ∀ (top : Bool) {e : Expression ι}, e.Fresh →
    ((∃ v ∈ e.visits schema root top, v.place = c) ↔ ∃ path ∈ e.paths, Crosses schema root path c)
  | top, .leaf l, h => by
    rw [Fresh] at h
    rw [visits, paths, h, if_neg (by simp), mem_pathVisits]
    simp
  | top, .raw t, h | top, .func t, h => by
    rw [Fresh] at h
    rw [visits, paths, Template.visits, h, if_neg (by simp), exists_visit_flatMap]
    simp only [mem_pathVisits]
  | top, .group _ _ children, h => by
    rw [Fresh] at h
    rw [visits, paths]
    exact mem_allVisits _ h
  | top, .subquery _ lhs column _, h => by
    rw [Fresh] at h
    subst h
    cases lhs with
    | none => simp [visits, paths]
    | some path =>
      rw [visits, paths, mem_pathVisits]
      simp

theorem mem_allVisits {c : List (Hop ι)} : ∀ (top : Bool) {es : List (Expression ι)}, AllFresh es →
    ((∃ v ∈ allVisits schema root top es, v.place = c) ↔
      ∃ path ∈ pathsAll es, Crosses schema root path c)
  | _, [], _ => by simp [allVisits, pathsAll]
  | top, e :: rest, h => by
    rw [AllFresh] at h
    have he := mem_visits (c := c) top h.1
    have hrest := mem_allVisits (c := c) top h.2
    simp only [allVisits, pathsAll, List.mem_append, or_and_right, exists_or, he, hrest]
end

end Expression

end Orm
