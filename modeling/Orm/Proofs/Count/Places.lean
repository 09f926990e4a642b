import Orm.Proofs.Count.Tables

/-
Rows of joined tables by places.

The joins of a statement give a row of the tables before them rows at the places that they lead to
(`Engine.spread`), whichever aliases the places have. What predicates say depends on those rows only, and a
place more adds no row of the root and takes none away: a row stands there, if only NULL. An inner join
might take one away; one that a predicate asks for does not, since the predicate does not hold of NULL.
So two statements with the same predicates keep the same rows (`Engine.exists_passes`).
-/

namespace Orm

variable {ι : Type} {schema : Schema ι} {root : ι}

/-! ## Routes -/

/-- A row at each place. -/
abbrev Placing (ι : Type) := List (Hop ι) → TableRow

/-- The joins that lead to a place from the one before it. -/
def placeEdges (schema : Schema ι) (c : List (Hop ι)) : List Edge :=
  ((c.getLast?).bind fun h => (h.edges schema).toOption).getD []

theorem placeEdges_snoc {c : List (Hop ι)} {h : Hop ι} {es : List Edge}
    (he : h.edges schema = .ok es) : placeEdges schema (c ++ [h]) = es := by
  rw [placeEdges, List.getLast?_concat, Option.bind_some, he]
  rfl

/-- Visits of new places, each from a place that has been reached before. -/
inductive Route : List (List (Hop ι)) → List (Visit ι) → Prop
  | nil {been : List (List (Hop ι))} : Route been []
  | cons {been : List (List (Hop ι))} {kind : JoinKind} {c : List (Hop ι)} {h : Hop ι}
      {rest : List (Visit ι)} : kind.RowWise → c ∈ been → c ++ [h] ∉ been →
      Route (been ++ [c ++ [h]]) rest → Route been (⟨kind, c ++ [h]⟩ :: rest)

namespace Route

variable {been : List (List (Hop ι))} {V W : List (Visit ι)} {v : Visit ι}

theorem append (hV : Route been V) (hW : Route (been ++ V.map (·.place)) W) : Route been (V ++ W) := by
  induction hV with
  | nil => simpa using hW
  | cons hk hc hnew _ ih => exact .cons hk hc hnew (ih (by simpa using hW))

theorem rowWise (h : Route been V) (hv : v ∈ V) : v.kind.RowWise := by
  induction h with
  | nil => exact absurd hv List.not_mem_nil
  | cons hk _ _ _ ih =>
    rcases List.mem_cons.1 hv with rfl | hv
    · exact hk
    · exact ih hv

theorem not_mem (h : Route been V) (hv : v ∈ V) : v.place ∉ been := by
  induction h with
  | nil => exact absurd hv List.not_mem_nil
  | cons _ _ hnew _ ih =>
    rcases List.mem_cons.1 hv with rfl | hv
    · exact hnew
    · exact fun hmem => ih hv (List.mem_append_left _ hmem)

theorem dropLast_mem (h : Route been V) (hv : v ∈ V) :
    v.place ≠ [] ∧ v.place.dropLast ∈ been ++ V.map (·.place) := by
  induction h with
  | nil => exact absurd hv List.not_mem_nil
  | @cons been kind c h rest _ hc _ _ ih =>
    rcases List.mem_cons.1 hv with rfl | hv
    · refine ⟨by simp, ?_⟩
      rw [List.dropLast_concat]
      exact List.mem_append_left _ hc
    · simpa using ih hv

end Route

/-- Visits that lead on from any places that have been joined. -/
def Arrives [DecidableEq ι] (visits : List (Visit ι)) : Prop :=
  ∀ joined, Route ([] :: joined) (arrivals joined visits)

section

variable [DecidableEq ι] {visits more : List (Visit ι)}

theorem Arrives.nil : Arrives ([] : List (Visit ι)) := fun _ => .nil

theorem Arrives.append (h : Arrives visits) (h' : Arrives more) : Arrives (visits ++ more) := by
  intro joined
  rw [arrivals_append]
  exact (h joined).append (h' (joinedAfter joined visits))

theorem Arrives.flatMap {α : Type} {l : List α} {f : α → List (Visit ι)}
    (h : ∀ x ∈ l, Arrives (f x)) : Arrives (l.flatMap f) := by
  induction l with
  | nil => exact .nil
  | cons x l ih =>
    obtain ⟨hx, hl⟩ := List.forall_mem_cons.1 h
    rw [List.flatMap_cons]
    exact hx.append (ih hl)

/-- Along a chain each place is reached from the one before it. -/
theorem route_placesFrom {kind : JoinKind} (hk : kind.RowWise) {joined : List (List (Hop ι))}
    {base : List (Hop ι)} (hbase : base ∈ [] :: joined) (rest : List (Hop ι)) :
    Route ([] :: joined) (arrivals joined ((placesFrom base rest).map (Visit.mk kind))) := by
  induction rest generalizing joined base with
  | nil => exact .nil
  | cons h rest ih =>
    rw [placesFrom, List.map_cons, arrivals]
    split
    · rename_i hmem
      exact ih (List.mem_cons_of_mem _ hmem)
    · rename_i hmem
      refine .cons hk hbase (by simpa using hmem) (ih ?_)
      simp

theorem Walk.arrives {kind : JoinKind} (hk : kind.RowWise) (w : Walk ι) : Arrives (w.visits kind) := by
  intro joined
  rw [Walk.visits, arrivals_append]
  refine (route_placesFrom hk List.mem_cons_self w.chain).append ?_
  exact route_placesFrom (.inl rfl) (List.mem_cons.2 (chain_mem_joinedAfter joined kind w.chain)) _

theorem pathVisits_arrives (preferInner : Bool) (path : String) :
    Arrives (pathVisits schema root preferInner path) := by
  unfold pathVisits
  split
  · exact .nil
  · refine Walk.arrives ?_ _
    unfold Walk.joinKind
    split
    · exact .inr rfl
    · exact .inl rfl

mutual
theorem Expression.visits_arrives : ∀ (top : Bool) (e : Expression ι),
    Arrives (e.visits schema root top)
  | top, .leaf l => by
    rw [Expression.visits]
    split
    · exact .nil
    · exact pathVisits_arrives _ _
  | _, .raw t | _, .func t => by
    rw [Expression.visits, Template.visits]
    split
    · exact .nil
    · exact .flatMap fun path _ => pathVisits_arrives false path
  | top, .group _ _ children => by
    rw [Expression.visits]
    exact Expression.allVisits_arrives _ children
  | _, .subquery _ lhs column _ => by
    cases lhs with
    | none => exact .nil
    | some path =>
      cases column with
      | none => exact pathVisits_arrives false path
      | some column => exact .nil

theorem Expression.allVisits_arrives : ∀ (top : Bool) (es : List (Expression ι)),
    Arrives (allVisits schema root top es)
  | _, [] => .nil
  | top, e :: rest => by
    rw [Expression.allVisits]
    exact (Expression.visits_arrives top e).append (Expression.allVisits_arrives top rest)
end

theorem orderingVisits_arrives (computed : List String) (item : String) :
    Arrives (orderingVisits schema root computed item) := by
  unfold orderingVisits
  split
  · exact .nil
  · exact pathVisits_arrives false _

omit [DecidableEq ι] in
/-- Orderings are joined from the left. -/
theorem orderingVisits_kind {computed : List String} {item : String} {v : Visit ι}
    (hv : v ∈ orderingVisits schema root computed item) : v.kind = .left := by
  unfold orderingVisits pathVisits Walk.visits Walk.joinKind at hv
  split at hv
  · exact absurd hv List.not_mem_nil
  · split at hv
    · exact absurd hv List.not_mem_nil
    · rcases List.mem_append.1 hv with hv | hv <;>
        · obtain ⟨_, -, rfl⟩ := List.mem_map.1 hv
          rfl

end

/-! ## Rows at places -/

section

variable [DecidableEq ι] (E : Engine ι) (db : Contents)

/-- The rows at the places of visits, from those at the places before them. -/
def Engine.spread (schema : Schema ι) : List (Visit ι) → Placing ι → List (Placing ι)
  | [], σ => [σ]
  | v :: rest, σ =>
    (E.along db v.kind (placeEdges schema v.place) (σ v.place.dropLast)).flatMap fun r =>
      spread schema rest (Function.update σ v.place r)

variable {E db} {been known : List (List (Hop ι))} {V W : List (Visit ι)} {σ τ : Placing ι}

namespace Engine

theorem spread_append (σ : Placing ι) : E.spread db schema (V ++ W) σ =
    (E.spread db schema V σ).flatMap (E.spread db schema W) := by
  induction V generalizing σ with
  | nil => simp [spread]
  | cons v V ih => simp only [List.cons_append, spread, ih, List.flatMap_assoc]

theorem spread_of_not_mem (h : τ ∈ E.spread db schema V σ) {c : List (Hop ι)}
    (hc : c ∉ V.map (·.place)) : τ c = σ c := by
  induction V generalizing σ with
  | nil => rw [List.mem_singleton.1 h]
  | cons v V ih =>
    rw [List.map_cons, List.mem_cons, not_or] at hc
    obtain ⟨r, -, h⟩ := List.mem_flatMap.1 h
    rw [ih h hc.2, Function.update_of_ne hc.1]

theorem spread_been (hV : Route been V) (h : τ ∈ E.spread db schema V σ) {c : List (Hop ι)}
    (hc : c ∈ been) : τ c = σ c := by
  refine spread_of_not_mem h fun hmem => ?_
  obtain ⟨v, hv, rfl⟩ := List.mem_map.1 hmem
  exact hV.not_mem hv hc

/-- The row at each place is one that the row before it leads to. -/
theorem spread_along (hV : Route been V) (h : τ ∈ E.spread db schema V σ) {v : Visit ι} (hv : v ∈ V) :
    τ v.place ∈ E.along db v.kind (placeEdges schema v.place) (τ v.place.dropLast) := by
  induction hV generalizing σ with
  | nil => exact absurd hv List.not_mem_nil
  | @cons been kind c g rest _ hc hnew hrest ih =>
    obtain ⟨r, hr, h⟩ := List.mem_flatMap.1 h
    rcases List.mem_cons.1 hv with rfl | hv
    · dsimp only at hr h ⊢
      rw [List.dropLast_concat] at hr ⊢
      have hrow : τ (c ++ [g]) = r := by
        rw [spread_been hrest h (List.mem_append_right _ (List.mem_singleton_self _)),
          Function.update_self]
      have hparent : τ c = σ c := by
        rw [spread_been hrest h (List.mem_append_left _ hc),
          Function.update_of_ne (ne_of_mem_of_not_mem hc hnew)]
      rwa [hrow, hparent]
    · exact ih h hv

/-- The rows at known places are extended to the places of a route: a left join always leads on. -/
theorem exists_spread (hW : Route been W) (hσ : ∀ c ∈ been, c ∈ known → σ c = τ c)
    (hknown : ∀ w ∈ W, w.place ∈ known → w.place.dropLast ∈ known ∧
      τ w.place ∈ E.along db w.kind (placeEdges schema w.place) (τ w.place.dropLast))
    (hfree : ∀ w ∈ W, w.place ∉ known → w.kind = .left) :
    ∃ τ' ∈ E.spread db schema W σ, ∀ c ∈ been ++ W.map (·.place), c ∈ known → τ' c = τ c := by
  induction hW generalizing σ with
  | nil => exact ⟨σ, List.mem_singleton_self σ, by simpa using hσ⟩
  | @cons been kind c g rest _ hc hnew _ ih =>
    obtain ⟨hhead, htail⟩ := List.forall_mem_cons.1 hknown
    obtain ⟨hleft, hfree⟩ := List.forall_mem_cons.1 hfree
    dsimp only at hhead hleft
    rw [List.dropLast_concat] at hhead
    obtain ⟨r, hr, hrow⟩ : ∃ r ∈ E.along db kind (placeEdges schema (c ++ [g])) (σ c),
        c ++ [g] ∈ known → r = τ (c ++ [g]) := by
      by_cases hmem : c ++ [g] ∈ known
      · obtain ⟨hparent, hrow⟩ := hhead hmem
        exact ⟨_, by rwa [hσ c hc hparent], fun _ => rfl⟩
      · obtain rfl := hleft hmem
        have hne : E.along db .left (placeEdges schema (c ++ [g])) (σ c) ≠ [] :=
          along_ne_nil _ _
        obtain ⟨r, hr⟩ := List.exists_mem_of_ne_nil _ hne
        exact ⟨r, hr, fun h => absurd h hmem⟩
    obtain ⟨τ', hτ', hsame⟩ := ih (σ := Function.update σ (c ++ [g]) r) (fun d hd hk => by
      rcases List.mem_append.1 hd with hd | hd
      · rw [Function.update_of_ne (ne_of_mem_of_not_mem hd hnew)]
        exact hσ d hd hk
      · obtain rfl := List.mem_singleton.1 hd
        rw [Function.update_self]
        exact hrow hk) htail hfree
    refine ⟨τ', List.mem_flatMap.2 ⟨r, by simpa using hr, hτ'⟩, fun d hd hk => hsame d ?_ hk⟩
    simpa using hd

theorem length_spread (h : ∀ v ∈ V, ∀ e ∈ placeEdges schema v.place,
    E.Unrepeated (db e.table) e.column) (σ : Placing ι) : (E.spread db schema V σ).length ≤ 1 := by
  induction V generalizing σ with
  | nil => exact Nat.le_refl 1
  | cons v V ih =>
    obtain ⟨hv, hV⟩ := List.forall_mem_cons.1 h
    rw [spread]
    match E.along db v.kind (placeEdges schema v.place) (σ v.place.dropLast), length_along hv _ with
    | [], _ => simp
    | [r], _ => simpa using ih hV (Function.update σ v.place r)

end Engine

end

/-! ## Predicates -/

/-- The value at the end of a path. -/
def valueAt (schema : Schema ι) (root : ι) (σ : Placing ι) (path : String) : Value :=
  match walk schema root path with
  | .error _ => .null
  | .ok w => σ w.crossed (w.columnName schema)

/-- The rows at all places where a path may end are the same. -/
def SameAlong (schema : Schema ι) (root : ι) (paths : List String) (σ τ : Placing ι) : Prop :=
  ∀ path ∈ paths, ∀ w, walk schema root path = .ok w → σ w.crossed = τ w.crossed

theorem SameAlong.valueAt {paths : List String} {σ τ : Placing ι}
    (h : SameAlong schema root paths σ τ) {path : String} (hpath : path ∈ paths) :
    valueAt schema root σ path = valueAt schema root τ path := by
  unfold Orm.valueAt
  split
  · rfl
  · rename_i w hw
    rw [h path hpath w hw]

namespace Engine

variable (E : Engine ι)

/-- What an expression says of rows at places. -/
def truthAt (schema : Schema ι) (root : ι) (σ : Placing ι) (e : Expression ι) : Truth :=
  e.truth fun part => E.judges part.bare (σ []) (part.paths.map (valueAt schema root σ))

/-- Whether all predicates hold of rows at places. -/
def passes (schema : Schema ι) (root : ι) (filters : List (Expression ι)) (σ : Placing ι) : Bool :=
  Truth.all (filters.map (E.truthAt schema root σ)) == .yes

variable {E} {filters : List (Expression ι)} {σ τ : Placing ι}

theorem truthAt_congr {e : Expression ι} (he : e.Fresh) (hroot : σ [] = τ [])
    (h : SameAlong schema root e.paths σ τ) :
    E.truthAt schema root σ e = E.truthAt schema root τ e := by
  refine Expression.truth_congr he fun part _ hpaths => ?_
  rw [hroot, List.map_congr_left fun path hpath => h.valueAt (hpaths hpath)]

theorem passes_congr (hf : ∀ e ∈ filters, e.Fresh) (hroot : σ [] = τ [])
    (h : ∀ e ∈ filters, SameAlong schema root e.paths σ τ) :
    E.passes schema root filters σ = E.passes schema root filters τ := by
  rw [passes, passes, List.map_congr_left fun e he => truthAt_congr (hf e he) hroot (h e he)]

end Engine

/-! ### Inner joins -/

section

variable {E : Engine ι}

theorem pathVisits_inner {preferInner : Bool} {path : String} {v : Visit ι}
    (hv : v ∈ pathVisits schema root preferInner path) (hk : v.kind = .inner) :
    preferInner = true ∧ Crosses schema root path v.place := by
  refine ⟨?_, (mem_pathVisits preferInner).1 ⟨v, hv, rfl⟩⟩
  cases preferInner with
  | true => rfl
  | false =>
    unfold pathVisits at hv
    split at hv
    · exact absurd hv List.not_mem_nil
    · rcases List.mem_append.1 hv with hv | hv <;>
        · obtain ⟨_, -, rfl⟩ := List.mem_map.1 hv
          cases hk

theorem exists_pathVisits_inner {paths : List String} {v : Visit ι}
    (hv : v ∈ paths.flatMap (pathVisits schema root false)) : v.kind ≠ .inner := by
  obtain ⟨path, -, hv⟩ := List.mem_flatMap.1 hv
  exact fun hk => Bool.false_ne_true (pathVisits_inner hv hk).1

namespace Expression

mutual
theorem visits_inner : ∀ (top : Bool) {e : Expression ι} {v : Visit ι},
    v ∈ e.visits schema root top → v.kind = .inner →
    top = true ∧ ∃ l ∈ e.conjoined, Leaf.pinned l = true ∧ l.path ∈ e.paths ∧
      Crosses schema root l.path v.place
  | top, .leaf l, v, hv, hk => by
    rw [visits] at hv
    split at hv
    · exact absurd hv List.not_mem_nil
    · obtain ⟨hpin, hcross⟩ := pathVisits_inner hv hk
      obtain ⟨htop, hpin⟩ := Bool.and_eq_true_iff.1 hpin
      exact ⟨htop, l, List.mem_singleton_self l, hpin, List.mem_singleton_self l.path, hcross⟩
  | _, .raw t, v, hv, hk | _, .func t, v, hv, hk => by
    rw [visits, Template.visits] at hv
    split at hv
    · exact absurd hv List.not_mem_nil
    · exact absurd hk (exists_pathVisits_inner hv)
  | top, .group connector negated children, v, hv, hk => by
    rw [visits] at hv
    obtain ⟨htop, l, hl, hrest⟩ := allVisits_inner _ hv hk
    simp only [Bool.and_eq_true, beq_iff_eq, Bool.not_eq_true'] at htop
    obtain ⟨⟨htop, rfl⟩, rfl⟩ := htop
    exact ⟨htop, l, hl, hrest⟩
  | _, .subquery _ lhs column _, v, hv, hk => by
    cases lhs with
    | none => exact absurd hv List.not_mem_nil
    | some path =>
      cases column with
      | none => exact absurd (pathVisits_inner hv hk).1 Bool.false_ne_true
      | some column => exact absurd hv List.not_mem_nil

theorem allVisits_inner : ∀ (top : Bool) {es : List (Expression ι)} {v : Visit ι},
    v ∈ allVisits schema root top es → v.kind = .inner →
    top = true ∧ ∃ l ∈ conjoinedAll es, Leaf.pinned l = true ∧ l.path ∈ pathsAll es ∧
      Crosses schema root l.path v.place
  | _, [], _, hv, _ => absurd hv List.not_mem_nil
  | top, e :: rest, v, hv, hk => by
    rw [allVisits, List.mem_append] at hv
    rw [conjoinedAll, pathsAll]
    rcases hv with hv | hv
    · obtain ⟨htop, l, hl, hpin, hpath, h⟩ := visits_inner top hv hk
      exact ⟨htop, l, List.mem_append_left _ hl, hpin, List.mem_append_left _ hpath, h⟩
    · obtain ⟨htop, l, hl, hpin, hpath, h⟩ := allVisits_inner top hv hk
      exact ⟨htop, l, List.mem_append_right _ hl, hpin, List.mem_append_right _ hpath, h⟩
end

end Expression

/-! ### The same rows of the root -/

namespace Engine

variable [DecidableEq ι] {db : Contents} {been : List (List (Hop ι))} {V W : List (Visit ι)}
  {filters : List (Expression ι)} {σ τ : Placing ι}

/-- The places of the predicates are among those of a route. -/
def Covers (schema : Schema ι) (root : ι) (filters : List (Expression ι))
    (places : List (List (Hop ι))) : Prop :=
  ∀ f ∈ filters, ∀ path ∈ f.paths, ∀ c, Crosses schema root path c → c ∈ places

/-- Behind a place where nothing stands, nothing stands. -/
theorem spread_behind_nullRow (hV : Route been V) (hτ : τ ∈ E.spread db schema V σ)
    {c d : List (Hop ι)} (hcd : c <+: d) (hc : c ≠ []) (hnull : τ c = nullRow)
    (hplaces : ∀ e, c <+: e → e <+: d → e ∈ V.map (·.place)) : τ d = nullRow := by
  induction d using List.reverseRecOn with
  | nil => exact absurd (List.prefix_nil.1 hcd) hc
  | append_singleton d h ih =>
    rcases List.prefix_concat_iff.1 hcd with rfl | hcd'
    · exact hnull
    have hparent : τ d = nullRow :=
      ih hcd' fun e he hed => hplaces e he (hed.trans (List.prefix_append d [h]))
    obtain ⟨v, hv, hplace⟩ := List.mem_map.1 (hplaces _ hcd (List.prefix_refl _))
    have hrow := spread_along hV hτ hv
    rw [hplace, List.dropLast_concat, hparent] at hrow
    have hleft : τ (d ++ [h]) ∈ E.along db .left (placeEdges schema (d ++ [h])) nullRow := by
      rcases hV.rowWise hv with hk | hk <;> rw [hk] at hrow
      · exact hrow
      · exact along_left_of_inner hrow
    rw [along_nullRow] at hleft
    exact List.mem_singleton.1 hleft

/-- Where the predicates hold, something stands at every place that they join by an inner join. -/
theorem ne_nullRow_of_passes (hV : Route been V) (hτ : τ ∈ E.spread db schema V σ)
    (hpass : E.passes schema root filters τ = true) (hbeen : ∀ c d, d ∈ been → c <+: d → c ∈ been)
    (hcover : Covers schema root filters (been ++ V.map (·.place))) {f : Expression ι}
    (hf : f ∈ filters) {v : Visit ι} (hv : v ∈ f.visits schema root true) (hk : v.kind = .inner)
    (hnew : v.place ∉ been) : τ v.place ≠ nullRow := by
  obtain ⟨-, l, hl, hpin, hpath, w, hw, hprefix, hne⟩ := Expression.visits_inner true hv hk
  intro hnull
  have hend : τ w.crossed = nullRow := by
    refine spread_behind_nullRow hV hτ hprefix hne hnull fun e hve hew => ?_
    have hnonempty : e ≠ [] := fun he => hne (List.prefix_nil.1 (he ▸ hve))
    rcases List.mem_append.1 (hcover f hf l.path hpath e ⟨w, hw, hew, hnonempty⟩) with he | he
    · exact absurd (hbeen _ _ he hve) hnew
    · exact he
  have hvalue : valueAt schema root τ l.path = .null := by
    rw [valueAt, hw]
    dsimp only
    rw [hend]
    rfl
  have hyes : E.truthAt schema root τ f = .yes :=
    Truth.all_eq_yes.1 (beq_iff_eq.1 hpass) _ (List.mem_map_of_mem hf)
  have hleaf := Expression.truth_conjoined hyes l hl
  rw [Expression.paths, List.map_singleton, hvalue, Expression.bare] at hleaf
  exact E.judges_null { l with column := none } (τ []) hpin hleaf

/-- Where predicates that are kept ask for an inner join, a row stands. -/
theorem exists_row_of_inner (hV : Route been V) (hbeen : ∀ c d, d ∈ been → c <+: d → c ∈ been)
    (hcover : Covers schema root filters (been ++ V.map (·.place)))
    (hτ : τ ∈ E.spread db schema V σ) (hpass : E.passes schema root filters τ = true)
    {w : Visit ι} (hnew : w.place ∉ been) (h : ∃ f ∈ filters, ∃ v ∈ f.visits schema root true,
      v.kind = .inner ∧ v.place = w.place) :
    w.place ∈ V.map (·.place) ∧ τ w.place ≠ nullRow := by
  obtain ⟨f, hf, v, hv, hk, hplace⟩ := h
  obtain ⟨-, l, -, -, hpath, hcross⟩ := Expression.visits_inner true hv hk
  rw [hplace] at hcross
  refine ⟨(List.mem_append.1 (hcover f hf l.path hpath _ hcross)).resolve_left hnew, ?_⟩
  exact hplace ▸ ne_nullRow_of_passes hV hτ hpass hbeen hcover hf hv hk (hplace ▸ hnew)

/-- Rows that the predicates keep can be found at other places of the same predicates too. -/
theorem exists_passes (hf : ∀ e ∈ filters, e.Fresh) (hV : Route been V) (hW : Route been W)
    (hroot : [] ∈ been) (hbeen : ∀ c d, d ∈ been → c <+: d → c ∈ been)
    (hcoverV : Covers schema root filters (been ++ V.map (·.place)))
    (hcoverW : Covers schema root filters (been ++ W.map (·.place)))
    (hinner : ∀ w ∈ W, w.kind = .inner →
      ∃ f ∈ filters, ∃ v ∈ f.visits schema root true, v.kind = .inner ∧ v.place = w.place)
    (hτ : τ ∈ E.spread db schema V σ) (hpass : E.passes schema root filters τ = true) :
    ∃ τ' ∈ E.spread db schema W σ, E.passes schema root filters τ' = true := by
  have hrow : ∀ w ∈ W, w.kind = .inner → w.place ∈ V.map (·.place) ∧ τ w.place ≠ nullRow :=
    fun w hw hk => exists_row_of_inner hV hbeen hcoverV hτ hpass (hW.not_mem hw) (hinner w hw hk)
  have hknown : ∀ w ∈ W, w.place ∈ been ++ V.map (·.place) →
      w.place.dropLast ∈ been ++ V.map (·.place) ∧
        τ w.place ∈ E.along db w.kind (placeEdges schema w.place) (τ w.place.dropLast) := by
    intro w hw hmem
    obtain ⟨v, hv, hplace⟩ :=
      List.mem_map.1 ((List.mem_append.1 hmem).resolve_left (hW.not_mem hw))
    have halong := spread_along hV hτ hv
    have hparent := (hV.dropLast_mem hv).2
    rw [hplace] at halong hparent
    refine ⟨hparent, along_of_along (hV.rowWise hv) (hW.rowWise hw) (fun hk => ?_) halong⟩
    exact (hrow w hw hk).2
  have hfree : ∀ w ∈ W, w.place ∉ been ++ V.map (·.place) → w.kind = .left := fun w hw hmem =>
    (hW.rowWise hw).resolve_right fun hk => hmem (List.mem_append_right _ (hrow w hw hk).1)
  obtain ⟨τ', hτ', hsame⟩ :=
    exists_spread hW (fun c hc _ => (spread_been hV hτ hc).symm) hknown hfree
  have hroot' : τ' [] = τ [] :=
    hsame [] (List.mem_append_left _ hroot) (List.mem_append_left _ hroot)
  refine ⟨τ', hτ', (passes_congr hf hroot' fun e he path hpath w hw => ?_).trans hpass⟩
  by_cases hnil : w.crossed = []
  · rw [hnil]
    exact hroot'
  · have hcross : Crosses schema root path w.crossed := ⟨w, hw, List.prefix_refl _, hnil⟩
    exact hsame _ (hcoverW e he path hpath _ hcross) (hcoverV e he path hpath _ hcross)

end Engine

end

end Orm
