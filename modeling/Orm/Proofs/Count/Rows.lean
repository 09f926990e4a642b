import Orm.Proofs.Count.Places

/-
The rows that a statement finds.

A row of joined tables has the rows at places under the aliases of these (`Placing.Agrees`), since no join
takes an alias that another place has. So what FROM, its joins and WHERE give is what is found at the
places of the statement (`Engine.found_agrees`), and what is found there does not depend on aliases.
-/

namespace Orm

variable {ι : Type} {schema : Schema ι} {root : ι}

/-! ## Aliases that no join takes -/

theorem Aliases.placeAlias_nil (a : Aliases) :
    a.placeAlias schema root [] = (schema root).table := rfl

/-- The alias of a place is that of the last join on the way to it. -/
theorem Placed.placeAlias_mem {a : Aliases} {c : List (Hop ι)} {h : Hop ι}
    (hc : Placed schema root a (c ++ [h])) : ∃ st ∈ a.placeSteps schema root (c ++ [h]),
      st.tableAlias = a.placeAlias schema root (c ++ [h]) := by
  obtain ⟨es, hes, hrel, hf, hst⟩ := hc.placeSteps_snoc
  obtain ⟨e, rest, rfl, -⟩ := relationEdges_key hes hrel
  have hreached := Aliases.reached_stepsAt hf
  rw [hst]
  cases hlast : (a.stepsAt (a.placeAlias schema root c) (e :: rest)).getLast? with
  | none => exact absurd (List.getLast?_eq_none_iff.1 hlast) (List.cons_ne_nil _ _)
  | some st =>
    rw [Naming.reached, hlast] at hreached
    exact ⟨st, List.mem_of_getLast? hlast, hreached⟩

/-- The joins that lead to a place take no alias of another place, unless it lies behind. -/
theorem Placed.placeAlias_not_mem (hk : JoinKeysDistinct schema) {a : Aliases} (hs : a.Sound)
    (hr : (schema root).table ∉ a.used) {c d : List (Hop ι)} {h : Hop ι}
    (hc : Placed schema root a (c ++ [h])) (hd : Placed schema root a d) (hcd : ¬ c ++ [h] <+: d) :
    a.placeAlias schema root d ∉ (a.placeSteps schema root (c ++ [h])).map (·.tableAlias) := by
  intro hmem
  obtain ⟨st, hst, halias⟩ := List.mem_map.1 hmem
  obtain rfl | ⟨d, g, rfl⟩ := List.eq_nil_or_concat d
  · rw [Aliases.placeAlias_nil] at halias
    exact hr (halias ▸ hc.mem_used hs hst)
  · rw [List.concat_eq_append] at hd halias hcd
    obtain ⟨st', hst', halias'⟩ := hd.placeAlias_mem
    exact hcd (hc.prefix_of_alias_eq hk hs hr hd hst hst' (halias.trans halias'.symm))

/-! ## Joins under aliases -/

/-- A row of joined tables has the rows at the places under their aliases. -/
def Placing.Agrees (schema : Schema ι) (root : ι) (a : Aliases) (places : List (List (Hop ι)))
    (x : JoinedRow) (σ : Placing ι) : Prop :=
  ∀ c ∈ places, x (a.placeAlias schema root c) = σ c

namespace Engine

variable {E : Engine ι} {db : Contents} {a : Aliases} {kind : JoinKind}

/-- The joins of a relation leave all aliases but their own as they were. -/
theorem joined_stepsAt (hk : kind.RowWise) {es : List Edge} {x w : String}
    (hf : a.follow x (es.map (·.key)) = some w)
    (hn : (x :: (a.stepsAt x es).map (·.tableAlias)).Nodup) (y : JoinedRow) :
    List.Forall₂ (fun z r => z w = r ∧ ∀ n ∉ (a.stepsAt x es).map (·.tableAlias), z n = y n)
      (E.joined db ((a.stepsAt x es).map (JoinStep.join kind)) [y]) (E.along db kind es (y x)) := by
  induction es generalizing x y with
  | nil =>
    obtain rfl := Option.some.inj hf
    exact .cons ⟨rfl, fun _ _ => rfl⟩ .nil
  | cons e es ih =>
    rw [List.map_cons, Aliases.follow, Option.bind_eq_some_iff] at hf
    obtain ⟨z, hz, hf⟩ := hf
    rw [Aliases.stepsAt_cons hz] at hn ⊢
    obtain ⟨hx, hn⟩ := List.nodup_cons.1 hn
    have hne : x ≠ z := fun he => hx (he ▸ List.mem_cons_self)
    have hrows : E.joined db ((e.step x z :: a.stepsAt z es).map (JoinStep.join kind)) [y] =
        (E.next db kind e (y x)).flatMap fun r =>
          E.joined db ((a.stepsAt z es).map (JoinStep.join kind)) [Function.update y z r] := by
      rw [List.map_cons, ← List.singleton_append, joined_append, joined_flatMap, joined,
        List.foldl_cons, List.foldl_nil, join_step hk hne, List.flatMap_map]
      exact fun j hj => by
        obtain ⟨st, -, rfl⟩ := List.mem_map.1 hj
        exact hk
    rw [hrows, along]
    refine List.rel_flatMap (List.forall₂_same.2 fun _ _ => rfl) fun r r' hr => ?_
    subst hr
    have hrest := ih hf hn (Function.update y z r)
    rw [Function.update_self] at hrest
    refine hrest.imp fun u t hut => ⟨hut.1, fun n hmem => ?_⟩
    obtain ⟨hn', hmem⟩ := not_or.1 (List.mem_cons.not.1 hmem)
    have hn' : n ≠ z := hn'
    rw [hut.2 n hmem, Function.update_of_ne hn']

variable [DecidableEq ι] {been : List (List (Hop ι))} {V : List (Visit ι)}

omit [DecidableEq ι] in
theorem joinsOf_rowWise (hV : Route been V) : ∀ j ∈ joinsOf schema root a V, j.kind.RowWise := by
  intro j hj
  obtain ⟨v, hv, hj⟩ := List.mem_flatMap.1 hj
  obtain ⟨st, -, rfl⟩ := List.mem_map.1 hj
  exact hV.rowWise hv

omit [DecidableEq ι] in
theorem closed_snoc {c : List (Hop ι)} {g : Hop ι} (hbeen : ∀ d e, e ∈ been → d <+: e → d ∈ been)
    (hc : c ∈ been) (d e : List (Hop ι)) (he : e ∈ been ++ [c ++ [g]]) (hde : d <+: e) :
    d ∈ been ++ [c ++ [g]] := by
  rcases List.mem_append.1 he with he | he
  · exact List.mem_append_left _ (hbeen d e he hde)
  · obtain rfl := List.mem_singleton.1 he
    rcases List.prefix_concat_iff.1 hde with rfl | hdc
    · simp
    · exact List.mem_append_left _ (hbeen d c hc hdc)

/-- The joins of one new place put the rows there under its alias. -/
theorem agrees_place {kind : JoinKind} (hk : JoinKeysDistinct schema) (hs : a.Sound)
    (hr : (schema root).table ∉ a.used) (hkind : kind.RowWise) {c : List (Hop ι)} {g : Hop ι}
    (hc : c ∈ been) (hmem : c ++ [g] ∉ been) (hbeen : ∀ c d, d ∈ been → c <+: d → c ∈ been)
    (hplaced : ∀ c ∈ been, Placed schema root a c) (hplace : Placed schema root a (c ++ [g]))
    {y : JoinedRow} {σ : Placing ι} (h : σ.Agrees schema root a been y) :
    List.Forall₂ (fun z r => Placing.Agrees schema root a (been ++ [c ++ [g]]) z
        (Function.update σ (c ++ [g]) r))
      (E.joined db ((a.placeSteps schema root (c ++ [g])).map (JoinStep.join kind)) [y])
      (E.along db kind (placeEdges schema (c ++ [g])) (σ c)) := by
  obtain ⟨es, hes, -, hf, hst⟩ := hplace.placeSteps_snoc
  have hapart : ∀ d ∈ been, a.placeAlias schema root d ∉
      (a.placeSteps schema root (c ++ [g])).map (·.tableAlias) := fun d hd =>
    hplace.placeAlias_not_mem hk hs hr (hplaced d hd) fun hp => hmem (hbeen _ d hd hp)
  have hn := hplace.steps_nodup hs hr
  rw [placeEdges_snoc hes, ← h c hc]
  rw [hst] at hn hapart ⊢
  refine (joined_stepsAt hkind hf (List.nodup_cons.2 ⟨hapart c hc, hn⟩) y).imp ?_
  rintro z r ⟨hz, hsame⟩ d hd
  rcases List.mem_append.1 hd with hd | hd
  · rw [hsame _ (hapart d hd), Function.update_of_ne (ne_of_mem_of_not_mem hd hmem)]
    exact h d hd
  · obtain rfl := List.mem_singleton.1 hd
    rw [hz, Function.update_self]

/-- The joins of new places put the rows at these places under their aliases. -/
theorem agrees_joined (hk : JoinKeysDistinct schema) (hs : a.Sound)
    (hr : (schema root).table ∉ a.used) (hV : Route been V)
    (hbeen : ∀ c d, d ∈ been → c <+: d → c ∈ been) (hplaced : ∀ c ∈ been, Placed schema root a c)
    (hnew : ∀ v ∈ V, Placed schema root a v.place) {y : JoinedRow} {σ : Placing ι}
    (h : σ.Agrees schema root a been y) :
    List.Forall₂ (fun z τ => Placing.Agrees schema root a (been ++ V.map (·.place)) z τ)
      (E.joined db (joinsOf schema root a V) [y]) (E.spread db schema V σ) := by
  induction hV generalizing y σ with
  | nil => exact .cons (by simpa using h) .nil
  | @cons been kind c g rest hkind hc hmem hrest ih =>
    obtain ⟨hplace, hnew⟩ := List.forall_mem_cons.1 hnew
    have hall : ∀ d ∈ been ++ [c ++ [g]], Placed schema root a d := by
      intro d hd
      rcases List.mem_append.1 hd with hd | hd
      · exact hplaced d hd
      · exact List.mem_singleton.1 hd ▸ hplace
    have hrows : E.joined db (joinsOf schema root a (⟨kind, c ++ [g]⟩ :: rest)) [y] =
        (E.joined db ((a.placeSteps schema root (c ++ [g])).map (JoinStep.join kind)) [y]).flatMap
          fun z => E.joined db (joinsOf schema root a rest) [z] := by
      rw [joinsOf, List.flatMap_cons, joined_append, ← joinsOf,
        joined_flatMap (joinsOf_rowWise hrest)]
    have hbehind : been ++ (⟨kind, c ++ [g]⟩ :: rest).map (·.place) =
        been ++ [c ++ [g]] ++ rest.map (·.place) := by simp
    rw [hrows, hbehind, spread]
    dsimp only
    rw [List.dropLast_concat]
    exact List.rel_flatMap (agrees_place hk hs hr hkind hc hmem hbeen hplaced hplace h)
      fun z r hz => ih (closed_snoc hbeen hc) hall hnew hz

/-! ## Predicates under aliases -/

variable {places : List (List (Hop ι))} {x : JoinedRow} {σ : Placing ι}

omit [DecidableEq ι] in
theorem reads_columnAt {path : String} (h : σ.Agrees schema root a places x)
    (hmem : ∀ w, walk schema root path = .ok w → w.crossed ∈ places) :
    E.reads x (columnAt schema root a path) = valueAt schema root σ path := by
  cases hw : walk schema root path with
  | error e => simp only [columnAt, valueAt, hw, reads]
  | ok w => simp only [columnAt, valueAt, hw, reads, h w.crossed (hmem w hw)]

omit [DecidableEq ι] in
theorem truthOf_withColumns {e : Expression ι} (he : e.Fresh) (h : σ.Agrees schema root a places x)
    (hroot : [] ∈ places)
    (hmem : ∀ path ∈ e.paths, ∀ w, walk schema root path = .ok w → w.crossed ∈ places) :
    E.truthOf (schema root).table x (e.withColumns (columnAt schema root a)) =
      E.truthAt schema root σ e := by
  rw [truthOf, Expression.truth_withColumns, truthAt]
  refine Expression.truth_congr he fun part hpart hpaths => ?_
  have htable : x (schema root).table = σ [] := h [] hroot
  have hvalues : (part.paths.map (columnAt schema root a)).map (E.reads x) =
      part.paths.map (valueAt schema root σ) := by
    rw [List.map_map]
    exact List.map_congr_left fun path hpath => reads_columnAt h (hmem path (hpaths hpath))
  rw [Expression.bare_withColumns, Expression.columns_withColumns _ hpart, htable, hvalues]

omit [DecidableEq ι] in
theorem Covers.crossed_mem {filters : List (Expression ι)}
    (hcover : Covers schema root filters places) (hroot : [] ∈ places) {f : Expression ι}
    (hf : f ∈ filters) {path : String} (hpath : path ∈ f.paths) {w : Walk ι}
    (hw : walk schema root path = .ok w) : w.crossed ∈ places := by
  by_cases hnil : w.crossed = []
  · exact hnil ▸ hroot
  · exact hcover f hf path hpath _ ⟨w, hw, List.prefix_refl _, hnil⟩

omit [DecidableEq ι] in
theorem keeps_eq_passes {filters : List (Expression ι)} (hf : ∀ f ∈ filters, f.Fresh)
    (h : σ.Agrees schema root a places x) (hroot : [] ∈ places)
    (hcover : Covers schema root filters places) :
    E.keeps (schema root).table (filters.map (Expression.withColumns (columnAt schema root a))) x =
      E.passes schema root filters σ := by
  have htruths : (filters.map (Expression.withColumns (columnAt schema root a))).map
      (E.truthOf (schema root).table x) = filters.map (E.truthAt schema root σ) := by
    rw [List.map_map]
    exact List.map_congr_left fun f hmem => truthOf_withColumns (hf f hmem) h hroot
      fun path hpath w hw => hcover.crossed_mem hroot hmem hpath hw
  rw [keeps, passes, htruths]

end Engine

/-! ## Scopes -/

/-- A scope that goes on from another one, from whose places it has arrived at others. -/
structure Scope.Reaches (schema : Schema ι) (root : ι) (base : Scope)
    (joined : List (List (Hop ι))) (V : List (Visit ι)) (t : Scope) : Prop where
  keys : JoinKeysDistinct schema
  sound : t.aliases.Sound
  unused : (schema root).table ∉ t.aliases.used
  extend : Aliases.Extends base.aliases t.aliases
  route : Route ([] :: joined) V
  closed : ∀ c d, d ∈ [] :: joined → c <+: d → c ∈ [] :: joined
  placed : ∀ c ∈ [] :: joined, Placed schema root base.aliases c
  arrived : ∀ v ∈ V, Placed schema root t.aliases v.place
  joins : t.joins = base.joins ++ joinsOf schema root t.aliases V

section

variable [DecidableEq ι] {others : List String} {s t : Scope} {joined : List (List (Hop ι))}
  {visits : List (Visit ι)}

theorem Visited.reaches (hv : Visited schema root others s joined visits t)
    (hk : JoinKeysDistinct schema) (hm : Mapped schema root others s joined)
    (hc : Clean schema root others t.aliases) (ha : Arrives visits) :
    s.Reaches schema root joined (arrivals joined visits) t where
  keys := hk
  sound := hv.mapped.sound
  unused := hc.root
  extend := hv.extend
  route := ha joined
  closed c d hd hcd := by
    by_cases hnil : c = []
    · exact hnil ▸ List.mem_cons_self
    · rcases List.mem_cons.1 hd with rfl | hd
      · exact absurd (List.prefix_nil.1 hcd) hnil
      · exact List.mem_cons_of_mem _ (hm.prefix_mem hd hcd hnil)
  placed c hc := by
    rcases List.mem_cons.1 hc with rfl | hc
    · exact .nil _
    · exact hm.placed c hc
  arrived v hv' := hv.mapped.placed _ (mem_arrivals hv')
  joins := hv.joins

end

/-! ## Rows -/

/-- The rows that joined tables have at places. -/
def Placing.of (schema : Schema ι) (root : ι) (a : Aliases) (x : JoinedRow) : Placing ι :=
  fun c => x (a.placeAlias schema root c)

namespace Engine

variable [DecidableEq ι] (E : Engine ι) (db : Contents)

/-- The rows at the places of a route that predicates keep. -/
def kept (schema : Schema ι) (root : ι) (filters : List (Expression ι)) (V : List (Visit ι))
    (σ : Placing ι) : List (Placing ι) :=
  (E.spread db schema V σ).filter (E.passes schema root filters)

/-- Those found from rows of the tables joined before. -/
def found (schema : Schema ι) (root : ι) (filters : List (Expression ι)) (V : List (Visit ι))
    (a : Aliases) (xs : List JoinedRow) : List (Placing ι) :=
  xs.flatMap fun x => E.kept db schema root filters V (.of schema root a x)

variable {E db} {base t : Scope} {joined : List (List (Hop ι))} {V W : List (Visit ι)}
  {filters : List (Expression ι)} {xs : List JoinedRow}

/-- The rows that FROM, its joins and WHERE give are those found at the places. -/
theorem found_agrees (h : base.Reaches schema root joined V t) (hf : ∀ f ∈ filters, f.Fresh)
    (hcover : Covers schema root filters ([] :: joined ++ V.map (·.place))) (xs : List JoinedRow) :
    List.Forall₂ (fun x σ => Placing.Agrees schema root t.aliases
        ([] :: joined ++ V.map (·.place)) x σ)
      ((E.joined db t.joins xs).filter (E.keeps (schema root).table
        (filters.map (Expression.withColumns (columnAt schema root t.aliases)))))
      (E.found db schema root filters V base.aliases (E.joined db base.joins xs)) := by
  rw [h.joins, joined_append, joined_flatMap (joinsOf_rowWise h.route), List.filter_flatMap, found]
  refine List.rel_flatMap (List.forall₂_same.2 fun _ _ => rfl) fun x y hxy => ?_
  subst hxy
  have hagrees : (Placing.of schema root base.aliases x).Agrees schema root t.aliases
      ([] :: joined) x := fun c hc => by
    rw [(h.placed c hc).placeAlias_eq h.extend]
    rfl
  refine List.rel_filter (fun z σ hz => ?_) (agrees_joined h.keys h.sound h.unused h.route h.closed
    (fun c hc => (h.placed c hc).extend h.extend) h.arrived hagrees)
  exact Bool.eq_iff_iff.1 (keeps_eq_passes hf hz (List.mem_append_left _ List.mem_cons_self) hcover)

/-- What is found stands at the row of the root that it was found from. -/
theorem kept_root (hV : Route ([] :: joined) V) {σ τ : Placing ι}
    (h : τ ∈ E.kept db schema root filters V σ) : τ [] = σ [] :=
  spread_been hV (List.mem_filter.1 h).1 List.mem_cons_self

theorem length_kept (hV : ∀ v ∈ V, ∀ e ∈ placeEdges schema v.place,
    E.Unrepeated (db e.table) e.column) (σ : Placing ι) :
    (E.kept db schema root filters V σ).length ≤ 1 :=
  Nat.le_trans (List.length_filter_le _ _) (length_spread hV σ)

/-- From rows of a root, the same ones have something at the places of two routes. -/
def SameKept (E : Engine ι) (db : Contents) (schema : Schema ι) (root : ι)
    (filters : List (Expression ι)) (V W : List (Visit ι)) : Prop :=
  ∀ σ, E.kept db schema root filters V σ = [] ↔ E.kept db schema root filters W σ = []

theorem kept_eq_nil_of (hf : ∀ f ∈ filters, f.Fresh) (hV : Route ([] :: joined) V)
    (hW : Route ([] :: joined) W) (hclosed : ∀ c d, d ∈ [] :: joined → c <+: d → c ∈ [] :: joined)
    (hcoverV : Covers schema root filters ([] :: joined ++ V.map (·.place)))
    (hcoverW : Covers schema root filters ([] :: joined ++ W.map (·.place)))
    (hinner : ∀ w ∈ W, w.kind = .inner →
      ∃ f ∈ filters, ∃ v ∈ f.visits schema root true, v.kind = .inner ∧ v.place = w.place)
    {σ : Placing ι} (h : E.kept db schema root filters W σ = []) :
    E.kept db schema root filters V σ = [] := by
  rw [kept, List.filter_eq_nil_iff] at h ⊢
  intro τ hτ hpass
  obtain ⟨τ', hτ', hpass'⟩ := exists_passes hf hV hW List.mem_cons_self hclosed hcoverV hcoverW hinner
    hτ hpass
  exact h τ' hτ' hpass'

/-- Two routes on which no row leads to several find as many rows. -/
theorem length_found (hsame : SameKept E db schema root filters V W)
    (hV : ∀ v ∈ V, ∀ e ∈ placeEdges schema v.place, E.Unrepeated (db e.table) e.column)
    (hW : ∀ v ∈ W, ∀ e ∈ placeEdges schema v.place, E.Unrepeated (db e.table) e.column)
    (a : Aliases) (xs : List JoinedRow) : (E.found db schema root filters V a xs).length =
      (E.found db schema root filters W a xs).length := by
  have heach : ∀ σ, (E.kept db schema root filters V σ).length =
      (E.kept db schema root filters W σ).length := by
    intro σ
    have hlV : (E.kept db schema root filters V σ).length ≤ 1 := length_kept hV σ
    have hlW : (E.kept db schema root filters W σ).length ≤ 1 := length_kept hW σ
    have hiff := hsame σ
    rw [← List.length_eq_zero_iff, ← List.length_eq_zero_iff] at hiff
    omega
  rw [found, found, List.length_flatMap, List.length_flatMap]
  simp only [heach]

/-! ## The rows of the root -/

omit [DecidableEq ι] in
theorem map_eq_of_forall₂ {α β γ : Type} {R : α → β → Prop} {f : α → γ} {g : β → γ} {as : List α}
    {bs : List β} (h : List.Forall₂ R as bs) (hfg : ∀ x y, R x y → f x = g y) : as.map f = bs.map g := by
  induction h with
  | nil => rfl
  | cons hr _ ih => rw [List.map_cons, List.map_cons, hfg _ _ hr, ih]

theorem mem_found_root (hV : Route ([] :: joined) V) {u : TableRow} :
    u ∈ (E.found db schema root filters V a xs).map (· []) ↔ ∃ x ∈ xs, x (schema root).table = u ∧
      E.kept db schema root filters V (.of schema root a x) ≠ [] := by
  simp only [found, List.mem_map, List.mem_flatMap]
  constructor
  · rintro ⟨τ, ⟨x, hx, hτ⟩, rfl⟩
    exact ⟨x, hx, (kept_root hV hτ).symm, List.ne_nil_of_mem hτ⟩
  · rintro ⟨x, hx, rfl, hne⟩
    obtain ⟨τ, hτ⟩ := List.exists_mem_of_ne_nil _ hne
    exact ⟨τ, ⟨x, hx, hτ⟩, kept_root hV hτ⟩

/-- Where no row leads to several, the rows of the root are found once at most. -/
theorem found_root_sublist (hV : Route ([] :: joined) V)
    (hone : ∀ v ∈ V, ∀ e ∈ placeEdges schema v.place, E.Unrepeated (db e.table) e.column) :
    ((E.found db schema root filters V a xs).map (· [])).Sublist (xs.map (· (schema root).table)) := by
  induction xs with
  | nil => exact List.Sublist.refl _
  | cons x xs ih =>
    have hhead : ((E.kept db schema root filters V (.of schema root a x)).map (· [])).Sublist
        [x (schema root).table] := by
      have hlength : (E.kept db schema root filters V (.of schema root a x)).length ≤ 1 :=
        length_kept hone _
      match hkept : E.kept db schema root filters V (.of schema root a x), hlength with
      | [], _ => exact List.nil_sublist _
      | [τ], _ =>
        have hτ : τ [] = x (schema root).table := kept_root hV (hkept ▸ List.mem_singleton_self τ)
        rw [List.map_singleton, hτ]
    have hsplit : E.found db schema root filters V a (x :: xs) =
        E.kept db schema root filters V (.of schema root a x) ++
          E.found db schema root filters V a xs := List.flatMap_cons
    rw [hsplit, List.map_append, List.map_cons]
    exact hhead.append ih

/-! ## A longer route -/

variable {been : List (List (Hop ι))}

/-- A join from the left leads on from everywhere. -/
theorem spread_left_ne_nil (hW : Route been W) (hleft : ∀ w ∈ W, w.kind = .left) (τ : Placing ι) :
    E.spread db schema W τ ≠ [] := by
  obtain ⟨τ', hτ', -⟩ : ∃ τ' ∈ E.spread db schema W τ, ∀ c ∈ been ++ W.map (·.place),
      c ∈ ([] : List (List (Hop ι))) → τ' c = τ c :=
    exists_spread hW (fun _ _ h => absurd h List.not_mem_nil) (fun _ _ h => absurd h List.not_mem_nil)
      fun w hw _ => hleft w hw
  exact List.ne_nil_of_mem hτ'

/-- Behind the places of the predicates a route goes on from what is kept. -/
theorem kept_append (hf : ∀ f ∈ filters, f.Fresh)
    (hW : Route ([] :: joined ++ V.map (·.place)) W)
    (hcover : Covers schema root filters ([] :: joined ++ V.map (·.place))) (σ : Placing ι) :
    E.kept db schema root filters (V ++ W) σ =
      (E.kept db schema root filters V σ).flatMap (E.spread db schema W) := by
  have hroot : [] ∈ [] :: joined ++ V.map (·.place) := List.mem_cons_self
  have hsame : ∀ τ, ∀ τ' ∈ E.spread db schema W τ,
      E.passes schema root filters τ' = E.passes schema root filters τ := fun τ τ' hτ' =>
    passes_congr hf (spread_been hW hτ' hroot) fun f hmem path hpath w hw =>
      spread_been hW hτ' (hcover.crossed_mem hroot hmem hpath hw)
  rw [kept, spread_append, List.filter_flatMap, kept]
  induction E.spread db schema V σ with
  | nil => rfl
  | cons τ rest ih =>
    rw [List.flatMap_cons, ih, List.filter_cons]
    cases hpass : E.passes schema root filters τ with
    | true =>
      rw [List.filter_eq_self.2 fun τ' hτ' => (hsame τ τ' hτ').trans hpass, if_pos rfl,
        List.flatMap_cons]
    | false =>
      rw [List.filter_eq_nil_iff.2 fun τ' hτ' => by simp [hsame τ τ' hτ', hpass],
        if_neg Bool.false_ne_true, List.nil_append]

theorem sameKept_append (hf : ∀ f ∈ filters, f.Fresh)
    (hW : Route ([] :: joined ++ V.map (·.place)) W) (hleft : ∀ w ∈ W, w.kind = .left)
    (hcover : Covers schema root filters ([] :: joined ++ V.map (·.place))) :
    SameKept E db schema root filters (V ++ W) V := by
  intro σ
  rw [kept_append hf hW hcover, List.flatMap_eq_nil_iff]
  refine ⟨fun h => List.eq_nil_iff_forall_not_mem.2 fun τ hτ => ?_, fun h => by simp [h]⟩
  exact spread_left_ne_nil hW hleft τ (h τ hτ)

/-- Where the rest of a route leads to one row each, as many rows are found on the way. -/
theorem found_append (hf : ∀ f ∈ filters, f.Fresh)
    (hW : Route ([] :: joined ++ V.map (·.place)) W) (hleft : ∀ w ∈ W, w.kind = .left)
    (hone : ∀ w ∈ W, ∀ e ∈ placeEdges schema w.place, E.Unrepeated (db e.table) e.column)
    (hcover : Covers schema root filters ([] :: joined ++ V.map (·.place))) :
    List.Forall₂ (fun τ' τ => ∀ c ∈ [] :: joined ++ V.map (·.place), τ' c = τ c)
      (E.found db schema root filters (V ++ W) a xs) (E.found db schema root filters V a xs) := by
  have hfound : E.found db schema root filters (V ++ W) a xs =
      (E.found db schema root filters V a xs).flatMap (E.spread db schema W) := by
    simp only [found, kept_append hf hW hcover, List.flatMap_assoc]
  rw [hfound]
  induction E.found db schema root filters V a xs with
  | nil => exact .nil
  | cons τ rest ih =>
    obtain ⟨τ', hτ'⟩ : ∃ τ', E.spread db schema W τ = [τ'] := by
      match hspread : E.spread db schema W τ, length_spread hone τ, spread_left_ne_nil hW hleft τ with
      | [], _, hne => exact absurd rfl hne
      | [τ'], _, _ => exact ⟨τ', rfl⟩
    rw [List.flatMap_cons, hτ', List.singleton_append]
    exact .cons (fun c hc => spread_been hW (hτ' ▸ List.mem_singleton_self τ') hc) ih

end Engine

end Orm
