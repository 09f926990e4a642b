import Mathlib.Tactic.Choose
import Orm.Proofs.Place.Alias

/-
Aliases for a row of requests.

The search for a free ordinal has no bound of its own (`Searches`). It ends because a name says its ordinal
(`candidate_ordinal`), so that the candidates of a search are different texts while the names in use are
finitely many. Every ordinal up to the last one of a counter is in use (`Counted`), hence no ordinal is
greater than the number of names.
-/

namespace Orm.Aliases

/-! ## Ordinals in names -/

/-- The ordinal is what a name ends in, whatever stands before it. -/
theorem candidate_ordinal {relation target relation' target' : String} {m n : Nat}
    (h : candidate relation target m = candidate relation' target' n) : m = n := by
  have hreversed := congrArg (fun s : String => s.toList.reverse) h
  simp only [candidate, String.toList_append, List.reverse_append, Text.toList_toString] at hreversed
  have hdigits : ∀ n, ∀ c ∈ (Text.padded 0 n).reverse, c.isDigit = true := fun n c hc =>
    Text.isDigit_of_mem_padded (List.mem_reverse.1 hc)
  have hstops : ∀ r : List Char, Text.Stops ("_".toList.reverse ++ r) := fun r => Text.stops_cons.2 rfl
  have heq := (Text.digits_append_inj (hdigits m) (hdigits n) (hstops _) (hstops _) hreversed).1
  rw [← Text.padded_value 0 m, List.reverse_injective heq, Text.padded_value]

/-- If all ordinals up to one are in use for a relation, there are as many names. -/
theorem ordinal_le_length {used : List String} {relation : String} {n : Nat}
    (h : ∀ i, 0 < i → i ≤ n → ∃ target, candidate relation target i ∈ used) : n ≤ used.length := by
  choose! target htarget using h
  let name (i : Nat) : String := candidate relation (target i) i
  have hsub : (List.range' 1 n).map name ⊆ used := by
    intro x hx
    obtain ⟨i, hi, rfl⟩ := List.mem_map.1 hx
    have hrange := List.mem_range'_1.1 hi
    exact htarget i (by omega) (by omega)
  have hnodup : ((List.range' 1 n).map name).Nodup :=
    List.Pairwise.map _ (fun i j hij heq => hij (candidate_ordinal heq)) List.nodup_range'
  have hlength := hnodup.length_le_of_subset hsub
  rwa [List.length_map, List.length_range'] at hlength

/-! ## The search -/

/-- Candidates are tried from the one after `last` on, until one is not in use. -/
inductive Searches (used : List String) (name : Nat → String) : (last tried ordinal : Nat) → Prop
  | free {n : Nat} : name (n + 1) ∉ used → Searches used name n 1 (n + 1)
  | taken {n k m : Nat} : name (n + 1) ∈ used → Searches used name (n + 1) k m →
      Searches used name n (k + 1) m

section Search

variable {used : List String} {name : Nat → String} {n k m : Nat}

theorem Searches.ordinal_eq (h : Searches used name n k m) : m = n + k := by
  induction h with
  | free _ => rfl
  | taken _ _ ih => omega

theorem Searches.tried_pos (h : Searches used name n k m) : 0 < k := by
  cases h <;> omega

theorem Searches.taken_below (h : Searches used name n k m) {i : Nat} (hn : n < i) (hm : i < m) :
    name i ∈ used := by
  induction h with
  | free _ => omega
  | @taken n k m htaken _ ih =>
    by_cases hi : i = n + 1
    · exact hi ▸ htaken
    · exact ih (by omega) hm

/-- A search has one outcome. -/
theorem Searches.unique {k' m' : Nat} (h : Searches used name n k m) (h' : Searches used name n k' m') :
    k = k' ∧ m = m' := by
  induction h generalizing k' with
  | free hfree =>
    cases h' with
    | free _ => exact ⟨rfl, rfl⟩
    | taken htaken _ => exact absurd htaken hfree
  | taken htaken _ ih =>
    cases h' with
    | free hfree => exact absurd htaken hfree
    | taken _ h' =>
      obtain ⟨rfl, rfl⟩ := ih h'
      exact ⟨rfl, rfl⟩

/-- The bounded search, where it finds a name that is not in use, is the search without a bound. -/
theorem searches_freshOrdinal : ∀ {fuel n : Nat}, name (freshOrdinal used name fuel n) ∉ used →
    ∃ k, Searches used name n k (freshOrdinal used name fuel n)
  | 0, _, h => ⟨1, .free h⟩
  | fuel + 1, n, h => by
    rw [freshOrdinal] at h ⊢
    by_cases htaken : name (n + 1) ∈ used
    · rw [if_pos (List.contains_iff_mem.2 htaken)] at h ⊢
      obtain ⟨k, hk⟩ := searches_freshOrdinal h
      exact ⟨k + 1, .taken htaken hk⟩
    · rw [if_neg fun hc => htaken (List.contains_iff_mem.1 hc)]
      exact ⟨1, .free htaken⟩

end Search

/-! ## Counters -/

/-- The last ordinal of a counter. -/
def last (a : Aliases) (counter : String × String) : Nat :=
  (a.ordinals.lookup counter).getD 0

theorem lookup_setOrdinal (counter key : String × String) (n : Nat)
    (ordinals : List ((String × String) × Nat)) :
    (setOrdinal counter n ordinals).lookup key =
      if key = counter then some n else ordinals.lookup key := by
  induction ordinals with
  | nil => exact lookup_cons_ite key counter n []
  | cons p rest ih =>
    obtain ⟨k, m⟩ := p
    rw [setOrdinal, lookup_cons_ite]
    by_cases hk : k = counter
    · subst hk
      rw [if_pos rfl, lookup_cons_ite]
      split_ifs <;> rfl
    · rw [if_neg hk, lookup_cons_ite, ih]
      by_cases hkey : key = counter
      · rw [if_neg (hkey ▸ Ne.symm hk), if_pos hkey, if_pos hkey]
      · rw [if_neg hkey, if_neg hkey]

/-- Every ordinal up to the last one of a counter is in use. -/
def Counted (a : Aliases) : Prop :=
  ∀ counter i, 0 < i → i ≤ a.last counter → ∃ target, candidate counter.2 target i ∈ a.used

/-! ## Requests -/

/-- A relation to be followed from a parent alias. -/
structure Request where
  parentAlias : String
  parentTable : String
  relation : String
  target : String
  deriving DecidableEq, Repr

namespace Request

/-- What has one alias. -/
def pair (r : Request) : String × String := (r.parentAlias, r.relation)

/-- What ordinals are counted for. -/
def counter (r : Request) : String × String := (r.parentTable, r.relation)

def name (r : Request) (ordinal : Nat) : String := candidate r.relation r.target ordinal

end Request

/-- The alias of a request and the names after it. -/
def give (a : Aliases) (r : Request) : String × Aliases :=
  a.tableAlias r.parentAlias r.parentTable r.relation r.target

/-- The names after a row of requests. -/
def after (a : Aliases) (rs : List Request) : Aliases :=
  rs.foldl (fun a r => (a.give r).2) a

/-- A request for a new pair: its search, the outcome of which is the alias. -/
structure Finds (a : Aliases) (r : Request) (tried ordinal : Nat) : Prop where
  new : a.assigned.lookup r.pair = none
  searches : Searches a.used r.name (a.last r.counter) tried ordinal
  given : (a.give r).1 = r.name ordinal

variable {a : Aliases} {r : Request}

/-- A request either has its alias already, or a search gives it a new one. -/
theorem give_cases (a : Aliases) (r : Request) :
    (∃ y, a.assigned.lookup r.pair = some y ∧ a.give r = (y, a)) ∨
    (a.assigned.lookup r.pair = none ∧ ∃ k n, Searches a.used r.name (a.last r.counter) k n ∧
      a.give r = (r.name n,
        { ordinals := setOrdinal r.counter n a.ordinals
          assigned := (r.pair, r.name n) :: a.assigned
          used := r.name n :: a.used })) := by
  unfold give tableAlias
  cases h : a.assigned.lookup (r.parentAlias, r.relation) with
  | some y => exact .inl ⟨y, h, rfl⟩
  | none =>
    obtain ⟨k, hk⟩ := searches_freshOrdinal
      (freshOrdinal_fresh a.used r.relation r.target (a.last r.counter))
    exact .inr ⟨h, k, _, hk, rfl⟩

/-! ## One request -/

theorem Sound.give (hs : a.Sound) (r : Request) :
    (a.give r).2.Sound ∧ Extends a (a.give r).2 ∧
      (a.give r).2.assigned.lookup r.pair = some (a.give r).1 := by
  obtain ⟨hsound, hextends, hassigned, -⟩ :=
    hs.tableAlias r.parentAlias r.parentTable r.relation r.target
  exact ⟨hsound, hextends, hassigned⟩

/-- Only the pair of the request is new among those that have an alias. -/
theorem lookup_give_eq_none {pair : String × String} :
    (a.give r).2.assigned.lookup pair = none ↔ r.pair ≠ pair ∧ a.assigned.lookup pair = none := by
  obtain ⟨y, hy, hgive⟩ | ⟨hnone, k, n, -, hgive⟩ := give_cases a r
  · rw [hgive, iff_and_self]
    rintro hnone rfl
    rw [hy] at hnone
    cases hnone
  · rw [hgive, lookup_cons_ite]
    by_cases hpair : pair = r.pair
    · simp [hpair]
    · simp [hpair, Ne.symm hpair]

/-- What a counter reaches by a new alias, and that the others stand still. -/
theorem last_give_of_none (hnone : a.assigned.lookup r.pair = none) :
    ∃ k n, a.Finds r k n ∧ (a.give r).2.used = r.name n :: a.used ∧
      ∀ counter, (a.give r).2.last counter = if counter = r.counter then n else a.last counter := by
  obtain ⟨y, hy, -⟩ | ⟨-, k, n, hsearch, hgive⟩ := give_cases a r
  · rw [hy] at hnone
    cases hnone
  · refine ⟨k, n, ⟨hnone, hsearch, by rw [hgive]⟩, by rw [hgive], fun counter => ?_⟩
    rw [hgive, last, lookup_setOrdinal]
    split <;> rfl

/-- A repeated request leaves everything as it is. -/
theorem give_of_some {y : String} (h : a.assigned.lookup r.pair = some y) : a.give r = (y, a) := by
  obtain ⟨z, hz, hgive⟩ | ⟨hnone, -⟩ := give_cases a r
  · rw [h] at hz
    cases hz
    exact hgive
  · rw [h] at hnone
    cases hnone

theorem last_le_last_give (a : Aliases) (r : Request) (counter : String × String) :
    a.last counter ≤ (a.give r).2.last counter := by
  cases h : a.assigned.lookup r.pair with
  | some y => exact Nat.le_of_eq (by rw [give_of_some h])
  | none =>
    obtain ⟨k, n, hfinds, -, hlast⟩ := last_give_of_none h
    rw [hlast]
    split
    · rename_i hcounter
      rw [hcounter, hfinds.searches.ordinal_eq]
      exact Nat.le_add_right _ _
    · exact Nat.le_refl _

/-- The candidates of a search are in use up to the one that it finds. -/
theorem Counted.finds (hc : Counted a) {k n : Nat} (h : a.Finds r k n) {i : Nat} (hpos : 0 < i)
    (hi : i < n) : ∃ target, candidate r.relation target i ∈ a.used := by
  by_cases hlast : i ≤ a.last r.counter
  · exact hc r.counter i hpos hlast
  · exact ⟨r.target, h.searches.taken_below (Nat.lt_of_not_le hlast) hi⟩

theorem Counted.give (hc : Counted a) (r : Request) : Counted (a.give r).2 := by
  cases h : a.assigned.lookup r.pair with
  | some y =>
    rw [give_of_some h]
    exact hc
  | none =>
    obtain ⟨k, n, hfinds, hused, hlast⟩ := last_give_of_none h
    intro counter i hpos hi
    rw [hlast] at hi
    simp only [hused, List.mem_cons]
    by_cases hcounter : counter = r.counter
    · -- Below the new ordinal are those counted before and those that the search found in use.
      rw [if_pos hcounter] at hi
      subst hcounter
      by_cases hn : i = n
      · exact ⟨r.target, .inl (hn ▸ rfl)⟩
      · obtain ⟨target, htarget⟩ := hc.finds hfinds hpos (by omega)
        exact ⟨target, .inr htarget⟩
    · rw [if_neg hcounter] at hi
      obtain ⟨target, htarget⟩ := hc counter i hpos hi
      exact ⟨target, .inr htarget⟩

/-- A search tries no more candidates than there are names in use, and one; nor is its ordinal greater. -/
theorem Counted.ordinal_le (hc : Counted a) {k n : Nat} (h : a.Finds r k n) :
    n ≤ a.used.length + 1 ∧ k ≤ a.used.length + 1 := by
  have hbelow : n - 1 ≤ a.used.length :=
    ordinal_le_length fun i hpos hi => hc.finds h hpos (by omega)
  have heq := h.searches.ordinal_eq
  omega

/-! ## A row of requests -/

theorem counted_empty : Counted {} := fun _ _ hpos hi => absurd hi (Nat.not_le.2 hpos)

theorem after_split (a : Aliases) (first rest : List Request) (q : Request) :
    after a (first ++ q :: rest) = after ((after a first).give q).2 rest := by
  simp [after]

theorem Counted.after (hc : Counted a) (rs : List Request) : Counted (after a rs) := by
  induction rs generalizing a with
  | nil => exact hc
  | cons r rs ih => exact ih (hc.give r)

theorem Sound.after (hs : a.Sound) (rs : List Request) :
    (after a rs).Sound ∧ Extends a (after a rs) := by
  induction rs generalizing a with
  | nil => exact ⟨hs, .refl a⟩
  | cons r rs ih =>
    obtain ⟨hsound, hextends, -⟩ := hs.give r
    obtain ⟨hafter, hmore⟩ := ih hsound
    exact ⟨hafter, hextends.trans hmore⟩

theorem last_le_last_after (a : Aliases) (rs : List Request) (counter : String × String) :
    a.last counter ≤ (after a rs).last counter := by
  induction rs generalizing a with
  | nil => exact Nat.le_refl _
  | cons r rs ih => exact Nat.le_trans (last_le_last_give a r counter) (ih _)

theorem lookup_after_eq_none {rs : List Request} {pair : String × String} :
    (after a rs).assigned.lookup pair = none ↔
      a.assigned.lookup pair = none ∧ ∀ q ∈ rs, q.pair ≠ pair := by
  induction rs generalizing a with
  | nil => simp [after]
  | cons r rs ih =>
    rw [List.forall_mem_cons, after, List.foldl_cons]
    exact ih.trans (by rw [lookup_give_eq_none]; tauto)

/-- A pair that was not asked for has no alias. -/
theorem lookup_of_new {before : List Request} (h : ∀ q ∈ before, q.pair ≠ r.pair) :
    (after {} before).assigned.lookup r.pair = none :=
  lookup_after_eq_none.2 ⟨rfl, h⟩

/-- A new alias of a counter has a greater ordinal than an earlier new one. -/
theorem ordinal_increases {first rest : List Request} {q r : Request} {k m k' n : Nat}
    (hcounter : q.counter = r.counter) (hq : (after {} first).Finds q k m)
    (hr : (after {} (first ++ q :: rest)).Finds r k' n) :
    m < n := by
  obtain ⟨j, i, hfinds, -, hlast⟩ := last_give_of_none hq.new
  obtain ⟨rfl, rfl⟩ := hfinds.searches.unique hq.searches
  have hreached : i ≤ (after {} (first ++ q :: rest)).last r.counter := by
    have hmono := last_le_last_after ((after {} first).give q).2 rest r.counter
    rwa [hlast, if_pos hcounter.symm, ← after_split] at hmono
  have hpos := hr.searches.tried_pos
  have heq := hr.searches.ordinal_eq
  omega

/--
Whatever was asked for before, a request for a new pair ends its search after at most one candidate more
than there are names in use, with an ordinal of one or more; no two pairs have one alias; a pair that was
asked for before gets the alias that it got then, and nothing changes; and of two new aliases of one parent
table and relation the later one has the greater ordinal.
-/
theorem requests_named (before : List Request) (r : Request) :
    let a := after {} before
    ((∀ q ∈ before, q.pair ≠ r.pair) → ∃ tried ordinal, a.Finds r tried ordinal ∧
      tried ≤ a.used.length + 1 ∧ 1 ≤ ordinal ∧ ordinal ≤ a.used.length + 1) ∧
    (a.used.Nodup ∧ ∀ p q y, a.assigned.lookup p = some y → a.assigned.lookup q = some y → p = q) ∧
    (∀ first q rest, before = first ++ q :: rest → q.pair = r.pair →
      a.give r = (((after {} first).give q).1, a)) ∧
    (∀ first q rest, before = first ++ q :: rest → q.counter = r.counter →
      ∀ k m k' n, (after {} first).Finds q k m → a.Finds r k' n → m < n) := by
  intro a
  have hcounted : Counted a := counted_empty.after before
  obtain ⟨hsound, -⟩ := sound_empty.after before
  refine ⟨fun hnew => ?_, ⟨hsound.nodup, fun p q y hp hq => ?_⟩, ?_, ?_⟩
  · obtain ⟨k, n, hfinds, -⟩ := last_give_of_none (lookup_of_new hnew)
    obtain ⟨hordinal, htried⟩ := hcounted.ordinal_le hfinds
    have hpos := hfinds.searches.tried_pos
    have heq := hfinds.searches.ordinal_eq
    exact ⟨k, n, hfinds, htried, by omega, hordinal⟩
  · obtain ⟨hparent, hrelation⟩ := hsound.parent_unique hp hq
    exact Prod.ext hparent hrelation
  · intro first q rest hbefore hpair
    obtain ⟨hgiven, -, hassigned⟩ := (sound_empty.after first).1.give q
    have hkept := (hgiven.after rest).2.assigned _ _ hassigned
    rw [← after_split, ← hbefore, hpair] at hkept
    exact give_of_some hkept
  · intro first q rest hbefore hcounter k m k' n hq hr
    subst hbefore
    exact ordinal_increases hcounter hq hr

/-- A relation `x` to the table `y_z`. -/
def shortRelation : Request := ⟨"a", "t", "x", "y_z"⟩

/-- A relation `x_y` to the table `z`, whose candidates are the same texts. -/
def longRelation : Request := ⟨"a", "t", "x_y", "z"⟩

/-- The same relation of another parent. -/
def elsewhere : Request := ⟨"b", "t", "x_y", "z"⟩

/-- Where another relation has taken a name, the count goes on behind it. -/
theorem elsewhere_named :
    let a := after {} [shortRelation, longRelation]
    ((∀ q ∈ [shortRelation, longRelation], q.pair ≠ elsewhere.pair) ∧
      ∃ tried ordinal, a.Finds elsewhere tried ordinal ∧
        tried ≤ a.used.length + 1 ∧ 1 ≤ ordinal ∧ ordinal ≤ a.used.length + 1) ∧
    (a.assigned.lookup ("a", "x_y") = some "x_y_z_2" ∧
      ∀ p, a.assigned.lookup p = some "x_y_z_2" → ("a", "x_y") = p) ∧
    a.give longRelation = (((after {} [shortRelation]).give longRelation).1, a) ∧
    ((after {} [shortRelation]).Finds longRelation 2 2 ∧ a.Finds elsewhere 1 3 ∧ 2 < 3) := by
  have hnew : ∀ q ∈ [shortRelation, longRelation], q.pair ≠ elsewhere.pair := by decide
  have hassigned : (after {} [shortRelation, longRelation]).assigned.lookup ("a", "x_y") =
      some "x_y_z_2" := by decide +kernel
  -- The first candidate of `longRelation` is the name of `shortRelation`.
  have hlong : (after {} [shortRelation]).Finds longRelation 2 2 :=
    ⟨by decide +kernel, .taken (by decide +kernel) (.free (by decide +kernel)), by decide +kernel⟩
  have helsewhere : (after {} [shortRelation, longRelation]).Finds elsewhere 1 3 :=
    ⟨by decide +kernel, .free (by decide +kernel), by decide +kernel⟩
  obtain ⟨hends, ⟨-, hinjective⟩, -, hincreases⟩ :=
    requests_named [shortRelation, longRelation] elsewhere
  obtain ⟨-, -, hrepeated, -⟩ := requests_named [shortRelation, longRelation] longRelation
  exact ⟨⟨hnew, hends hnew⟩, ⟨hassigned, fun p => hinjective _ p _ hassigned⟩,
    hrepeated [shortRelation] longRelation [] rfl rfl, hlong, helsewhere,
    hincreases [shortRelation] longRelation [] rfl rfl 2 2 1 3 hlong helsewhere⟩

end Orm.Aliases
