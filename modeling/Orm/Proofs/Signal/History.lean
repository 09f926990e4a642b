import Orm.Signal

/-
A signal and its history.

`Signal.replay` is the signal that a history leads to. It is an ordered map (`mapOf_replay`): an id has the
receiver that was connected last under it (`Held`), unless it was removed since (`Gone`), and the ids are
in the order in which they were opened, which is when they were connected while they were absent (`Opened`).
-/

namespace Orm

/-- An element among the first or among the last of a list. -/
theorem append_eq_split {α : Type} {a b before after : List α} {x : α} :
    a ++ b = before ++ x :: after ↔ (∃ rest, a = before ++ x :: rest ∧ after = rest ++ b) ∨
      ∃ first, before = a ++ first ∧ b = first ++ x :: after := by
  constructor
  · intro h
    rcases List.append_eq_append_iff.1 h with ⟨first, hbefore, hb⟩ | ⟨rest, ha, hafter⟩
    · exact .inr ⟨first, hbefore, hb⟩
    · rcases List.cons_eq_append_iff.1 hafter with ⟨rfl, hb⟩ | ⟨rest, rfl, hrest⟩
      · exact .inr ⟨[], by rw [ha, List.append_nil, List.append_nil], hb⟩
      · exact .inl ⟨rest, ha, hrest⟩
  · rintro (⟨rest, rfl, rfl⟩ | ⟨first, rfl, rfl⟩) <;> simp

theorem snoc_eq_split {α : Type} {h before after : List α} {e x : α} :
    h ++ [e] = before ++ x :: after ↔ (h = before ∧ e = x ∧ after = []) ∨
      ∃ rest, h = before ++ x :: rest ∧ after = rest ++ [e] := by
  rw [append_eq_split]
  constructor
  · rintro (hfirst | ⟨first, rfl, hlast⟩)
    · exact .inr hfirst
    · rcases List.cons_eq_append_iff.1 hlast with ⟨rfl, hlast⟩ | ⟨rest, -, hnil⟩
      · cases hlast
        exact .inl ⟨(List.append_nil _).symm, rfl, rfl⟩
      · simp at hnil
  · rintro (⟨rfl, rfl, rfl⟩ | hfirst)
    · exact .inr ⟨[], (List.append_nil _).symm, rfl⟩
    · exact .inl hfirst

namespace Signal

variable {ρ π : Type}

/-! ## Events -/

/-- What happens to a signal, and on it. A dispatch is known by the moment when it began. -/
inductive Event (ρ π : Type) where
  | connected (id : String) (r : ρ)
  /-- Says whether there was a receiver. -/
  | disconnected (id : String) (found : Bool)
  | cleared
  | began (payload : π)
  | called (dispatch : Nat) (r : ρ) (payload : π)
  /-- Says how many receivers were called. -/
  | ended (dispatch : Nat) (count : Nat)

namespace Event

def connects (id : String) : Event ρ π → Prop
  | connected i _ => i = id
  | _ => False

def removes (id : String) : Event ρ π → Prop
  | disconnected i _ => i = id
  | cleared => True
  | _ => False

def apply (e : Event ρ π) (s : Signal ρ) : Signal ρ :=
  match e with
  | connected id r => s.connect id r
  | disconnected id _ => (s.disconnect id).1
  | cleared => s.disconnectAll
  | began _ | called _ _ _ | ended _ _ => s

end Event

/-- The signal after what happened to it. -/
def replay (s : Signal ρ) (h : List (Event ρ π)) : Signal ρ := h.foldl (fun s e => e.apply s) s

theorem replay_append (s : Signal ρ) (a b : List (Event ρ π)) :
    s.replay (a ++ b) = (s.replay a).replay b :=
  List.foldl_append

theorem replay_snoc (s : Signal ρ) (h : List (Event ρ π)) (e : Event ρ π) :
    s.replay (h ++ [e]) = e.apply (s.replay h) :=
  replay_append s h [e]

/-! ## Ids in a history -/

section History

variable {h : List (Event ρ π)} {e : Event ρ π} {id : String}

/-- The latest receiver of an id, which was not removed since. -/
def Held (h : List (Event ρ π)) (id : String) (r : ρ) : Prop :=
  ∃ before after, h = before ++ .connected id r :: after ∧
    ∀ e ∈ after, ¬e.removes id ∧ ¬e.connects id

/-- Every receiver that the id ever had was removed. -/
def Gone (h : List (Event ρ π)) (id : String) : Prop :=
  ∀ before r after, h = before ++ .connected id r :: after → ∃ e ∈ after, e.removes id

/-- The id was absent before the event number `k`, is connected by it, and was not removed since. -/
def Opened (h : List (Event ρ π)) (id : String) (k : Nat) : Prop :=
  ∃ before r after, h = before ++ .connected id r :: after ∧ before.length = k ∧ Gone before id ∧
    ∀ e ∈ after, ¬e.removes id

theorem connects_iff : e.connects id ↔ ∃ r, e = .connected id r := by
  cases e <;> simp [Event.connects]

theorem held_snoc {r : ρ} : Held (h ++ [e]) id r ↔
    e = .connected id r ∨ (Held h id r ∧ ¬e.removes id ∧ ¬e.connects id) := by
  constructor
  · rintro ⟨before, after, hsplit, hafter⟩
    rcases snoc_eq_split.1 hsplit with ⟨-, he, -⟩ | ⟨rest, hh, rfl⟩
    · exact .inl he
    · rw [List.forall_mem_append, List.forall_mem_singleton] at hafter
      exact .inr ⟨⟨before, rest, hh, hafter.1⟩, hafter.2⟩
  · rintro (rfl | ⟨⟨before, after, rfl, hafter⟩, he⟩)
    · exact ⟨h, [], rfl, nofun⟩
    · exact ⟨before, after ++ [e], by simp, List.forall_mem_append.2 ⟨hafter, List.forall_mem_singleton.2 he⟩⟩

theorem gone_snoc : Gone (h ++ [e]) id ↔ e.removes id ∨ (Gone h id ∧ ¬e.connects id) := by
  constructor
  · intro hgone
    by_cases he : e.removes id
    · exact .inl he
    · refine .inr ⟨fun before r after hh => ?_, fun hconnects => ?_⟩
      · obtain ⟨x, hx, hremoves⟩ := hgone before r (after ++ [e]) (by simp [hh])
        rw [List.mem_append, List.mem_singleton] at hx
        rcases hx with hx | rfl
        · exact ⟨x, hx, hremoves⟩
        · exact absurd hremoves he
      · obtain ⟨r, rfl⟩ := connects_iff.1 hconnects
        obtain ⟨x, hx, -⟩ := hgone h r [] rfl
        cases hx
  · intro hlast before r after hsplit
    rcases snoc_eq_split.1 hsplit with ⟨-, rfl, -⟩ | ⟨rest, hh, rfl⟩
    · rcases hlast with hremoves | ⟨-, hconnects⟩
      · cases hremoves
      · exact absurd rfl hconnects
    · rcases hlast with hremoves | ⟨hgone, -⟩
      · exact ⟨e, by simp, hremoves⟩
      · obtain ⟨x, hx, hremoves⟩ := hgone before r rest hh
        exact ⟨x, List.mem_append_left _ hx, hremoves⟩

theorem opened_snoc {k : Nat} : Opened (h ++ [e]) id k ↔
    (Opened h id k ∧ ¬e.removes id) ∨ (e.connects id ∧ Gone h id ∧ k = h.length) := by
  constructor
  · rintro ⟨before, r, after, hsplit, hk, hgone, hafter⟩
    rcases snoc_eq_split.1 hsplit with ⟨rfl, rfl, -⟩ | ⟨rest, hh, rfl⟩
    · exact .inr ⟨rfl, hgone, hk.symm⟩
    · rw [List.forall_mem_append, List.forall_mem_singleton] at hafter
      exact .inl ⟨⟨before, r, rest, hh, hk, hgone, hafter.1⟩, hafter.2⟩
  · rintro (⟨⟨before, r, after, rfl, hk, hgone, hafter⟩, he⟩ | ⟨hconnects, hgone, rfl⟩)
    · exact ⟨before, r, after ++ [e], by simp, hk, hgone,
        List.forall_mem_append.2 ⟨hafter, List.forall_mem_singleton.2 he⟩⟩
    · obtain ⟨r, rfl⟩ := connects_iff.1 hconnects
      exact ⟨h, r, [], rfl, rfl, hgone, nofun⟩

theorem Opened.lt_length {k : Nat} (hk : Opened h id k) : k < h.length := by
  obtain ⟨before, r, after, rfl, rfl, -⟩ := hk
  simp

end History

/-! ## Receivers by their ids -/

def ids (receivers : List (String × ρ)) : List String := receivers.map (·.1)

theorem has_iff {s : Signal ρ} {id : String} : s.has id = true ↔ id ∈ ids s.receivers := by
  simp [has, ids]

theorem ids_connectIn (id : String) (r : ρ) (l : List (String × ρ)) :
    ids (connectIn id r l) = if id ∈ ids l then ids l else ids l ++ [id] := by
  induction l with
  | nil => rfl
  | cons q l ih =>
    obtain ⟨i, old⟩ := q
    by_cases hi : i = id
    · simp [connectIn, ids, hi]
    · have hne : id ≠ i := Ne.symm hi
      by_cases hmem : id ∈ ids l
      · rw [if_pos hmem] at ih
        simp only [ids] at ih hmem
        simp [connectIn, ids, hi, ih, hmem]
      · rw [if_neg hmem] at ih
        simp only [ids] at ih hmem
        simp [connectIn, ids, hi, ih, hmem, hne]

theorem mem_connectIn {id i : String} {r q : ρ} {l : List (String × ρ)} (hl : (ids l).Nodup) :
    (i, q) ∈ connectIn id r l ↔ (i = id ∧ q = r) ∨ (i ≠ id ∧ (i, q) ∈ l) := by
  induction l with
  | nil => simp [connectIn]
  | cons p l ih =>
    obtain ⟨j, old⟩ := p
    obtain ⟨hj, hl⟩ := List.nodup_cons.1 hl
    by_cases hid : j = id
    · have hother : (i, q) ∈ l → i ≠ j := by
        rintro hmem rfl
        exact hj (List.mem_map_of_mem (f := (·.1)) hmem)
      simp only [connectIn, hid, if_true, List.mem_cons, Prod.mk.injEq]
      rw [hid] at hother
      by_cases hi : i = id
      · simp only [hi, true_and, ne_eq, not_true_eq_false, false_and, or_false, or_iff_left_iff_imp]
        exact fun hmem => absurd hi (hother (hi ▸ hmem))
      · simp [hi]
    · simp only [connectIn, hid, if_false, List.mem_cons, Prod.mk.injEq, ih hl]
      by_cases hi : i = id
      · simp [hi, Ne.symm hid]
      · simp [hi]

/-! ## The ordered map -/

/-- The receivers are those of a history. -/
structure MapOf (h : List (Event ρ π)) (receivers : List (String × ρ)) : Prop where
  nodup : (ids receivers).Nodup
  latest : ∀ id r, (id, r) ∈ receivers ↔ Held h id r
  absent : ∀ id, id ∉ ids receivers ↔ Gone h id
  opened : ∀ id ∈ ids receivers, ∃ k, Opened h id k
  order : (ids receivers).Pairwise fun i j => ∀ k l, Opened h i k → Opened h j l → k < l

variable {h : List (Event ρ π)} {s : Signal ρ}

theorem mapOf_nil : MapOf ([] : List (Event ρ π)) ([] : List (String × ρ)) where
  nodup := .nil
  latest id r := by simp [Held]
  absent id := by simp [Gone, ids]
  opened := nofun
  order := .nil

/-- An event that neither connects nor removes anything. -/
theorem MapOf.same {receivers : List (String × ρ)} (hs : MapOf h receivers) {e : Event ρ π}
    (hconnects : ∀ id, ¬e.connects id) (hremoves : ∀ id, ¬e.removes id) :
    MapOf (h ++ [e]) receivers where
  nodup := hs.nodup
  latest id r := by
    have hne : e ≠ .connected id r := fun he => hconnects id (connects_iff.2 ⟨r, he⟩)
    simp [held_snoc, hne, hconnects, hremoves, hs.latest]
  absent id := by simp [gone_snoc, hconnects, hremoves, hs.absent]
  opened id hid := by simpa [opened_snoc, hconnects, hremoves] using hs.opened id hid
  order := by simpa [opened_snoc, hconnects, hremoves] using hs.order

/-- Some ids are removed, the others stay in order. -/
theorem MapOf.filter {receivers : List (String × ρ)} (hs : MapOf h receivers) {e : Event ρ π}
    (hconnects : ∀ id, ¬e.connects id) {keep : String → Bool}
    (hkeep : ∀ id, keep id = true ↔ ¬e.removes id) :
    MapOf (h ++ [e]) (receivers.filter fun q => keep q.1) := by
  have hids : ids (receivers.filter fun q => keep q.1) = (ids receivers).filter keep :=
    List.filter_map.symm
  constructor
  · rw [hids]
    exact hs.nodup.sublist List.filter_sublist
  · intro id r
    have hne : e ≠ .connected id r := fun he => hconnects id (connects_iff.2 ⟨r, he⟩)
    simp [held_snoc, hne, hconnects, List.mem_filter, hkeep, hs.latest]
  · intro id
    rw [hids, List.mem_filter, hkeep, gone_snoc, ← hs.absent]
    have := hconnects id
    by_cases e.removes id <;> simp_all
  · intro id hid
    rw [hids, List.mem_filter, hkeep] at hid
    obtain ⟨k, hk⟩ := hs.opened id hid.1
    exact ⟨k, opened_snoc.2 (.inl ⟨hk, hid.2⟩)⟩
  · rw [hids]
    refine (hs.order.sublist List.filter_sublist).imp fun hij k l hk hl => ?_
    simp only [opened_snoc, hconnects, false_and, or_false] at hk hl
    exact hij k l hk.1 hl.1

/-- A receiver takes the place of the old one of its id, or the last place. -/
theorem MapOf.connect {receivers : List (String × ρ)} (hs : MapOf h receivers) (id : String) (r : ρ) :
    MapOf (h ++ [.connected id r]) (connectIn id r receivers) := by
  have hlatest : ∀ i q, (i, q) ∈ connectIn id r receivers ↔ Held (h ++ [.connected id r]) i q := by
    intro i q
    rw [mem_connectIn hs.nodup, held_snoc, hs.latest]
    simp [Event.removes, Event.connects, and_comm, eq_comm]
  have hgone : ∀ i, Gone (h ++ [.connected id r]) i ↔ Gone h i ∧ i ≠ id := by
    intro i
    simp [gone_snoc, Event.removes, Event.connects, eq_comm]
  have hkept : ∀ {i k}, Opened h i k → Opened (h ++ [.connected id r]) i k := fun hk =>
    opened_snoc.2 (.inl ⟨hk, not_false⟩)
  by_cases hold : id ∈ ids receivers
  · have hids : ids (connectIn id r receivers) = ids receivers := by rw [ids_connectIn, if_pos hold]
    -- an id that is there is not opened again
    have hopened : ∀ {i k}, Opened (h ++ [.connected id r]) i k → Opened h i k := by
      intro i k hk
      rcases opened_snoc.1 hk with ⟨hk, -⟩ | ⟨rfl, hno, -⟩
      · exact hk
      · exact absurd hold ((hs.absent id).2 hno)
    refine ⟨hids ▸ hs.nodup, hlatest, fun i => ?_, fun i hi => ?_, ?_⟩
    · rw [hids, hgone, ← hs.absent]
      exact ⟨fun hi => ⟨hi, fun heq => hi (heq ▸ hold)⟩, And.left⟩
    · obtain ⟨k, hk⟩ := hs.opened i (hids ▸ hi)
      exact ⟨k, hkept hk⟩
    · rw [hids]
      exact hs.order.imp fun hij k l hk hl => hij k l (hopened hk) (hopened hl)
  · have hids : ids (connectIn id r receivers) = ids receivers ++ [id] := by
      rw [ids_connectIn, if_neg hold]
    have hother : ∀ {i k}, i ∈ ids receivers → Opened (h ++ [.connected id r]) i k → Opened h i k := by
      intro i k hi hk
      rcases opened_snoc.1 hk with ⟨hk, -⟩ | ⟨rfl, -, -⟩
      · exact hk
      · exact absurd hi hold
    have hnew : Gone h id := (hs.absent id).1 hold
    refine ⟨?_, hlatest, fun i => ?_, fun i hi => ?_, ?_⟩
    · rw [hids, List.nodup_append]
      exact ⟨hs.nodup, by simp, fun i hi j hj heq => hold (List.mem_singleton.1 hj ▸ heq ▸ hi)⟩
    · rw [hids, hgone, ← hs.absent, List.mem_append, List.mem_singleton, not_or]
    · rw [hids, List.mem_append, List.mem_singleton] at hi
      rcases hi with hi | rfl
      · obtain ⟨k, hk⟩ := hs.opened i hi
        exact ⟨k, hkept hk⟩
      · exact ⟨h.length, opened_snoc.2 (.inr ⟨rfl, hnew, rfl⟩)⟩
    · rw [hids, List.pairwise_append]
      refine ⟨hs.order.imp_of_mem fun hi hj hij k l hk hl => hij k l (hother hi hk) (hother hj hl),
        List.pairwise_singleton _ _, fun i hi j hj k l hk hl => ?_⟩
      rw [List.mem_singleton] at hj
      subst hj
      rcases opened_snoc.1 hl with ⟨hl, -⟩ | ⟨-, -, rfl⟩
      · obtain ⟨before, q, after, rfl, -, -, hafter⟩ := hl
        obtain ⟨e, he, hremoves⟩ := hnew before q after rfl
        exact absurd hremoves (hafter e he)
      · exact (hother hi hk).lt_length

/-- One event. -/
theorem MapOf.apply (hs : MapOf h s.receivers) (e : Event ρ π) :
    MapOf (h ++ [e]) (e.apply s).receivers := by
  cases e with
  | connected id r => exact hs.connect id r
  | disconnected id found =>
    have hconnects : ∀ i, ¬(Event.disconnected id found : Event ρ π).connects i := fun _ => not_false
    have hkeep : ∀ i, (i != id) = true ↔ ¬(Event.disconnected id found : Event ρ π).removes i :=
      fun i => bne_iff_ne.trans (not_congr eq_comm)
    exact hs.filter hconnects hkeep
  | cleared =>
    have hconnects : ∀ i, ¬(Event.cleared : Event ρ π).connects i := fun _ => not_false
    have hkeep : ∀ i : String, false = true ↔ ¬(Event.cleared : Event ρ π).removes i := by
      simp [Event.removes]
    have hnone : s.receivers.filter (fun _ => false) = [] := by simp
    have hs' := hs.filter hconnects hkeep
    rwa [hnone] at hs'
  | began | called | ended => exact hs.same (fun _ => not_false) fun _ => not_false

/-- All events: a signal that nobody was connected to is the ordered map of what happened to it. -/
theorem mapOf_replay (name : String) (h : List (Event ρ π)) :
    MapOf h (replay { name } h).receivers := by
  have hfrom : ∀ (rest : List (Event ρ π)) (before : List (Event ρ π)) (s : Signal ρ),
      MapOf before s.receivers → MapOf (before ++ rest) (s.replay rest).receivers := by
    intro rest
    induction rest with
    | nil =>
      intro before s hs
      rwa [List.append_nil]
    | cons e rest ih =>
      intro before s hs
      rw [List.append_cons]
      exact ih (before ++ [e]) (e.apply s) (hs.apply e)
  exact hfrom h [] { name } mapOf_nil

end Signal

end Orm
