import Mathlib.Data.String.Basic
import Orm.Settings.Loading

/-
A document over another, path by path.

Where the upper document has a part that is no object, or the lower one has no object to merge it with, the
part is what is found (`at?_merged_of_some`). Where the upper document does not reach a path, what is found
is that of the lower one (`at?_merged_of_unmentioned`); and under a part that is replaced nothing of the
lower one is left (`at?_merged_of_replaced`).
-/

namespace Orm.Json

variable {name other : String} {value : Json} {base members : List (String × Json)}

/-! ## Members -/

@[simp] theorem member?_insertMember_self :
    member? name (insertMember name value members) = some value := by
  induction members with
  | nil => simp [insertMember, member?]
  | cons m rest ih =>
    obtain ⟨n, v⟩ := m
    rw [insertMember]
    split_ifs with heq hlt
    · simp [member?]
    · simp [member?]
    · rw [member?, if_neg (Ne.symm heq), ih]

theorem member?_insertMember_of_ne (h : other ≠ name) :
    member? other (insertMember name value members) = member? other members := by
  induction members with
  | nil => simp [insertMember, member?, Ne.symm h]
  | cons m rest ih =>
    obtain ⟨n, v⟩ := m
    rw [insertMember]
    split_ifs with heq hlt
    · simp [member?, ← heq, Ne.symm h]
    · simp [member?, Ne.symm h]
    · rw [member?, member?, ih]

theorem mem_insertMember {m : String × Json} (h : m ∈ insertMember name value members) :
    m = (name, value) ∨ m ∈ members := by
  induction members with
  | nil => exact .inl (List.mem_singleton.1 h)
  | cons p rest ih =>
    obtain ⟨n, v⟩ := p
    rw [insertMember] at h
    split_ifs at h <;> grind

theorem mem_of_member? (h : member? name members = some value) : (name, value) ∈ members := by
  induction members with
  | nil => cases h
  | cons m rest ih =>
    obtain ⟨n, v⟩ := m
    rw [member?] at h
    split_ifs at h with hn
    · cases h
      exact hn ▸ List.mem_cons_self
    · exact List.mem_cons_of_mem _ (ih h)

/-- The members stand in the order of their names, which are all different. -/
def Ascending (members : List (String × Json)) : Prop := members.Pairwise fun m n => m.1 < n.1

theorem Ascending.insertMember (h : Ascending members) :
    Ascending (insertMember name value members) := by
  induction members with
  | nil => exact List.pairwise_singleton _ _
  | cons p rest ih =>
    obtain ⟨n, v⟩ := p
    obtain ⟨hfirst, hrest⟩ := List.pairwise_cons.1 h
    rw [Json.insertMember]
    split_ifs with heq hlt
    · subst heq
      exact List.pairwise_cons.2 ⟨hfirst, hrest⟩
    · refine List.pairwise_cons.2 ⟨List.forall_mem_cons.2 ⟨hlt, fun m hm => ?_⟩, h⟩
      exact lt_trans hlt (hfirst m hm)
    · refine List.pairwise_cons.2 ⟨fun m hm => ?_, ih hrest⟩
      obtain rfl | hm := mem_insertMember hm
      · exact lt_of_le_of_ne (not_lt.1 hlt) (Ne.symm heq)
      · exact hfirst m hm

theorem insertMember_last (h : ∀ m ∈ members, m.1 < name) :
    insertMember name value members = members ++ [(name, value)] := by
  induction members with
  | nil => rfl
  | cons p rest ih =>
    obtain ⟨n, v⟩ := p
    obtain ⟨hn, hrest⟩ := List.forall_mem_cons.1 h
    rw [insertMember, if_neg hn.ne', if_neg hn.asymm, ih hrest, List.cons_append]

theorem member?_eq_none (h : ∀ m ∈ members, m.1 ≠ name) : member? name members = none := by
  induction members with
  | nil => rfl
  | cons p rest ih =>
    obtain ⟨hn, hrest⟩ := List.forall_mem_cons.1 h
    rw [member?, if_neg hn, ih hrest]

/-! ## Documents with members in order -/

/-- In every object of the document the members stand in the order of their names. -/
inductive Ordered : Json → Prop
  | null : Ordered .null
  | bool (b : Bool) : Ordered (.bool b)
  | number (n : JsonNumber) : Ordered (.number n)
  | string (s : String) : Ordered (.string s)
  | array {items : List Json} (parts : ∀ j ∈ items, Ordered j) : Ordered (.array items)
  | object {members : List (String × Json)} (ascending : Ascending members)
      (parts : ∀ m ∈ members, Ordered m.2) : Ordered (.object members)

mutual
theorem ordered_canonical : ∀ j : Json, (canonical j).Ordered
  | .null => .null
  | .bool b => .bool b
  | .number n => .number n
  | .string s => .string s
  | .array items => .array (ordered_canonicalItems items)
  | .object members =>
    have h := ordered_canonicalMembers members [] .nil nofun
    .object h.1 h.2

theorem ordered_canonicalItems : ∀ items : List Json, ∀ j ∈ canonicalItems items, j.Ordered
  | [] => nofun
  | j :: rest => List.forall_mem_cons.2 ⟨ordered_canonical j, ordered_canonicalItems rest⟩

theorem ordered_canonicalMembers : ∀ members acc : List (String × Json), Ascending acc →
    (∀ m ∈ acc, m.2.Ordered) →
    Ascending (canonicalMembers members acc) ∧ ∀ m ∈ canonicalMembers members acc, m.2.Ordered
  | [], _, hacc, hparts => ⟨hacc, hparts⟩
  | (name, value) :: rest, acc, hacc, hparts => by
    refine ordered_canonicalMembers rest _ hacc.insertMember fun m hm => ?_
    obtain rfl | hm := mem_insertMember hm
    · exact ordered_canonical value
    · exact hparts m hm
end

theorem ofText?_ordered {text : String} {j : Json} (h : ofText? text = some j) : j.Ordered := by
  obtain ⟨read, -, rfl⟩ := Option.map_eq_some_iff.1 h
  exact ordered_canonical read

/-! ## One table over another -/

/-- A part over the one in its place, if there is one. -/
def onto : Option Json → Json → Json
  | some old, value => old.merged value
  | none, value => value

def isObject : Json → Bool
  | .object _ => true
  | _ => false

variable {b j v w : Json}

theorem merged_of_upper (h : j.isObject = false) : b.merged j = j := by
  cases j with
  | object members => cases h
  | _ => rfl

theorem merged_of_lower (h : b.isObject = false) : b.merged j = j := by
  cases b with
  | object base => cases h
  | _ => cases j <;> rfl

theorem merged_object : (Json.object base).merged (.object members) = .object (mergedMembers base members) :=
  rfl

theorem mergedMembers_cons {rest : List (String × Json)} :
    mergedMembers base ((name, value) :: rest) =
      mergedMembers (insertMember name (onto (member? name base) value) base) rest := by
  rw [mergedMembers]
  cases member? name base <;> rfl

/-- A member of the upper table stands over the one of the same name, and the others are as they were. -/
theorem member?_mergedMembers (h : Ascending members) :
    member? name (mergedMembers base members) =
      ((member? name members).map (onto (member? name base))).or (member? name base) := by
  induction members generalizing base with
  | nil => rfl
  | cons m rest ih =>
    obtain ⟨n, v⟩ := m
    obtain ⟨hfirst, hrest⟩ := List.pairwise_cons.1 h
    rw [mergedMembers_cons, ih hrest, member?]
    by_cases hn : n = name
    · -- The name does not occur again, so what is put in first stays.
      subst hn
      rw [if_pos rfl, member?_eq_none fun m hm => (hfirst m hm).ne', member?_insertMember_self]
      rfl
    · rw [if_neg hn, member?_insertMember_of_ne (Ne.symm hn)]

/-- Over an empty table a table stays what it is. -/
theorem mergedMembers_of_ascending (h : Ascending (base ++ members)) :
    mergedMembers base members = base ++ members := by
  induction members generalizing base with
  | nil => exact (List.append_nil base).symm
  | cons m rest ih =>
    obtain ⟨n, v⟩ := m
    have hbelow : ∀ m ∈ base, m.1 < n := fun m hm =>
      (List.pairwise_append.1 h).2.2 m hm (n, v) List.mem_cons_self
    rw [mergedMembers_cons, member?_eq_none fun m hm => (hbelow m hm).ne, onto,
      insertMember_last hbelow, ih (by rwa [List.append_assoc]), List.append_assoc]
    rfl

theorem Ordered.merged_empty (h : j.Ordered) : (Json.object []).merged j = j := by
  cases h with
  | object ascending _ => exact congrArg Json.object (mergedMembers_of_ascending ascending)
  | _ => rfl

/-! ## Paths -/

/-- The part of a document at the end of a path of names. -/
def at? : Json → List String → Option Json
  | j, [] => some j
  | .object members, name :: rest => (member? name members).bind (at? · rest)
  | _, _ :: _ => none

/-- Whether a document says what is at a path: it has a part there, or one on the way that is no object. -/
def Mentions (j : Json) (path : List String) : Prop :=
  (∃ v, j.at? path = some v) ∨
    ∃ start rest v, path = start ++ rest ∧ j.at? start = some v ∧ v.isObject = false

variable {path : List String}

theorem mentions_of_not_object (h : j.isObject = false) : j.Mentions path :=
  .inr ⟨[], path, j, rfl, by cases path <;> rfl, h⟩

theorem mentions_cons : (Json.object members).Mentions (name :: path) ↔
    ∃ v, member? name members = some v ∧ v.Mentions path := by
  constructor
  · rintro (⟨w, hw⟩ | ⟨start, rest, w, hpath, hw, hleaf⟩)
    · obtain ⟨v, hv, hw⟩ := Option.bind_eq_some_iff.1 hw
      exact ⟨v, hv, .inl ⟨w, hw⟩⟩
    · cases start with
      | nil =>
        cases hw
        cases hleaf
      | cons n start =>
        obtain ⟨rfl, rfl⟩ := List.cons.inj hpath
        obtain ⟨v, hv, hw⟩ := Option.bind_eq_some_iff.1 hw
        exact ⟨v, hv, .inr ⟨start, rest, w, rfl, hw, hleaf⟩⟩
  · rintro ⟨v, hv, ⟨w, hw⟩ | ⟨start, rest, w, rfl, hw, hleaf⟩⟩
    · exact .inl ⟨w, Option.bind_eq_some_iff.2 ⟨v, hv, hw⟩⟩
    · exact .inr ⟨name :: start, rest, w, rfl, Option.bind_eq_some_iff.2 ⟨v, hv, hw⟩, hleaf⟩

theorem at?_cons (b : Json) (name : String) (path : List String) :
    b.at? (name :: path) = (b.at? [name]).bind (at? · path) := by
  cases b with
  | object base =>
    rw [at?, at?, Option.bind_assoc]
    rfl
  | _ => rfl

/-- What is found below a name, from what the two documents have at it. -/
theorem at?_merged_cons (h : Ascending members) :
    (b.merged (.object members)).at? (name :: path) =
      (((member? name members).map (onto (b.at? [name]))).or (b.at? [name])).bind (at? · path) := by
  have hlower : ∀ base, (Json.object base).at? [name] = member? name base := fun base =>
    Option.bind_fun_some _
  cases b with
  | object base => rw [merged_object, at?, member?_mergedMembers h, hlower]
  | _ =>
    rw [merged_of_lower rfl, at?]
    cases member? name members <;> rfl

/-- A part of the upper document stands over what the lower one has in its place. -/
theorem at?_merged_of_some (hj : j.Ordered) (h : j.at? path = some v) :
    (b.merged j).at? path = some (onto (b.at? path) v) := by
  induction path generalizing b j with
  | nil =>
    cases h
    rfl
  | cons name path ih =>
    cases hj with
    | @object members ascending parts =>
      obtain ⟨w, hw, hv⟩ := Option.bind_eq_some_iff.1 h
      rw [at?_merged_cons ascending, hw, at?_cons b name path]
      cases b.at? [name] with
      | none => exact hv
      | some old => exact ih (parts _ (mem_of_member? hw)) hv
    | _ => cases h

theorem at?_of_unmentioned (h : ¬j.Mentions path) : j.at? path = none :=
  Option.eq_none_iff_forall_ne_some.2 fun v hv => h (.inl ⟨v, hv⟩)

/-- What the upper document does not mention stays as it is. -/
theorem at?_merged_of_unmentioned (hj : j.Ordered) (h : ¬j.Mentions path) :
    (b.merged j).at? path = b.at? path := by
  induction path generalizing b j with
  | nil => exact absurd (.inl ⟨j, rfl⟩) h
  | cons name path ih =>
    cases hj with
    | @object members ascending parts =>
      rw [at?_merged_cons ascending, at?_cons b name path]
      cases hw : member? name members with
      | none => rfl
      | some w =>
        have hbelow : ¬w.Mentions path := fun hm => h (mentions_cons.2 ⟨w, hw, hm⟩)
        cases b.at? [name] with
        | none => exact at?_of_unmentioned hbelow
        | some old => exact ih (parts _ (mem_of_member? hw)) hbelow
    | _ => exact absurd (mentions_of_not_object rfl) h

/-- Under a part of the upper document that is no object nothing of the lower one is left. -/
theorem at?_merged_of_replaced (hj : j.Ordered) (h : j.Mentions path) (hnone : j.at? path = none) :
    (b.merged j).at? path = none := by
  induction path generalizing b j with
  | nil => cases hnone
  | cons name path ih =>
    cases hj with
    | @object members ascending parts =>
      obtain ⟨w, hw, hbelow⟩ := mentions_cons.1 h
      have hpart : w.at? path = none := by rwa [at?, hw] at hnone
      rw [at?_merged_cons ascending, hw]
      cases b.at? [name] with
      | none => exact hpart
      | some old => exact ih (parts _ (mem_of_member? hw)) hbelow hpart
    | _ => rfl

example : (Json.object [("a", .object [("b", .bool true), ("c", .bool true)]), ("d", .object [])]).merged
    (.object [("a", .object [("c", .null)]), ("d", .bool false)]) =
      .object [("a", .object [("b", .bool true), ("c", .null)]), ("d", .bool false)] := by decide +kernel

/-- A part that is no object, or that has no object to be merged with, is what is found. -/
theorem onto_eq_self (h : v.isObject = false ∨ ∀ old, b.at? path = some old → old.isObject = false) :
    onto (b.at? path) v = v := by
  cases hb : b.at? path with
  | none => rfl
  | some old =>
    obtain hv | hold := h
    · exact merged_of_upper hv
    · exact merged_of_lower (hold old hb)

end Orm.Json
