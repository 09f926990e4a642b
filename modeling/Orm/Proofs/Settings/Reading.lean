import Orm.Proofs.Number.Numeral
import Orm.Proofs.Outcome
import Orm.Proofs.Settings.Merge

/-
Tables that were read as settings. The value of a field was written in the table as it was read
(`Inverts`), whether the table is an object or the list of its fields (`settings_reads`,
`database_reads`).
-/

namespace Orm

/-- The part of a table for one of its fields: the member of the name, or in a list the item in the place. -/
def Json.field? (place : Nat) (name : String) : Json → Option Json
  | .object members => member? name members
  | .array items => items[place]?
  | _ => none

namespace Decoding

open Json (member?)

variable {α : Type} {read : Json → Decoding α} {written : α → Json}

/-! ## Values -/

/-- A value is read only from the document that writes it. -/
def Inverts (read : Json → Decoding α) (written : α → Json) : Prop :=
  ∀ ⦃j x⦄, read j = .ok x → j = written x

theorem bool_inverts : Inverts bool .bool := by
  intro j x h
  cases j <;> cases h
  rfl

theorem string_inverts : Inverts string .string := by
  intro j x h
  cases j <;> cases h
  rfl

/-- A number as documents write it. -/
def whole (n : Nat) : Json := .number (.integer n)

theorem natural_inverts (type : String) (bits : Nat) :
    Inverts (natural type (.unsigned bits)) whole := by
  intro j x h
  unfold natural at h
  split at h
  · split_ifs at h with hrange
    cases h
    rw [whole, Int.toNat_of_nonneg (Number.IntRange.contains_iff.1 hrange).1]
  · cases h

/-- A table of values as documents write it. -/
def table (written : α → Json) (entries : List (String × α)) : Json :=
  .object (entries.map fun (name, x) => (name, written x))

theorem entries_inverted (hread : Inverts read written) {members : List (String × Json)}
    {entries : List (String × α)}
    (h : (members.mapM fun (name, j) => do return (name, ← read j)) = .ok entries) :
    members = entries.map fun (name, x) => (name, written x) := by
  induction members generalizing entries with
  | nil =>
    rw [List.mapM_nil, pure_eq_ok] at h
    exact h ▸ rfl
  | cons m members ih =>
    obtain ⟨name, j⟩ := m
    simp only [List.mapM_cons, bind_eq_ok, pure_eq_ok] at h
    obtain ⟨_, ⟨x, hx, rfl⟩, rest, hrest, rfl⟩ := h
    rw [List.map_cons, ← ih hrest, hread hx]

theorem map_inverts (hread : Inverts read written) : Inverts (map read) (table written) := by
  intro j entries h
  cases j with
  | object members => exact congrArg Json.object (entries_inverted hread h)
  | _ => cases h

theorem map_ok_inverts : Inverts (map .ok) .object := by
  intro j entries h
  have hparts : Inverts (.ok : Json → Decoding Json) id := fun j x hx => Except.ok.inj hx
  exact (map_inverts hparts h).trans (by simp [table])

/-! ## Fields -/

theorem field_eq_ok {ms : List (String × Json)} {name : String} {value : α} :
    field ms name read = .ok value ↔ ∃ j, member? name ms = some j ∧ read j = .ok value := by
  unfold field
  cases member? name ms <;> simp

theorem members_eq_ok {type : String} {fields : Fields} {j : Json} {ms : List (String × Json)}
    (h : members type fields j = .ok ms) :
    j = .object ms ∨ ∃ items, j = .array items ∧ ms = (fields.map (·.1)).zip items := by
  unfold members at h
  split at h
  · simp only [bind_eq_ok] at h
    obtain ⟨-, -, h⟩ := h
    split at h
    · cases h
    · exact .inl (congrArg Json.object (pure_eq_ok.1 h))
  · rename_i items
    simp only [bind_eq_ok] at h
    obtain ⟨-, -, h⟩ := h
    -- A list of another length is refused.
    split at h
    · cases h
    split at h
    · cases h
    exact .inr ⟨items, rfl, (pure_eq_ok.1 h).symm⟩
  · cases h

theorem member?_zip {names : List String} (hnames : names.Nodup) {place : Nat} {name : String}
    (h : names[place]? = some name) (items : List Json) :
    member? name (names.zip items) = items[place]? := by
  induction names generalizing place items with
  | nil => cases h
  | cons n names ih =>
    obtain ⟨hn, hnames⟩ := List.nodup_cons.1 hnames
    cases items with
    | nil => rfl
    | cons item items =>
      rw [List.zip_cons_cons, member?]
      cases place with
      | zero =>
        cases h
        rw [if_pos rfl]
        rfl
      | succ place =>
        have hmem : name ∈ names := List.mem_of_getElem? h
        rw [if_neg fun heq : n = name => hn (heq ▸ hmem)]
        exact ih hnames h items

/-- A field of a table has the value that is read from its part. -/
def Reads (j : Json) (place : Nat) (name : String) (read : Json → Decoding α) (value : α) : Prop :=
  ∃ part, j.field? place name = some part ∧ read part = .ok value

theorem reads_of_members {type : String} {fields : Fields} {j : Json} {ms : List (String × Json)}
    {place : Nat} {name : String} {value : α} (h : members type fields j = .ok ms)
    (hnames : (fields.map (·.1)).Nodup) (hplace : (fields.map (·.1))[place]? = some name)
    (hvalue : field ms name read = .ok value) : Reads j place name read value := by
  obtain ⟨part, hpart, hread⟩ := field_eq_ok.1 hvalue
  refine ⟨part, ?_, hread⟩
  obtain rfl | ⟨items, rfl, rfl⟩ := members_eq_ok h
  · exact hpart
  · rwa [member?_zip hnames hplace] at hpart

theorem database_reads {j : Json} {d : DatabaseSettings} (h : database j = .ok d) :
    Reads j 0 "driver" string d.driver ∧ Reads j 1 "name" string d.name ∧
      Reads j 2 "user" string d.user ∧ Reads j 3 "password" string d.password ∧
      Reads j 4 "host" string d.host ∧ Reads j 5 "port" port d.port ∧
      Reads j 6 "max_connections" count d.maxConnections ∧
      Reads j 7 "options" (map string) d.options := by
  simp only [database, bind_eq_ok, pure_eq_ok] at h
  obtain ⟨ms, hms, _, hdriver, _, hname, _, huser, _, hpassword, _, hhost, _, hport, _, hcount, _,
    hoptions, rfl⟩ := h
  have hnames : (databaseFields.map (·.1)).Nodup := by decide
  exact ⟨reads_of_members hms hnames rfl hdriver, reads_of_members hms hnames rfl hname,
    reads_of_members hms hnames rfl huser, reads_of_members hms hnames rfl hpassword,
    reads_of_members hms hnames rfl hhost, reads_of_members hms hnames rfl hport,
    reads_of_members hms hnames rfl hcount, reads_of_members hms hnames rfl hoptions⟩

theorem settings_reads {j : Json} {s : Settings} (h : settings j = .ok s) :
    Reads j 0 "debug" bool s.debug ∧ Reads j 1 "log_level" string s.logLevel ∧
      Reads j 2 "log_sql" bool s.logSql ∧ Reads j 3 "database" database s.database ∧
      Reads j 4 "extra" (map .ok) s.extra := by
  simp only [settings, bind_eq_ok, pure_eq_ok] at h
  obtain ⟨ms, hms, _, hdebug, _, hlevel, _, hsql, _, hdatabase, _, hextra, rfl⟩ := h
  have hnames : (settingsFields.map (·.1)).Nodup := by decide
  exact ⟨reads_of_members hms hnames rfl hdebug, reads_of_members hms hnames rfl hlevel,
    reads_of_members hms hnames rfl hsql, reads_of_members hms hnames rfl hdatabase,
    reads_of_members hms hnames rfl hextra⟩

end Decoding

end Orm
