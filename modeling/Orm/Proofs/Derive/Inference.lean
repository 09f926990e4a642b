import Mathlib.Algebra.Group.Nat.Defs
import Mathlib.Data.List.Find
import Orm.Proofs.Derive.Dispatch
import Orm.Proofs.Derive.Wrapper
import Orm.Proofs.Presence.Row

/-
The field type that is inferred for a column, and the values of the column's own type.

A declaration writes a type by its name, behind the places where the name is found and within `Option`
if a value may be missing (`Written`). The field type goes by the text: by the whole of it for a type
that needs no place, by a part of a name for any other (`Written.scalar?_plainType`). A field type
takes a value as it is if the value is of the one form that the field type gives
(`ScalarType.readOptional_self_iff`). So a column takes the values of its own type as they are, unless
the database numbers it and they are no whole numbers (`Declaration.expand_accepts`).
-/

namespace Orm

/-! ## Values and types -/

namespace ScalarType

open Number (IntRange)

/-- Whether a value is one of the type. -/
def Holds : ScalarType → Value → Prop
  | .int64, .int _ | .float64, .float _ | .bool, .bool _ | .string, .string _ | .bytes, .bytes _
  | .uuid, .uuid _ | .dateTime, .dateTime _ | .instant, .instant _ | .date, .date _ | .time, .time _
  | .duration, .duration _ | .json, .json _ => True
  | .int32, .int n => (IntRange.signed 32).contains n.toInt = true
  | .int16, .int n => (IntRange.signed 16).contains n.toInt = true
  | .nat32, .int n => (IntRange.unsigned 32).contains n.toInt = true
  | .float32, .float x => ∃ bits < 2 ^ 32, x = .ofSingleBits bits
  | _, _ => False

/-- The type with the same form of values and the widest range. -/
def widest : ScalarType → ScalarType
  | .int64 | .int32 | .int16 | .nat32 => .int64
  | .float64 | .float32 => .float64
  | s => s

/-- The type whose values have the form of this one. -/
def ofForm? : Value → Option ScalarType
  | .int _ => some .int64
  | .float _ => some .float64
  | .bool _ => some .bool
  | .string _ => some .string
  | .bytes _ => some .bytes
  | .uuid _ => some .uuid
  | .dateTime _ => some .dateTime
  | .instant _ => some .instant
  | .date _ => some .date
  | .time _ => some .time
  | .duration _ => some .duration
  | .json _ => some .json
  | .null | .list _ => none

theorem ofForm?_of_holds {s : ScalarType} {v : Value} (h : s.Holds v) : ofForm? v = some s.widest := by
  cases s <;> cases v <;> first | rfl | exact h.elim

theorem ofForm?_of_read {s : ScalarType} {v w : Value} (h : s.read v = .ok w) :
    ofForm? w = some s.widest := by
  cases s <;>
    · obtain ⟨a, -, rfl⟩ := map_eq_ok.1 h
      rfl

theorem read_of_ofForm? {s : ScalarType} {v : Value} (h : ofForm? v = some s) : s.read v = .ok v := by
  cases v <;> cases h <;> rfl

/-- A value is taken as it is by the one of the widest types that has its form. -/
theorem readOptional_self_iff {r s : ScalarType} {v : Value} (h : s.Holds v) (hr : r.widest = r) :
    r.readOptional v = .ok v ↔ r = s.widest := by
  have form := ofForm?_of_holds h
  have present : v.isNull = false := by
    cases v with
    | null => cases form
    | _ => rfl
  rw [readOptional, present, if_neg Bool.false_ne_true]
  constructor
  · intro hread
    rw [ofForm?_of_read hread, hr] at form
    exact Option.some.inj form
  · rintro rfl
    exact read_of_ofForm? form

end ScalarType

namespace Derive

open Tokens

/-! ## Types in declarations -/

/-- The name of a type, with the places where the zone of an instant is found. -/
def name (zone : List Tokens) : ScalarType → Tokens
  | .int64 => ["i64"]
  | .int32 => ["i32"]
  | .int16 => ["i16"]
  | .nat32 => ["u32"]
  | .float64 => ["f64"]
  | .float32 => ["f32"]
  | .bool => ["bool"]
  | .string => ["String"]
  | .bytes => ["Vec", "<", "u8", ">"]
  | .uuid => ["Uuid"]
  | .dateTime => ["NaiveDateTime"]
  | .instant => "DateTime" :: "<" :: path zone ["Utc"] ++ [">"]
  | .date => ["NaiveDate"]
  | .time => ["NaiveTime"]
  | .duration => ["Duration"]
  | .json => ["serde_json", "::", "Value"]

/-- The types that are known by the whole of their names. -/
def primitive : ScalarType → Bool
  | .int64 | .int32 | .int16 | .nat32 | .float64 | .float32 | .bool => true
  | _ => false

/-- How a declaration writes the type of a column. -/
structure Written where
  type : ScalarType
  /-- The places where the type is found. -/
  places : List Tokens := []
  zone : List Tokens := []
  /-- The places where `Option` is found, for a type whose value may be missing. -/
  option : Option (List Tokens) := none

namespace Written

/-- The type of the values that are not missing. -/
def inner (w : Written) : Tokens := path w.places (name w.zone w.type)

def tokens (w : Written) : Tokens :=
  match w.option with
  | none => w.inner
  | some places => path places ("Option" :: "<" :: w.inner ++ [">"])

/-- The parts of names by which types are told apart. -/
def parts : List String := "Vec" :: "u8" :: byMention.map (·.1)

/-- Places are given by names, and those in front of the type and its zone mention no other type. -/
structure Proper (w : Written) : Prop where
  places : Named w.places
  zone : Named w.zone
  option : ∀ places, w.option = some places → Named places
  silent : ∀ part ∈ parts, ∀ p ∈ w.places ++ w.zone, mentions part p = false

/-- Whether a value is one of the type that is written. -/
def Holds (w : Written) (v : Value) : Prop :=
  w.type.Holds v ∨ w.option.isSome = true ∧ v = .null

end Written

/-! ### What is wrapped -/

theorem name_isArgument {zone : List Tokens} (hz : Named zone) (s : ScalarType) :
    IsArgument (name zone s) := by
  cases s with
  | bytes => exact .wrapped (by decide +kernel) (.single (by decide +kernel))
  | instant => exact .wrapped (by decide +kernel) (.path (.single (by decide +kernel)) hz)
  | json =>
    have named : Named [["serde_json"]] := by decide +kernel
    exact IsArgument.path (.single (by decide +kernel)) named
  | _ => exact .single (by decide +kernel)

/-- The last name of a type, with what stands in brackets behind it. -/
theorem pieces_name {zone : List Tokens} (hz : Named zone) (s : ScalarType) :
    ∃ before last rest, pieces "::" (name zone s) = before ++ [last :: rest] ∧ last ≠ "Option" ∧
      last ≠ "<" := by
  cases s with
  | instant =>
    have whole : Passes "::" 0 (name zone .instant) :=
      .wrapped (by decide +kernel) (.path (.single (by decide +kernel)) hz) (by decide)
    exact ⟨[], _, _, pieces_of_passes whole, by decide, by decide⟩
  | json => exact ⟨[["serde_json"]], "Value", [], rfl, by decide, by decide⟩
  | _ => exact ⟨[], _, _, rfl, by decide, by decide⟩

theorem argument?_inner {w : Written} (hw : w.Proper) : argument? "Option" w.inner = none := by
  obtain ⟨before, last, rest, hpieces, hoption, hl⟩ := pieces_name hw.zone w.type
  have inner : pieces "::" w.inner = (w.places ++ before) ++ [last :: rest] := by
    rw [Written.inner, pieces_path hw.places, hpieces, List.append_assoc]
  exact argument?_of_ne inner hoption hl

theorem inner_isArgument {w : Written} (hw : w.Proper) : IsArgument w.inner :=
  (name_isArgument hw.zone w.type).path hw.places

/-- Only the type of the values that are not missing matters. -/
theorem inner_of_tokens {w : Written} (hw : w.Proper) :
    (argument? "Option" w.tokens).getD w.tokens = w.inner := by
  rw [Written.tokens]
  split
  · rw [argument?_inner hw, Option.getD_none]
  · next places ho =>
    rw [argument?_wrapped (hw.option places ho) (by decide +kernel) (inner_isArgument hw),
      Option.getD_some]

/-! ### What is mentioned -/

theorem mentions_append (part : String) (ts us : Tokens) :
    mentions part (ts ++ us) = (mentions part ts || mentions part us) := List.any_append

/-- Places that mention nothing leave it to what they lead to. -/
theorem mentions_path {part : String} {places : List Tokens} (hpart : mentions part ["::"] = false)
    (h : ∀ p ∈ places, mentions part p = false) (ts : Tokens) :
    mentions part (path places ts) = mentions part ts := by
  induction places with
  | nil => rfl
  | cons p places ih =>
    rw [path_cons, ← List.singleton_append, mentions_append, mentions_append,
      h p List.mem_cons_self, hpart, ih fun q hq => h q (List.mem_cons_of_mem p hq),
      Bool.false_or, Bool.false_or]

/-- A type mentions what its name mentions, wherever it is found. -/
theorem mentions_inner {w : Written} (hw : w.Proper) {part : String} (hpart : part ∈ Written.parts) :
    mentions part w.inner = mentions part (name [] w.type) := by
  have sign : ∀ part ∈ Written.parts, mentions part ["::"] = false := by decide +kernel
  have silent : ∀ p ∈ w.places ++ w.zone, mentions part p = false := hw.silent part hpart
  rw [Written.inner, mentions_path (sign part hpart) fun p hp => silent p (List.mem_append_left _ hp)]
  cases htype : w.type with
  | instant =>
    change mentions part (["DateTime", "<"] ++ (path w.zone ["Utc"] ++ [">"])) =
      mentions part (["DateTime", "<"] ++ (["Utc"] ++ [">"]))
    rw [mentions_append, mentions_append, mentions_append, mentions_append,
      mentions_path (sign part hpart) fun p hp => silent p (List.mem_append_right _ hp)]
  | _ => rfl

/-- The field type of a type that is not known by the whole of its name. -/
def mentioned (type : Tokens) : FieldType :=
  match byMention.find? fun (part, _) => mentions part type with
  | some (_, t) => t
  | none => if mentions "Vec" type && mentions "u8" type then .binary else .text

theorem plainType_of_ne {type : Tokens} (h : ∀ t, type ≠ [t]) (maxLength : Option Nat) :
    plainType type maxLength = mentioned type := by
  rw [plainType]
  · rfl
  all_goals exact h _

theorem mentioned_inner {w : Written} (hw : w.Proper) :
    mentioned w.inner = mentioned (name [] w.type) := by
  have decided : ∀ entry ∈ byMention, entry.1 ∈ Written.parts := by decide
  have vec : "Vec" ∈ Written.parts := by decide
  have byte : "u8" ∈ Written.parts := by decide
  rw [mentioned, mentioned, List.find?_congr fun entry he => mentions_inner hw (decided entry he),
    mentions_inner hw vec, mentions_inner hw byte]

/-! ### The field type -/

theorem Written.inner_ne_single {w : Written} (h : w.places ≠ []) (t : Token) : w.inner ≠ [t] := by
  obtain ⟨p, rest, hp⟩ := List.exists_cons_of_ne_nil h
  intro ht
  have length := congrArg List.length ht
  have nonempty : 0 < (name w.zone w.type).length := by
    cases w.type <;> exact Nat.succ_pos _
  rw [inner, hp, path_cons, path, List.length_append, List.length_cons, List.length_append,
    List.length_singleton] at length
  omega

theorem scalar?_mentioned (s : ScalarType) :
    (mentioned (name [] s)).scalar? = some (if primitive s then .string else s.widest) := by
  cases s <;> decide +kernel

/-- The values of a field type that is inferred from a type: those of the widest type of its form, but
texts if the type is known by the whole of its name and has more than that. -/
theorem scalar?_plainType {w : Written} (hw : w.Proper) (maxLength : Option Nat) :
    (plainType w.inner maxLength).scalar? =
      some (if w.places ≠ [] ∧ primitive w.type then .string else w.type.widest) := by
  by_cases hplaces : w.places = []
  · rw [if_neg fun h => h.1 hplaces, Written.inner, hplaces]
    cases htype : w.type with
    | string => cases maxLength <;> rfl
    | instant =>
      have hinner : w.inner = name w.zone .instant := by
        rw [Written.inner, hplaces, htype]
        rfl
      have hne : ∀ t, name w.zone .instant ≠ [t] := by
        rintro t ⟨⟩
      change (plainType (name w.zone .instant) maxLength).scalar? = _
      rw [plainType_of_ne hne, ← hinner, mentioned_inner hw, htype]
      exact scalar?_mentioned .instant
    | _ => rfl
  · rw [plainType_of_ne (Written.inner_ne_single hplaces), mentioned_inner hw, scalar?_mentioned]
    simp only [ne_eq, hplaces, not_false_eq_true, true_and]

/-! ## Columns -/

/-- Whether the field type of a column has the form of the column's own type: if the database is to
number it, the type has to be one of whole numbers; if not, one that goes by its bare name has to be
written so. -/
def Written.Kept (w : Written) (o : FieldOptions) : Prop :=
  if o.auto then w.type.widest = .int64 else primitive w.type = true → w.places = []

theorem widest_of_primitive (s : ScalarType) : primitive s = true → s.widest ≠ .string := by
  cases s <;> decide

theorem scalar?_columnType {w : Written} (hw : w.Proper) (o : FieldOptions) :
    ∃ r, (columnType w.tokens o).scalar? = some r ∧ r.widest = r ∧ (r = w.type.widest ↔ w.Kept o) := by
  rw [columnType, inner_of_tokens hw, Written.Kept]
  by_cases hauto : o.auto = true
  · rw [if_pos hauto, if_pos hauto]
    refine ⟨.int64, ?_, rfl, eq_comm⟩
    split <;> rfl
  · rw [if_neg hauto, if_neg hauto, scalar?_plainType hw]
    refine ⟨_, rfl, ?_, ?_⟩
    · split
      · rfl
      · cases w.type <;> rfl
    · split
      · next h =>
        refine iff_of_false ?_ fun hk => h.1 (hk h.2)
        exact (widest_of_primitive w.type h.2).symm
      · next h => exact iff_of_true rfl fun hp => Classical.not_not.1 fun hn => h ⟨hn, hp⟩

theorem columnType_accepts_iff {w : Written} (hw : w.Proper) (o : FieldOptions) {v : Value}
    (hv : w.Holds v) : (columnType w.tokens o).normalize v = .ok v ↔ v = .null ∨ w.Kept o := by
  obtain ⟨r, hr, hwidest, hkept⟩ := scalar?_columnType hw o
  rcases hv with hv | ⟨-, rfl⟩
  · rw [FieldType.normalize, hr]
    have hnull : v ≠ .null := by
      rintro rfl
      cases ScalarType.ofForm?_of_holds hv
    exact (ScalarType.readOptional_self_iff hv hwidest).trans
      (hkept.trans (or_iff_right hnull).symm)
  · exact iff_of_true (FieldType.normalize_null _) (.inl rfl)

/-! ## Declarations -/

theorem Step.foldl_type (steps : List Step) (f : FieldDef Tokens) :
    (steps.foldl Step.apply f).type = f.type := by
  induction steps generalizing f with
  | nil => rfl
  | cons s steps ih =>
    rw [List.foldl_cons, ih]
    cases s <;> rfl

/-- The definition of a field is among those of all fields. -/
theorem definition_mem {fields : List Field} {ds : List Definition} (h : definitions fields = .ok ds)
    {f : Field} (hf : f ∈ fields) : ∃ o, f.definition? = .ok o ∧ ∀ d, o = some d → d ∈ ds := by
  induction fields generalizing ds with
  | nil => cases hf
  | cons g rest ih =>
    simp only [definitions, bind_eq_ok, pure_eq_ok] at h
    obtain ⟨o, ho, ds, hds, rfl⟩ := h
    rcases List.mem_cons.1 hf with rfl | hf
    · exact ⟨o, ho, fun d hd => List.mem_append_left _ (Option.mem_toList.2 hd)⟩
    · obtain ⟨o', ho', hmem⟩ := ih hds hf
      exact ⟨o', ho', fun d hd => List.mem_append_right _ (hmem d hd)⟩

/-- What a column has of its type: the definition that the field is given takes NULL as it is, and any
other value of the column's own type exactly if the field type is of its form. -/
theorem Declaration.expand_accepts {d : Declaration} {e : Expansion} (h : d.expand = .ok e) {f : Field}
    (hf : f ∈ e.fields) (hrole : f.role = .scalar) {w : Written} (hw : w.Proper)
    (htype : f.type = w.tokens) :
    ∃ definition ∈ e.definitions, f.definition? = .ok (some definition) ∧
      definition.field ∈ e.model.fields ∧
      ∀ v, w.Holds v → (definition.field.type.normalize v = .ok v ↔ v = .null ∨ w.Kept f.options) := by
  obtain ⟨o, ho, hmem⟩ := definition_mem (d.expand_eq_ok h).2.2 hf
  have hd := ho
  rw [Field.definition?, hrole] at hd
  obtain rfl := pure_eq_ok.1 hd
  refine ⟨_, hmem _ rfl, ho, List.mem_map_of_mem (hmem _ rfl), fun v hv => ?_⟩
  rw [Definition.field, Step.foldl_type]
  change (columnType f.type f.options).normalize v = .ok v ↔ _
  rw [htype]
  exact columnType_accepts_iff hw f.options hv

/-- A visit, numbered by the database, with the time at which it ended if it did. -/
def visitDeclaration : Declaration where
  name := "Visit"
  attributes := []
  shape := .named
    [⟨"id", ["u32"], [⟨"primary_key", .nothing⟩, ⟨"auto", .nothing⟩]⟩,
     ⟨"until", ["Option", "<", "chrono", "::", "DateTime", "<", "chrono", "::", "Utc", ">", ">"],
      [⟨"unique", .nothing⟩]⟩]

/-- The type of the time. -/
def missingInstant : Written where
  type := .instant
  places := [["chrono"]]
  zone := [["chrono"]]
  option := some []

theorem visitDeclaration_accepts : missingInstant.Proper ∧ ∃ e, visitDeclaration.expand = .ok e ∧
    ∃ f ∈ e.fields, f.name = "until" ∧ f.role = .scalar ∧ f.type = missingInstant.tokens ∧
      ∃ definition ∈ e.definitions, f.definition? = .ok (some definition) ∧
        ∀ v, missingInstant.Holds v → definition.field.type.normalize v = .ok v := by
  have proper : missingInstant.Proper :=
    ⟨by decide +kernel, by decide +kernel, by rintro _ ⟨⟩; decide +kernel, by decide +kernel⟩
  obtain ⟨e, he⟩ := exists_eq_ok (x := visitDeclaration.expand) (by decide +kernel)
  have hfields : (e.fields.map fun f => (f.name, f.role, f.type, f.options.auto)) =
      [("id", .scalar, ["u32"], true), ("until", .scalar, missingInstant.tokens, false)] := by
    have h : (visitDeclaration.expand.map fun e =>
        e.fields.map fun f => (f.name, f.role, f.type, f.options.auto)) =
          .ok [("id", .scalar, ["u32"], true), ("until", .scalar, missingInstant.tokens, false)] := by
      decide +kernel
    rw [he] at h
    exact Except.ok.inj h
  obtain ⟨f, hf, hfield⟩ := List.mem_map.1 (hfields ▸ List.mem_cons_of_mem _ List.mem_cons_self)
  obtain ⟨hname, hrole, htype, hauto⟩ : f.name = "until" ∧ f.role = .scalar ∧
      f.type = missingInstant.tokens ∧ f.options.auto = false := by
    simpa only [Prod.mk.injEq] using hfield
  have kept : missingInstant.Kept f.options := by
    rw [Written.Kept, hauto, if_neg Bool.false_ne_true]
    exact nofun
  obtain ⟨definition, hmem, hd, -, haccepts⟩ := Declaration.expand_accepts he hf hrole proper htype
  exact ⟨proper, e, he, f, hf, hname, hrole, htype, definition, hmem, hd,
    fun v hv => (haccepts v hv).2 (.inr kept)⟩

/-- A key that the database is to make, of a type that is none of whole numbers. -/
def accessKey : Declaration where
  name := "AccessKey"
  attributes := []
  shape := .named
    [⟨"id", ["uuid", "::", "Uuid"], [⟨"primary_key", .nothing⟩, ⟨"auto", .nothing⟩]⟩]

/-- The field type of the key takes none of the key's values. -/
theorem accessKey_refuses : ∃ e, accessKey.expand = .ok e ∧ ∃ g ∈ e.model.fields, g.name = "id" ∧
    ∀ u, ScalarType.uuid.Holds (.uuid u) ∧
      g.type.normalize (.uuid u) = .error (Value.mismatch "integer" (.uuid u)) := by
  obtain ⟨e, he⟩ := exists_eq_ok (x := accessKey.expand) (by decide +kernel)
  have hfields : (e.model.fields.map fun g => (g.name, g.type)) = [("id", .auto)] := by
    have h : (accessKey.expand.map fun e => e.model.fields.map fun g => (g.name, g.type)) =
        .ok [("id", .auto)] := by decide +kernel
    rw [he] at h
    exact Except.ok.inj h
  obtain ⟨g, hg, hfield⟩ := List.mem_map.1 (hfields ▸ List.mem_cons_self)
  obtain ⟨hname, htype⟩ : g.name = "id" ∧ g.type = .auto := by
    simpa only [Prod.mk.injEq] using hfield
  refine ⟨e, he, g, hg, hname, fun u => ⟨trivial, ?_⟩⟩
  rw [htype]
  rfl

end Derive

end Orm
