import Orm.Error
import Orm.Log
import Orm.Postgres.Format
import Orm.Value.Text

/-
Values as parameters of a statement, and the columns of a row as values.

A statement is prepared before its parameters are bound, so that each value is sent as the type that
the server expects there. A column is read by its own type; a column of a type without a kind is read
as text, or as NULL if it is none.
-/

namespace Orm.Postgres

open Number (Fixed IntRange)

/-! ## Binding -/

def doesNotFit (v : Value) (t : SqlType) : Error :=
  .typeMismatch (v.text ++ " does not fit a " ++ t.label ++ " parameter")

def whole (n : Int64) (t : SqlType) : Result Parameter :=
  match t with
  | .numeric => .ok (.decimal (.ofInt64 n))
  | .int2 =>
    if (IntRange.signed 16).contains n.toInt then .ok (.int16 n.toInt16)
    else .error (doesNotFit (.int n) t)
  | .int4 =>
    if (IntRange.signed 32).contains n.toInt then .ok (.int32 n.toInt32)
    else .error (doesNotFit (.int n) t)
  | .float8 => .ok (.double (.ofInt n.toInt))
  | .bool => .ok (.bool (n != 0))
  | .text | .varchar => .ok (.text (toString n.toInt))
  | _ => .ok (.int64 n)

def float (x : Number.Binary64) (t : SqlType) : Result Parameter :=
  match t with
  | .numeric =>
    match Fixed.ofFloat? x with
    | some d => .ok (.decimal d)
    | none => .error (doesNotFit (.float x) t)
  | .float4 => .ok (.single x)
  | _ => .ok (.double x)

def string (s : String) (t : SqlType) : Result Parameter :=
  match t with
  | .numeric =>
    match Fixed.ofText? s with
    | some d => .ok (.decimal d)
    | none => .error (.typeMismatch (Text.quoted s ++ " is not a decimal: "))
  | .uuid =>
    match Uuid.ofText? s with
    | some u => .ok (.uuid u)
    | none => .error (.typeMismatch "")
  | _ => .ok (.text s)

/-- The microseconds of a duration; one that is too long for 64 bits counts as the greatest number. -/
def duration (d : Calendar.Duration) : Parameter :=
  .int64 (Int64.ofInt (if (IntRange.signed 64).contains d.micros then d.micros
    else (IntRange.signed 64).hi))

/-- What is sent for a value where the server expects a type. -/
def bind (v : Value) (t : SqlType) : Result Parameter :=
  match v with
  | .null => .ok (.absent (t.kind?.getD .text))
  | .int n => whole n t
  | .float x => float x t
  | .string s => string s t
  | .bool b => .ok (.bool b)
  | .bytes b => .ok (.bytes b)
  | .date d => .ok (.date d)
  | .dateTime d => .ok (if t = .timestamptz then .instant d else .timestamp d)
  | .instant d => .ok (if t = .timestamp then .timestamp d else .instant d)
  | .time d => .ok (.time d)
  | .duration d => .ok (duration d)
  | .uuid u => .ok (if t = .text ∨ t = .varchar then .text u.text else .uuid u)
  | .json j => .ok (if t = .text ∨ t = .varchar then .text j.text else .json j)
  | .list items => .ok (.text (Json.array (items.map fun v => .string v.text)).text)

/-- All values of a statement, in order. -/
def bindAll : List Value → List SqlType → Result (List Parameter)
  | v :: vs, t :: ts => do
    let p ← bind v t
    return p :: (← bindAll vs ts)
  | _, _ => .ok []

/-- The bytes of bound parameters; one whose kind the type does not accept cannot be sent. -/
def encodeAll (i : Nat) : List Parameter → List SqlType → Result (List (Option (List UInt8)))
  | p :: ps, t :: ts => do
    if !p.kind.accepts t then throw (.driver ("error serializing parameter " ++ toString i))
    return p.encode t :: (← encodeAll (i + 1) ps ts)
  | _, _ => .ok []

/-! ## Columns -/

structure Column where
  name : String
  type : SqlType
  deriving DecidableEq, Repr

def unsupported (c : Column) : LogEntry :=
  { level := .warn
    target := "djorm_db_backends::postgresql"
    message := "unsupported column type, reading as NULL"
    fields := [("column", .text c.name), ("ty", .text c.type.label),
      ("error", .text "error deserializing column")] }

/-- The value of the `i`-th column in a row. -/
def columnValue (i : Nat) (c : Column) (cell : Option (List UInt8)) : Result Value × Log :=
  let read (k : Kind) : Option Value :=
    match cell with
    | none => some .null
    | some bytes => k.decode? c.type bytes
  match c.type.kind? with
  | some k =>
    match read k with
    | some v => (.ok v, [])
    | none => (.error (.driver ("error deserializing column " ++ toString i)), [])
  | none =>
    match if c.type.isText then read .text else none with
    | some v => (.ok v, [])
    | none => (.ok .null, [unsupported c])

/-- The values of a row, up to the first column that cannot be read. -/
def rowValues (i : Nat) : List Column → List (Option (List UInt8)) → Result (List Value) × Log
  | c :: cs, cell :: cells =>
    match columnValue i c cell with
    | (.error e, log) => (.error e, log)
    | (.ok v, log) =>
      let (r, more) := rowValues (i + 1) cs cells
      (r.map (v :: ·), log ++ more)
  | _, _ => (.ok [], [])

end Orm.Postgres
