import Orm.Bytes
import Orm.Error
import Orm.Log
import Orm.Value.Text

/-
The SQLite engine: how values are bound as cells and what a cell of a row is read as.

A cell has one of the engine's five kinds. Times, identifiers and documents are kept as text, so that
the order of their texts is the order of the engine; durations are whole microseconds.
-/

namespace Orm.Sqlite

open Number (Binary64 IntRange)

inductive Cell where
  | null
  | integer (n : Int64)
  | real (x : Binary64)
  /-- Text is kept as its bytes, which need not be valid. -/
  | text (bytes : List UInt8)
  | blob (bytes : List UInt8)
  deriving DecidableEq, Repr

namespace Cell

def ofText (s : String) : Cell :=
  .text (Text.utf8 s)

/-- The microseconds of a duration; one that is too long for 64 bits counts as the greatest number. -/
def ofDuration (d : Calendar.Duration) : Cell :=
  .integer (if (IntRange.signed 64).contains d.micros then Int64.ofInt d.micros
    else Int64.ofInt (IntRange.signed 64).hi)

/-- A list is bound as a document that holds the texts of its items. -/
def ofList (items : List Value) : Cell :=
  ofText (Json.array (items.map fun v => .string v.text)).text

/-- The cell that a value is bound as. -/
def ofValue : Value → Cell
  | .null => .null
  | .bool b => .integer (if b then 1 else 0)
  | .int n => .integer n
  | .float x => .real x
  | .string s => ofText s
  | .bytes b => .blob b
  | .date d => ofText d.text
  | .dateTime t => ofText (t.text " ")
  | .instant t => ofText (t.text "T" ++ "+00:00")
  | .time t => ofText t.text
  | .duration d => ofDuration d
  | .uuid u => ofText u.text
  | .json j => ofText j.text
  | .list items => ofList items

/-- What the engine keeps of a cell: a float that is no number is NULL to it. -/
def kept : Cell → Cell
  | .real x => if x.isNan then .null else .real x
  | c => c

/-- The value that a cell is read as; text that is not valid comes back as its bytes. -/
def value : Cell → Value
  | .null => .null
  | .integer n => .int n
  | .real x => .float x
  | .text b =>
    match Text.ofUtf8? b with
    | some s => .string s
    | none => .bytes b
  | .blob b => .bytes b

end Cell

/-! ## Rows -/

/-- A row whose columns are the bound values themselves. -/
def echo (values : List Value) : List Value :=
  values.map fun v => (Cell.ofValue v).kept.value

/-- A table of one column, its rows numbered by the engine. -/
structure Table where
  rows : List (Nat × Cell) := []
  deriving DecidableEq, Repr

namespace Table

/-- A new row gets the number after the greatest. -/
def insert (t : Table) (v : Value) : Table × Nat :=
  let id := t.rows.foldl (fun n r => max n r.1) 0 + 1
  (⟨t.rows ++ [(id, (Cell.ofValue v).kept)]⟩, id)

/-- Every value in a row of its own, with the numbers that the rows got. -/
def insertAll (t : Table) : List Value → Table × List Nat
  | [] => (t, [])
  | v :: rest =>
    let (t, id) := t.insert v
    let (t, ids) := t.insertAll rest
    (t, id :: ids)

/-- The value in every row up to a number, with the count of rows that it went to. -/
def update (t : Table) (last : Int) (v : Value) : Table × Nat :=
  let hit (r : Nat × Cell) : Bool := r.1 ≤ last
  (⟨t.rows.map fun r => if hit r then (r.1, (Cell.ofValue v).kept) else r⟩,
    (t.rows.filter hit).length)

def updateAll (t : Table) : List (Int × Value) → Table × List Nat
  | [] => (t, [])
  | (last, v) :: rest =>
    let (t, n) := t.update last v
    let (t, counts) := t.updateAll rest
    (t, n :: counts)

def values (t : Table) : List (Nat × Value) :=
  t.rows.map fun r => (r.1, r.2.value)

end Table

/-! ## Opening -/

/-- Opens the database of a path, given what the file system says to that. -/
def openPath (path : String) (outcome : Except String Unit) : Result Unit × Log :=
  match outcome with
  | .error what => (.error (.driver what), [])
  | .ok _ =>
    (.ok (),
      [{ level := .debug
         target := "djorm_db_backends::sqlite"
         message := "sqlite database opened"
         fields := [("path", .text path)] }])

/-- A connection as a message shows it. -/
def shown (path : String) : String :=
  "SqliteBackend \x7b path: " ++ Text.quoted path ++ " \x7d"

end Orm.Sqlite
