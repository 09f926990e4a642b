import Orm.Json.Basic

/-
Tables of a TOML document.

A document is a sequence of statements: headers that name a table, and keys with values that belong to
the table named last. A table is defined once: by its header, by dotted keys, or as a value. Tables
that a header only passes through may still get a header of their own.
-/

namespace Orm.Toml

inductive Node where
  | value (j : Json)
  /-- A table that came up on the way to another is implicit; `dotted` if a dotted key made it. -/
  | table (implicit dotted : Bool) (entries : List (String × Node))
  /-- The tables of one array, in order. -/
  | tables (tables : List (List (String × Node)))

abbrev Entries := List (String × Node)

inductive Statement where
  | header (path : List String) (key : String)
  | arrayHeader (path : List String) (key : String)
  /-- A key after the tables that it names with dots. -/
  | entry (path : List String) (key : String) (value : Json)

def setEntry (key : String) (n : Node) : Entries → Entries
  | [] => [(key, n)]
  | (k, m) :: rest => if k = key then (key, n) :: rest else (k, m) :: setEntry key n rest

/-- The table at the end of a header's path, changed; the tables on the way are made as needed. -/
def descend (change : Entries → Option Entries) : List String → Entries → Option Entries
  | [], t => change t
  | key :: path, t =>
    match t.lookup key with
    | none => do return setEntry key (.table true false (← descend change path [])) t
    | some (.value _) => none
    | some (.table implicit dotted sub) => do
      return setEntry key (.table implicit dotted (← descend change path sub)) t
    | some (.tables ts) => do
      let last ← ts.getLast?
      return setEntry key (.tables (ts.dropLast ++ [← descend change path last])) t

/-- A table gets its header. -/
def openTable (key : String) (t : Entries) : Option Entries :=
  match t.lookup key with
  | none => some (setEntry key (.table false false []) t)
  | some (.table true false sub) => some (setEntry key (.table false false sub) t)
  | _ => none

/-- An array of tables gets one more. -/
def openElement (key : String) (t : Entries) : Option Entries :=
  match t.lookup key with
  | none => some (setEntry key (.tables [[]]) t)
  | some (.tables ts) => some (setEntry key (.tables (ts ++ [[]])) t)
  | _ => none

/--
A key set in the table at the end of a dotted path. `mayHold` says whether keys may be added to the
table at hand: to one with a header only without dots, to one made by dots only through them.
-/
def putKey (key : String) (value : Json) : Bool → List String → Entries → Option Entries
  | mayHold, [], t =>
    if mayHold && (t.lookup key).isNone then some (setEntry key (.value value) t) else none
  | _, k :: path, t =>
    match t.lookup k with
    | none => do return setEntry k (.table true true (← putKey key value true path [])) t
    | some (.value _) => none
    | some (.table implicit dotted sub) =>
      if implicit then do
        return setEntry k (.table implicit dotted (← putKey key value dotted path sub)) t
      else none
    | some (.tables ts) => do
      let last ← ts.getLast?
      return setEntry k (.tables (ts.dropLast ++ [← putKey key value false path last])) t

/-- The tables of a document while its statements are read, and the path of the table named last. -/
structure Document where
  root : Entries := []
  current : List String := []

def Document.take (d : Document) : Statement → Option Document
  | .header path key => do
    return { root := ← descend (openTable key) path d.root, current := path ++ [key] }
  | .arrayHeader path key => do
    return { root := ← descend (openElement key) path d.root, current := path ++ [key] }
  | .entry path key value => do
    return { d with root := ← descend (putKey key value true path) d.current d.root }

mutual
def Node.json : Node → Json
  | .value j => j
  | .table _ _ entries => .object (membersOf entries [])
  | .tables ts => .array (elementsOf ts)

/-- The members of a table, in the order of their names. -/
def membersOf : List (String × Node) → List (String × Json) → List (String × Json)
  | [], acc => acc
  | (key, n) :: rest, acc => membersOf rest (Json.insertMember key n.json acc)

def elementsOf : List (List (String × Node)) → List Json
  | [] => []
  | t :: rest => .object (membersOf t []) :: elementsOf rest
end

/-- What the statements of a document say, if no two contradict each other. -/
def assemble? (statements : List Statement) : Option Json := do
  let d ← statements.foldlM Document.take {}
  return .object (membersOf d.root [])

/-- The table of keys and values in braces. -/
def inline? (entries : List (List String × String × Json)) : Option Json := do
  let t ← entries.foldlM (fun t (path, key, value) => putKey key value true path t) []
  return .object (membersOf t [])

end Orm.Toml
