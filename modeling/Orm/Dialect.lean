import Orm.Log
import Orm.Text.Words

/-
How a driver spells SQL, and the registry of drivers.

The dialect of a driver decides the quote of identifiers, the form of placeholders, how an INSERT
reports generated values, and two spellings for which there is no common form.
-/

namespace Orm

/-- How bound parameters are written. -/
inductive Placeholder where
  | question
  /-- `$1`, `$2`, … counted from one. -/
  | dollar
  deriving DecidableEq, Repr

def Placeholder.name : Placeholder → String
  | .question => "question"
  | .dollar => "dollar"

def Placeholder.text : Placeholder → Nat → String
  | .question, _ => "?"
  | .dollar, n => "$" ++ toString n

/-- How an INSERT reports the values that the database generated. -/
inductive Returning where
  /-- Not at all: the row is selected again by a unique key. -/
  | nothing
  | lastInsertId
  | columns
  deriving DecidableEq, Repr

def Returning.name : Returning → String
  | .nothing => "none"
  | .lastInsertId => "last_insert_id"
  | .columns => "columns"

structure Dialect where
  driver : String
  quote : Char := '\x22'
  placeholder : Placeholder := .question
  returning : Returning := .nothing
  /-- The limit written where only an offset is wanted and the dialect has no bare offset. -/
  unboundedLimit : Option String := none
  /-- What follows the table in an INSERT without columns. -/
  emptyInsert : String := "DEFAULT VALUES"
  deriving DecidableEq, Repr

namespace Dialect

def sqlite : Dialect :=
  { driver := "sqlite", returning := .lastInsertId, unboundedLimit := some "-1" }

def postgres : Dialect :=
  { driver := "postgres", placeholder := .dollar, returning := .columns }

def mysql : Dialect :=
  { driver := "mysql"
    quote := '\x60'
    returning := .lastInsertId
    unboundedLimit := some "18446744073709551615"
    emptyInsert := "() VALUES ()" }

/-- A quote inside an identifier is written twice. -/
def escapeQuote (quote : Char) : List Char → List Char
  | [] => []
  | c :: cs => if c = quote then quote :: quote :: escapeQuote quote cs else c :: escapeQuote quote cs

def quoteIdent (d : Dialect) (ident : String) : String :=
  String.ofList (d.quote :: escapeQuote d.quote ident.toList ++ [d.quote])

/-- The parts of a name, each quoted, with points between them. -/
def quotePath (d : Dialect) (parts : List String) : String :=
  Text.join "." (parts.map d.quoteIdent)

def qualify (d : Dialect) (tableAlias column : String) : String :=
  d.quotePath [tableAlias, column]

def placeholderText (d : Dialect) (n : Nat) : String :=
  d.placeholder.text n

end Dialect

/-- The registered dialects, in the order of their drivers. -/
structure Dialects where
  entries : List Dialect
  deriving DecidableEq, Repr

namespace Dialects

def builtin : Dialects := ⟨[.mysql, .postgres, .sqlite]⟩

def insert (d : Dialect) : List Dialect → List Dialect
  | [] => [d]
  | e :: rest =>
    if d.driver = e.driver then d :: rest
    else if d.driver < e.driver then d :: e :: rest
    else e :: insert d rest

/-- A later registration of a driver replaces the earlier one. -/
def register (r : Dialects) (d : Dialect) : Dialects × Log :=
  (⟨insert d r.entries⟩,
    [{ level := .debug
       target := "djorm_db::dialect"
       message := "registering dialect"
       fields := [("driver", .text d.driver)] }])

/-- The dialect of a driver; an unknown driver gets the plainest one. -/
def find (r : Dialects) (driver : String) : Dialect :=
  (r.entries.find? (·.driver == driver)).getD { driver }

def drivers (r : Dialects) : List String :=
  r.entries.map (·.driver)

end Dialects

end Orm
