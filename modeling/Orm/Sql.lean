import Orm.Dialect
import Orm.Error
import Orm.Value.Basic

/-
SQL text before it is written for a dialect.

A statement is a list of pieces. Only the pieces that dialects spell differently are kept apart from
plain text, so a statement is put together once and `Sql.print` writes it for any dialect. Values are
never part of it: a parameter is a number, and `Binding` collects the values in the order of their
numbers.
-/

namespace Orm

inductive Piece where
  | text (s : String)
  /-- A quoted name of one part or several. -/
  | ident (parts : List String)
  /-- The placeholder of a parameter, counted from one. -/
  | param (n : Nat)
  /-- An offset without a limit. -/
  | offset (n : Nat)
  /-- The tail of an INSERT that names no columns. -/
  | emptyInsert
  /-- The columns that an INSERT returns, where the dialect can say so. -/
  | returning (columns : List String)
  deriving DecidableEq, Repr

abbrev Sql := List Piece

def Piece.print (d : Dialect) : Piece → String
  | .text s => s
  | .ident parts => d.quotePath parts
  | .param n => d.placeholderText n
  | .offset n =>
    match d.unboundedLimit with
    | some all => " LIMIT " ++ all ++ " OFFSET " ++ toString n
    | none => " OFFSET " ++ toString n
  | .emptyInsert => d.emptyInsert
  | .returning columns =>
    if d.returning = .columns then
      " RETURNING " ++ Text.join ", " (columns.map d.quoteIdent)
    else ""

namespace Sql

def print (d : Dialect) (sql : Sql) : String :=
  String.join (sql.map (Piece.print d))

def ofText (s : String) : Sql := [.text s]

def name (ident : String) : Sql := [.ident [ident]]

/-- The pieces of the parts, with `separator` between neighbours. -/
def join (separator : String) : List Sql → Sql
  | [] => []
  | [p] => p
  | p :: rest => p ++ ofText separator ++ join separator rest

end Sql

/-- A column by the parts of its name: the alias of a table and the column. -/
abbrev Column := List String

/-- Text in which values are bound; values bound before a failure stay bound. -/
abbrev Binding (α : Type) := ExceptT Error (StateM (List Value)) α

/-- Binds a value and gives its placeholder. -/
def bindValue (v : Value) : Binding Piece := do
  modify (· ++ [v])
  return .param (← get).length

/-- A statement and the values of its parameters. -/
structure Statement where
  sql : Sql
  args : List Value
  deriving Repr

end Orm
