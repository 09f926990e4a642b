import Orm.Expression.Columns

/-
Writing resolved expressions as SQL; the values of a text are bound in the order of their
placeholders.
-/

namespace Orm

/-- A piece of a template. -/
inductive TemplateToken where
  | column
  | param
  | literal (c : Char)
  deriving DecidableEq, Repr

namespace TemplateToken

/-- `%s` is a column, `?` a parameter and `%%` a per cent sign; all else stands for itself. -/
def ofText : List Char → List TemplateToken
  | [] => []
  | '%' :: 's' :: rest => .column :: ofText rest
  | '%' :: '%' :: rest => .literal '%' :: ofText rest
  | '?' :: rest => .param :: ofText rest
  | c :: rest => .literal c :: ofText rest

end TemplateToken

namespace Template

def fault (t : Template) (what : String) : Error :=
  .unsupportedLookup ("template '" ++ t.text ++ "' " ++ what)

/-- The slots filled from left to right; all columns and parameters have to be used. -/
def fill (t : Template) : List TemplateToken → List Column → List Value → Binding Sql
  | [], [], [] => return []
  | [], _, _ => throw (t.fault "leaves fields or params unused")
  | .column :: _, [], _ => throw (t.fault "has more %s slots than fields")
  | .column :: rest, c :: cs, ps => return .ident c :: (← t.fill rest cs ps)
  | .param :: _, _, [] => throw (t.fault "has more ? slots than params")
  | .param :: rest, cs, p :: ps => do
    let placeholder ← bindValue p
    return placeholder :: (← t.fill rest cs ps)
  | .literal c :: rest, cs, ps => return .text (String.singleton c) :: (← t.fill rest cs ps)

def unresolved : Error := .nilPointer "expression rendered before it was resolved"

def write (t : Template) : Binding Sql :=
  match t.columns with
  | none => throw unresolved
  | some columns => t.fill (TemplateToken.ofText t.text.toList) columns t.params

end Template

def Connector.sql : Connector → String
  | .all => " AND "
  | .any => " OR "

/-- What an empty group says. -/
def Connector.empty : Connector → String
  | .all => "1=1"
  | .any => "1=0"

namespace Expression

variable {ι : Type}

/-- A nested query selects the primary key unless it says what. -/
def projected (schema : Schema ι) (plan : Plan ι) : Result (Plan ι) := do
  if plan.select.isEmpty then
    return { plan with select := [(← (schema plan.model).pk).name] }
  else return plan

def useSql (use : SubqueryUse) (column : Option Column) (inner : Sql) : Result Sql :=
  match use with
  | .inList =>
    match column with
    | none => .error (.nilPointer "IN subquery without a left-hand column")
    | some c => .ok ([.ident c, .text " IN ("] ++ inner ++ [.text ")"])
  | .exists => .ok ([.text "EXISTS ("] ++ inner ++ [.text ")"])
  | .count => .ok ([.text "(SELECT COUNT(*) FROM ("] ++ inner ++
      [.text ") AS ", .ident ["djorm_count"], .text ")"])
  | .scalar => .ok ([.text "("] ++ inner ++ [.text ")"])

def enclose (negated : Bool) (inner : Sql) : Sql :=
  .text (if negated then "NOT (" else "(") :: inner ++ [.text ")"]

mutual
/-- The SQL of a resolved expression, given how nested queries are written. -/
def write (schema : Schema ι) (nested : Plan ι → Binding Sql) : Expression ι → Binding Sql
  | .leaf l =>
    match l.column with
    | none => throw Template.unresolved
    | some c => l.lookup.write [.ident c] l.values
  | .raw t | .func t => t.write
  | .group connector negated [] => return enclose negated (.ofText connector.empty)
  | .group connector negated (e :: rest) => do
    let first ← write schema nested e
    let parts ← writeAll schema nested rest
    return enclose negated (Sql.join connector.sql (first :: parts))
  | .subquery use _ column plan => do
    let plan ← ExceptT.mk (pure (projected schema plan))
    let inner ← nested plan
    ExceptT.mk (pure (useSql use column inner))

def writeAll (schema : Schema ι) (nested : Plan ι → Binding Sql) :
    List (Expression ι) → Binding (List Sql)
  | [] => return []
  | e :: rest => do
    let first ← write schema nested e
    return first :: (← writeAll schema nested rest)
end

end Expression

end Orm
