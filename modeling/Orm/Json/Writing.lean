import Orm.Json.Basic
import Orm.Number.Notation
import Orm.Text.Quoted
import Orm.Text.Words

/-
The compact text of a document: no blanks, and floats always look like floats.
-/

namespace Orm

def JsonNumber.text : JsonNumber → String
  | .integer n => toString n
  | .float x => Number.Style.document.write x

namespace Json

def escapeChar (c : Char) : List Char :=
  if c = '\x22' then ['\\', '\x22']
  else if c = '\\' then ['\\', '\\']
  else if c = '\x08' then ['\\', 'b']
  else if c = '\t' then ['\\', 't']
  else if c = '\n' then ['\\', 'n']
  else if c = '\x0c' then ['\\', 'f']
  else if c = '\r' then ['\\', 'r']
  else if c.toNat < 32 then ['\\', 'u'] ++ Text.hexFixed 4 c.toNat
  else [c]

def quote (s : String) : String :=
  "\"" ++ String.ofList (s.toList.flatMap escapeChar) ++ "\""

mutual
def text : Json → String
  | .null => "null"
  | .bool b => if b then "true" else "false"
  | .number n => n.text
  | .string s => quote s
  | .array items => "[" ++ Text.join "," (itemTexts items) ++ "]"
  | .object members => "\x7b" ++ Text.join "," (memberTexts members) ++ "\x7d"

def itemTexts : List Json → List String
  | [] => []
  | j :: rest => text j :: itemTexts rest

def memberTexts : List (String × Json) → List String
  | [] => []
  | (name, value) :: rest => (quote name ++ ":" ++ text value) :: memberTexts rest
end

mutual
/-- The document as messages show it: the kind of every part and its content. -/
def shown : Json → String
  | .null => "Null"
  | .bool b => if b then "Bool(true)" else "Bool(false)"
  | .number n => "Number(" ++ n.text ++ ")"
  | .string s => "String(" ++ Text.quoted s ++ ")"
  | .array items => "Array [" ++ Text.join ", " (itemsShown items) ++ "]"
  | .object members => "Object \x7b" ++ Text.join ", " (membersShown members) ++ "\x7d"

def itemsShown : List Json → List String
  | [] => []
  | j :: rest => shown j :: itemsShown rest

def membersShown : List (String × Json) → List String
  | [] => []
  | (name, value) :: rest => (Text.quoted name ++ ": " ++ shown value) :: membersShown rest
end

end Json

end Orm
