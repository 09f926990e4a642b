import Orm.Json.Writing
import Orm.Value.Basic

/-
The two texts of a value: `text` as it stands in a pattern or a list, and `shown` as a message shows
it, with its kind.
-/

namespace Orm.Value

mutual
def text : Value → String
  | .null => "NULL"
  | .bool b => if b then "true" else "false"
  | .int n => toString n.toInt
  | .float x => Number.Style.plain.write x
  | .string s => s
  | .bytes b => "<" ++ toString b.length ++ " bytes>"
  | .date d => d.text
  | .dateTime t => t.text " "
  | .instant t => t.text "T" ++ "+00:00"
  | .time t => t.text
  | .duration d => d.text
  | .uuid u => u.text
  | .json j => j.text
  | .list items => "[" ++ Text.join ", " (itemTexts items) ++ "]"

def itemTexts : List Value → List String
  | [] => []
  | v :: rest => text v :: itemTexts rest
end

def durationShown (d : Calendar.Duration) : String :=
  "TimeDelta \x7b secs: " ++ toString d.parts.1 ++ ", nanos: " ++ toString d.parts.2 ++ " \x7d"

mutual
def shown : Value → String
  | .null => "Null"
  | .bool b => if b then "Bool(true)" else "Bool(false)"
  | .int n => "Int(" ++ toString n.toInt ++ ")"
  | .float x => "Float(" ++ Number.Style.exact.write x ++ ")"
  | .string s => "String(" ++ Text.quoted s ++ ")"
  | .bytes b => "Bytes([" ++ Text.join ", " (b.map fun x => toString x.toNat) ++ "])"
  | .date d => "Date(" ++ d.text ++ ")"
  | .dateTime t => "DateTime(" ++ t.text "T" ++ ")"
  | .instant t => "DateTimeTz(" ++ t.text "T" ++ "Z)"
  | .time t => "Time(" ++ t.text ++ ")"
  | .duration d => "Duration(" ++ durationShown d ++ ")"
  | .uuid u => "Uuid(" ++ u.text ++ ")"
  | .json j => "Json(" ++ j.shown ++ ")"
  | .list items => "List([" ++ Text.join ", " (itemsShown items) ++ "])"

def itemsShown : List Value → List String
  | [] => []
  | v :: rest => shown v :: itemsShown rest
end

/-- The text by which rows of one key are recognised; strings are set apart from all else. -/
def groupKey : Value → String
  | .string s => "s:" ++ s
  | v => "v:" ++ v.text

end Orm.Value
