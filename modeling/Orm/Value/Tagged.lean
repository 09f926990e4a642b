import Orm.Json.Skipping
import Orm.Calendar.Reading
import Orm.Value.Text

/-
Values as documents: an object of the value's `type` and its `value`.

Reading takes the two members in either order among others, or the two as an array; it needs each
of them once, and the content must have exactly the type that is named. Other members are skipped
unread, those of a list's items only where the type of the list is known by then.
-/

namespace Orm.Value

def tag : Value → String
  | .null => "Null"
  | .bool _ => "Bool"
  | .int _ => "Int"
  | .float _ => "Float"
  | .string _ => "String"
  | .bytes _ => "Bytes"
  | .date _ => "Date"
  | .dateTime _ => "DateTime"
  | .instant _ => "DateTimeTz"
  | .time _ => "Time"
  | .duration _ => "Duration"
  | .uuid _ => "Uuid"
  | .json _ => "Json"
  | .list _ => "List"

mutual
def tagged : Value → Json
  | .null => .object [("type", .string "Null")]
  | .bool b => withTag (.bool b) (.bool b)
  | .int n => withTag (.int n) (.number (.integer n.toInt))
  | .float x => withTag (.float x) (.ofFloat x)
  | .string s => withTag (.string s) (.string s)
  | .bytes b => withTag (.bytes b) (.array (b.map fun x => .number (.integer x.toNat)))
  | .date d => withTag (.date d) (.string d.text)
  | .dateTime t => withTag (.dateTime t) (.string (t.text "T"))
  | .instant t => withTag (.instant t) (.string (t.text "T" ++ "Z"))
  | .time t => withTag (.time t) (.string t.text)
  | .duration d =>
    withTag (.duration d) (.array [.number (.integer d.parts.1), .number (.integer d.parts.2)])
  | .uuid u => withTag (.uuid u) (.string u.text)
  | .json j => withTag (.json j) j
  | .list items => withTag (.list []) (.array (taggedItems items))

def taggedItems : List Value → List Json
  | [] => []
  | v :: rest => tagged v :: taggedItems rest

def withTag (v : Value) (content : Json) : Json :=
  .object [("type", .string (tag v)), ("value", content)]
end

/-- The only member of that name. -/
def single? (name : String) (members : List (String × Json)) : Option Json :=
  match members.filter (·.1 == name) with
  | [(_, j)] => some j
  | _ => none

/-- A variant is named by a string, or by the only member of an object, which is then null. -/
def tagName? : Json → Option String
  | .string s => some s
  | .object [(name, .null)] => some name
  | _ => none

def integerIn? (r : Number.IntRange) : Json → Option Int
  | .number (.integer n) => if r.contains n then some n else none
  | _ => none

def stringAs? {α : Type} (read : List Char → Option α) : Json → Option α
  | .string s => read s.toList
  | _ => none

def durationOf? : Json → Option Calendar.Duration
  | .array [a, b] => do
    let secs ← integerIn? (.signed 64) a
    let nanos ← integerIn? (.signed 32) b
    if 0 ≤ nanos ∧ nanos < Calendar.second then
      Calendar.Duration.of? (secs * Calendar.second + nanos)
    else none
  | _ => none

/-- The value of a tag and a content that is none of the list kind. -/
def ofContent? (tag : String) (content : Json) : Option Value :=
  match tag with
  | "Bool" => match content with
    | .bool b => some (.bool b)
    | _ => none
  | "Int" => (integerIn? (.signed 64) content).map fun n => .int (Int64.ofInt n)
  | "Float" => match content with
    | .number (.integer n) => some (.float (.ofInt n))
    | .number (.float x) => some (.float x)
    | _ => none
  | "String" => match content with
    | .string s => some (.string s)
    | _ => none
  | "Bytes" => match content with
    | .array items =>
      (items.mapM (integerIn? (.unsigned 8))).map fun ns => .bytes (ns.map fun n => UInt8.ofNat n.toNat)
    | _ => none
  | "Date" => (stringAs? Calendar.documentDate? content).map .date
  | "DateTime" => (stringAs? Calendar.documentDateTime? content).map .dateTime
  | "DateTimeTz" => (stringAs? Calendar.documentUtc? content).map .instant
  | "Time" => (stringAs? Calendar.documentTime? content).map .time
  | "Duration" => (durationOf? content).map .duration
  | "Uuid" => (stringAs? (fun cs => Uuid.ofText? (String.ofList cs)) content).map .uuid
  | "Json" => some (.json content.canonical)
  | _ => none

mutual
def ofTagged? : Json → Option Value
  | .array [t, .array items] =>
    (tagName? t).bind fun tag =>
      if tag = "List" then (ofTaggedItems? items).map .list else ofContent? tag (.array items)
  | .array [t, .null] =>
    (tagName? t).bind fun tag => if tag = "Null" then some .null else ofContent? tag .null
  | .array [t, content] => (tagName? t).bind fun tag => ofContent? tag content
  | .object members =>
    ((single? "type" members).bind tagName?).bind fun tag =>
      if (members.filter (·.1 == "value")).length ≤ 1 then ofTaggedMembers? tag members else none
  | _ => none

def ofTaggedItems? : List Json → Option (List Value)
  | [] => some []
  | j :: rest => do return (← ofTagged? j) :: (← ofTaggedItems? rest)

/-- The value of a tag and the member that holds the content; only NULL needs none. -/
def ofTaggedMembers? (tag : String) : List (String × Json) → Option Value
  | [] => if tag = "Null" then some .null else none
  | ("value", .array items) :: _ =>
    if tag = "List" then (ofTaggedItems? items).map .list else ofContent? tag (.array items)
  | ("value", content) :: _ =>
    if tag = "Null" then (match content with
      | .null => some .null
      | _ => none)
    else ofContent? tag content
  | _ :: rest => ofTaggedMembers? tag rest
end

/-! ## Text -/

open Json (skip readValue readString skipValue?)

mutual

/-- The document of a value, without the members that are skipped. -/
def readTagged : Nat → Nat → List Char → Option (Json × List Char)
  | 0, _, _ => none
  | _, 0, _ => none
  | _, 1, _ => none
  | fuel + 1, depth + 1, cs =>
    match skip cs with
    | [] => none
    | '[' :: cs => do
      let (tag, cs) ← readValue fuel depth cs
      match skip cs with
      | ',' :: cs =>
        let (content, cs) ← readContent fuel depth (tagName? tag) cs
        match skip cs with
        | ']' :: cs => return (.array [tag, content], cs)
        | _ => none
      | _ => none
    | c :: cs => if c = '\x7b' then readTaggedMembers fuel depth [] cs else none

/-- The content of a value whose tag may be known by now. -/
def readContent : Nat → Nat → Option String → List Char → Option (Json × List Char)
  | 0, _, _, _ => none
  | fuel + 1, depth, tag, cs =>
    if tag = some "List" then
      match depth, skip cs with
      | depth + 2, '[' :: cs =>
        match skip cs with
        | ']' :: cs => some (.array [], cs)
        | cs => readTaggedItems fuel (depth + 1) [] cs
      | _, _ => none
    else readValue (fuel + 1) depth cs

def readTaggedItems : Nat → Nat → List Json → List Char → Option (Json × List Char)
  | 0, _, _, _ => none
  | fuel + 1, depth, acc, cs => do
    let (item, cs) ← readTagged fuel depth cs
    match skip cs with
    | ',' :: cs => readTaggedItems fuel depth (item :: acc) cs
    | ']' :: cs => return (.array (item :: acc).reverse, cs)
    | _ => none

/-- The members that are known and the end of their object, those read so far reversed. -/
def readTaggedMembers : Nat → Nat → List (String × Json) → List Char → Option (Json × List Char)
  | 0, _, _, _ => none
  | fuel + 1, depth, acc, cs =>
    match skip cs with
    | [] => none
    | c :: cs =>
      if c != '\x22' then none
      else do
        let (name, cs) ← readString fuel [] cs
        match skip cs with
        | ':' :: cs =>
          let (acc, cs) ←
            if name = "type" then
              (readValue fuel depth cs).map fun (j, cs) => ((name, j) :: acc, cs)
            else if name = "value" then
              (readContent fuel depth ((acc.lookup "type").bind tagName?) cs).map
                fun (j, cs) => ((name, j) :: acc, cs)
            else (skipValue? fuel cs).map fun cs => (acc, cs)
          match skip cs with
          | [] => none
          | c :: cs =>
            if c = ',' then readTaggedMembers fuel depth acc cs
            else if c = '\x7d' then return (.object acc.reverse, cs)
            else none
        | _ => none

end

def ofTaggedText? (s : String) : Option Value := do
  let cs := s.toList
  let (j, rest) ← readTagged (4 * cs.length + 4) 128 cs
  if (skip rest).isEmpty then ofTagged? j else none

end Orm.Value
