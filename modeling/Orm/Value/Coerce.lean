import Orm.Bytes
import Orm.Calendar.Reading
import Orm.Error
import Orm.Json.Reading
import Orm.Number.Decimal
import Orm.Value.Text

/-
What a value is as a value of a wanted type.

Drivers answer loosely: whole numbers for booleans, text for numbers and times. Each `to…` function
accepts the values that mean one of its type and refuses the others with a type mismatch.
-/

namespace Orm.Value

open Number (Binary64 IntRange)

def mismatch (expected : String) (v : Value) : Error :=
  .typeMismatch ("expected " ++ expected ++ ", got " ++ v.shown)

/-- The text of a string or of bytes that hold one, without the blanks around it. -/
def trimmed? : Value → Option String
  | .string s => some (Text.trim s)
  | .bytes b => (Text.ofUtf8? b).map Text.trim
  | _ => none

def required {α : Type} (expected : String) (v : Value) (a : Option α) : Result α :=
  match a with
  | some a => .ok a
  | none => .error (v.mismatch expected)

/-- The 64-bit integer nearest to a whole number. -/
def saturate (n : Int) : Int64 :=
  Int64.ofInt (max (IntRange.signed 64).lo (min n (IntRange.signed 64).hi))

def toInt : Value → Result Int64
  | .int n => .ok n
  | .bool b => .ok (if b then 1 else 0)
  | v@(.float x) => v.required "integer" (x.toInt?.map saturate)
  | v => v.required "integer"
      (v.trimmed?.bind fun s => (Number.integer? (.signed 64) s).map Int64.ofInt)

/-- An integer of a type with a smaller range. -/
def toNarrow (type : String) (range : IntRange) (v : Value) : Result Int64 := do
  let n ← v.toInt
  match range.fault? n.toInt with
  | none => return n
  | some fault => throw (.typeMismatch (toString n.toInt ++ " out of range for " ++ type ++ ": " ++
      fault.message))

def toFloat : Value → Result Binary64
  | .float x => .ok x
  | .int n => .ok (.ofInt n.toInt)
  | v => v.required "float" (v.trimmed?.bind Number.float?)

def toSingle (v : Value) : Result Binary64 :=
  v.toFloat.map Binary64.toSingle

/-- The truth that a word stands for, in any case. -/
def truth? (word : String) : Option Bool :=
  let w := Text.lowerAscii word
  if w = "1" ∨ w = "true" ∨ w = "t" then some true
  else if w = "0" ∨ w = "false" ∨ w = "f" then some false
  else none

def toBool : Value → Result Bool
  | .bool b => .ok b
  | .int n => .ok (n != 0)
  | v => v.required "boolean" (v.trimmed?.bind truth?)

def toText : Value → Result String
  | .string s => .ok s
  | v@(.bytes b) => v.required "UTF-8 text" (Text.ofUtf8? b)
  | .json (.string s) => .ok s
  | v@.null | v@(.list _) => .error (v.mismatch "string")
  | v => .ok v.text

def toBytes : Value → Result (List UInt8)
  | .bytes b => .ok b
  | .string s => .ok (Text.utf8 s)
  | v => .error (v.mismatch "bytes")

def toUuid : Value → Result Uuid
  | .uuid u => .ok u
  | v@(.bytes b) =>
    if b.length = 16 then v.required "uuid" (Uuid.ofBytes? b)
    else v.required "uuid" (v.trimmed?.bind Uuid.ofText?)
  | v => v.required "uuid" (v.trimmed?.bind Uuid.ofText?)

def toDateTime : Value → Result Calendar.DateTime
  | .dateTime t => .ok t
  | .instant t => .ok t
  | .date d => .ok ⟨d, .midnight⟩
  | v => v.required "datetime" (v.trimmed?.bind fun s => Calendar.columnDateTime? s.toList)

/-- A point in time; a whole number counts seconds since the epoch. -/
def toInstant : Value → Result Calendar.DateTime
  | .instant t => .ok t
  | v@(.int n) => v.required "timestamp" (Calendar.DateTime.ofTimestamp? n.toInt 0)
  | v => v.toDateTime

def toDate : Value → Result Calendar.Date
  | .date d => .ok d
  | .dateTime t => .ok t.date
  | .instant t => .ok t.date
  | v => v.required "date" (v.trimmed?.bind fun s =>
      (Calendar.date? s.toList).or ((Calendar.columnDateTime? s.toList).map (·.date)))

def toTime : Value → Result Calendar.Time
  | .time t => .ok t
  | .dateTime t => .ok t.time
  | v => v.required "time" (v.trimmed?.bind fun s => Calendar.time? s.toList)

/-- A duration; a whole number counts microseconds. -/
def toDuration : Value → Result Calendar.Duration
  | .duration d => .ok d
  | .int n => .ok (.ofMicros n)
  | v => .error (v.mismatch "duration")

/-- A document; a string that is none becomes a string of a document. -/
def toJson : Value → Result Json
  | .json j => .ok j
  | .null => .ok .null
  | .bool b => .ok (.bool b)
  | .int n => .ok (.number (.integer n.toInt))
  | .float x => .ok (.ofFloat x)
  | .string s => .ok ((Json.ofText? s).getD (.string s))
  | v@(.bytes b) => v.required "json" ((Text.ofUtf8? b).bind Json.ofText?)
  | v => .ok (.string v.text)

end Orm.Value
