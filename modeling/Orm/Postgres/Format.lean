import Orm.Bytes
import Orm.Json.Reading
import Orm.Json.Writing
import Orm.Number.Fixed
import Orm.Value.Basic

/-
The binary format of PostgreSQL: the types of parameters and columns, and how a datum of each kind is
laid out in bytes.

Numbers are big-endian; times count microseconds from the first day of 2000, fractions dropped toward
zero; a NUMERIC is a row of digits to base 10000 with the weight of the first and a scale.
-/

namespace Orm.Postgres

open Number (Binary64 Fixed)

/-! ## Types -/

inductive SqlType where
  | bool
  | int2
  | int4
  | int8
  | float4
  | float8
  | numeric
  | text
  | varchar
  | bpchar
  /-- The type of identifiers, which is called `name`. -/
  | identifier
  | unknown
  | bytea
  | uuid
  | date
  | timestamp
  | timestamptz
  | time
  | json
  | jsonb
  | other (label : String)
  deriving DecidableEq, Repr

namespace SqlType

def label : SqlType → String
  | .bool => "bool"
  | .int2 => "int2"
  | .int4 => "int4"
  | .int8 => "int8"
  | .float4 => "float4"
  | .float8 => "float8"
  | .numeric => "numeric"
  | .text => "text"
  | .varchar => "varchar"
  | .bpchar => "bpchar"
  | .identifier => "name"
  | .unknown => "unknown"
  | .bytea => "bytea"
  | .uuid => "uuid"
  | .date => "date"
  | .timestamp => "timestamp"
  | .timestamptz => "timestamptz"
  | .time => "time"
  | .json => "json"
  | .jsonb => "jsonb"
  | .other label => label

def listed : List SqlType :=
  [.bool, .int2, .int4, .int8, .float4, .float8, .numeric, .text, .varchar, .bpchar, .identifier,
   .unknown, .bytea, .uuid, .date, .timestamp, .timestamptz, .time, .json, .jsonb]

def ofLabel (s : String) : SqlType :=
  (listed.find? (·.label == s)).getD (.other s)

end SqlType

/-- The kinds of data, each with a layout of its own. -/
inductive Kind where
  | bool
  | int16
  | int32
  | int64
  | single
  | double
  | decimal
  | text
  | bytes
  | uuid
  | date
  | timestamp
  | instant
  | time
  | json
  deriving DecidableEq, Repr

/-- The kind of the data of a type; text of any sort has no type of its own. -/
def SqlType.kind? : SqlType → Option Kind
  | .bool => some .bool
  | .int2 => some .int16
  | .int4 => some .int32
  | .int8 => some .int64
  | .float4 => some .single
  | .float8 => some .double
  | .numeric => some .decimal
  | .bytea => some .bytes
  | .uuid => some .uuid
  | .date => some .date
  | .timestamp => some .timestamp
  | .timestamptz => some .instant
  | .time => some .time
  | .json | .jsonb => some .json
  | .text | .varchar | .bpchar | .identifier | .unknown | .other _ => none

def SqlType.isText : SqlType → Bool
  | .text | .varchar | .bpchar | .identifier | .unknown => true
  | _ => false

/-- Whether data of a kind may be sent as, or read from, a type. -/
def Kind.accepts (k : Kind) (t : SqlType) : Bool :=
  match k with
  | .text => t.isText
  | k => t.kind? == some k

/-! ## Parameters -/

/-- A datum on its way to the server. -/
inductive Parameter where
  /-- NULL, which has a kind too. -/
  | absent (kind : Kind)
  | bool (b : Bool)
  | int16 (n : Int16)
  | int32 (n : Int32)
  | int64 (n : Int64)
  /-- Sent with single precision. -/
  | single (x : Binary64)
  | double (x : Binary64)
  | decimal (x : Fixed)
  | text (s : String)
  | bytes (b : List UInt8)
  | uuid (u : Uuid)
  | date (d : Calendar.Date)
  | timestamp (t : Calendar.DateTime)
  | instant (t : Calendar.DateTime)
  | time (t : Calendar.Time)
  | json (j : Json)

def Parameter.kind : Parameter → Kind
  | .absent kind => kind
  | .bool _ => .bool
  | .int16 _ => .int16
  | .int32 _ => .int32
  | .int64 _ => .int64
  | .single _ => .single
  | .double _ => .double
  | .decimal _ => .decimal
  | .text _ => .text
  | .bytes _ => .bytes
  | .uuid _ => .uuid
  | .date _ => .date
  | .timestamp _ => .timestamp
  | .instant _ => .instant
  | .time _ => .time
  | .json _ => .json

/-! ## Digits to base 10000 -/

/-- The groups of a number, the highest first. -/
def groups (n : Nat) : List Nat :=
  if n = 0 then [] else groups (n / 10000) ++ [n % 10000]

/-- Groups of digits with the weight of the first, as a power of 10000. -/
structure Numeric where
  negative : Bool
  weight : Int
  scale : Nat
  groups : List Nat
  deriving DecidableEq, Repr

namespace Numeric

/-- Groups without the groups of zeros at their end. -/
def withoutZeros (groups : List Nat) : List Nat :=
  (groups.reverse.dropWhile (· == 0)).reverse

/--
The mantissa is filled up to whole groups behind the point. Groups of zeros at the end are left out
where groups before the point come first; those before the point stay.
-/
def ofFixed (x : Fixed) : Numeric :=
  if x.mantissa = 0 then ⟨false, 0, 0, []⟩
  else
    let behind := (x.scale + 3) / 4
    let all := Postgres.groups (x.mantissa * Nat.pow 10 (4 * behind - x.scale))
    let before := all.length - behind
    ⟨x.negative, (all.length : Int) - behind - 1, x.scale,
      if before = 0 then all else all.take before ++ withoutZeros (all.drop before)⟩

/-- The groups before the point, of which those that are left out are zeros. -/
def whole? (n : Numeric) : Option Fixed := do
  let count := (n.weight + 1).toNat
  let m ← (n.groups.take count).foldlM
    (fun m g => let m := 10000 * m + g; if m < Number.mantissaBound then some m else none) 0
  Fixed.of? false (m * Nat.pow 10000 (count - n.groups.length)) 0

/-- Adds groups from the given decimal place on; behind the last place only the next digit counts. -/
def addGroups? (x : Fixed) : Nat → List Nat → Option Fixed
  | _, [] => some x
  | place, g :: rest => do
    let x ← if place ≤ Number.maxPlaces then x.plus? g place
      else if place = Number.maxPlaces + 4 && 5000 ≤ g then x.plus? 1 Number.maxPlaces
      else some x
    addGroups? x (place + 4) rest

def fixed? (n : Numeric) : Option Fixed := do
  let count := (n.weight + 1).toNat
  let x ← addGroups? (← n.whole?) (4 * ((-n.weight - 1).toNat + 1)) (n.groups.drop count)
  return { x with negative := n.negative }.withScale n.scale

def encode (n : Numeric) : List UInt8 :=
  Number.bigEndian 2 n.groups.length ++ Number.signedBigEndian 2 n.weight ++
    Number.bigEndian 2 (if n.negative then 0x4000 else 0) ++ Number.bigEndian 2 n.scale ++
    n.groups.flatMap (Number.bigEndian 2)

/-- The next two bytes as a number. -/
def word? : List UInt8 → Option (Nat × List UInt8)
  | a :: b :: rest => some (Number.ofBigEndian [a, b], rest)
  | _ => none

def words? : Nat → List UInt8 → Option (List Nat)
  | 0, _ => some []
  | n + 1, bytes => do
    let (w, rest) ← word? bytes
    return w :: (← words? n rest)

/-- Bytes behind the last group are not looked at. -/
def decode? (bytes : List UInt8) : Option Numeric := do
  let (count, _) ← word? bytes
  let sign ← word? (bytes.drop 4)
  let (scale, rest) ← word? (bytes.drop 6)
  return { negative := sign.1 == 0x4000
           weight := Number.ofSignedBigEndian ((bytes.drop 2).take 2)
           scale
           groups := ← words? count rest }

end Numeric

/-! ## Times -/

/-- The day from which days are counted. -/
def firstDay : Int := 10957

/-- The microseconds of a day. -/
def dayMicros : Int := 86400000000

def microsOf (t : Calendar.DateTime) : Int :=
  Int.tdiv (t.nanosSinceEpoch - firstDay * 86400 * Calendar.second) 1000

def ofMicros? (n : Int) : Option Calendar.DateTime :=
  Calendar.DateTime.ofTimestamp? (firstDay * 86400 + Int.fdiv n 1000000)
    (1000 * (Int.fmod n 1000000).toNat)

/-- A time of day counts on at midnight. -/
def timeOfMicros? (n : Int) : Option Calendar.Time :=
  let n := (Int.fmod n dayMicros).toNat
  Calendar.Time.of? (n / 1000000) (1000 * (n % 1000000))

/-! ## Layout -/

/-- The bytes of a parameter that a type accepts, or none for NULL. -/
def Parameter.encode (t : SqlType) : Parameter → Option (List UInt8)
  | .absent _ => none
  | .bool b => some [if b then 1 else 0]
  | .int16 n => some (Number.signedBigEndian 2 n.toInt)
  | .int32 n => some (Number.signedBigEndian 4 n.toInt)
  | .int64 n => some (Number.signedBigEndian 8 n.toInt)
  | .single x => some (Number.bigEndian 4 x.singleBits)
  | .double x => some (Number.bigEndian 8 x.bits.toNat)
  | .decimal x => some (Numeric.ofFixed x).encode
  | .text s => some (Text.utf8 s)
  | .bytes b => some b
  | .uuid u => some u.bytes
  | .date d => some (Number.signedBigEndian 4 (d.days - firstDay))
  | .timestamp d | .instant d => some (Number.signedBigEndian 8 (microsOf d))
  | .time d => some (Number.signedBigEndian 8 ((d.seconds * Calendar.second + d.nanos) / 1000))
  | .json j => some ((if t = .jsonb then [1] else []) ++ Text.utf8 j.text)

/-- The document in a cell; the binary kind of documents has its version in front. -/
def json? (t : SqlType) (bytes : List UInt8) : Option Json := do
  let bytes ← if t = .jsonb then (if bytes.head? = some 1 then some (bytes.drop 1) else none)
    else some bytes
  Json.ofText? (← Text.ofUtf8? bytes)

/-- The value in the cell of a column. -/
def Kind.decode? (k : Kind) (t : SqlType) (bytes : List UInt8) : Option Value :=
  let int width := (Number.signed? width bytes).map fun n => Value.int (Int64.ofInt n)
  match k with
  | .bool => (Number.unsigned? 1 bytes).map fun n => .bool (n != 0)
  | .int16 => int 2
  | .int32 => int 4
  | .int64 => int 8
  | .single => (Number.unsigned? 4 bytes).map fun n => .float (.ofSingleBits n)
  | .double => (Number.unsigned? 8 bytes).map fun n => .float ⟨UInt64.ofNat n⟩
  | .decimal => ((Numeric.decode? bytes).bind Numeric.fixed?).map fun x => .string x.text
  | .text => (Text.ofUtf8? bytes).map .string
  | .bytes => some (.bytes bytes)
  | .uuid => (Uuid.ofBytes? bytes).map .uuid
  | .date => (Number.signed? 4 bytes).bind fun n =>
      (Calendar.Date.ofDays? (firstDay + n)).map .date
  | .timestamp => (Number.signed? 8 bytes).bind fun n => (ofMicros? n).map .dateTime
  | .instant => (Number.signed? 8 bytes).bind fun n => (ofMicros? n).map .instant
  | .time => (Number.signed? 8 bytes).bind fun n => (timeOfMicros? n).map .time
  | .json => (json? t bytes).map .json

end Orm.Postgres
