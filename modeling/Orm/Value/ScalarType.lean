import Orm.Value.Coerce

/-
The types that instances keep their fields in.

`read` gives the value as a type holds it. A `Storage` is a type that may or may not be empty: NULL
leaves an optional field empty and gives any other its default.
-/

namespace Orm

inductive ScalarType where
  | int64
  | int32
  | int16
  | nat32
  | float64
  | float32
  | bool
  | string
  | bytes
  | uuid
  | dateTime
  | instant
  | date
  | time
  | duration
  | json
  deriving DecidableEq, Repr

namespace ScalarType

open Number (IntRange)

def read (s : ScalarType) (v : Value) : Result Value :=
  match s with
  | .int64 => v.toInt.map .int
  | .int32 => (v.toNarrow "i32" (.signed 32)).map .int
  | .int16 => (v.toNarrow "i16" (.signed 16)).map .int
  | .nat32 => (v.toNarrow "u32" (.unsigned 32)).map .int
  | .float64 => v.toFloat.map .float
  | .float32 => v.toSingle.map .float
  | .bool => v.toBool.map .bool
  | .string => v.toText.map .string
  | .bytes => v.toBytes.map .bytes
  | .uuid => v.toUuid.map .uuid
  | .dateTime => v.toDateTime.map .dateTime
  | .instant => v.toInstant.map .instant
  | .date => v.toDate.map .date
  | .time => v.toTime.map .time
  | .duration => v.toDuration.map .duration
  | .json => v.toJson.map .json

def default : ScalarType → Value
  | .int64 | .int32 | .int16 | .nat32 => .int 0
  | .float64 | .float32 => .float .zero
  | .bool => .bool false
  | .string => .string ""
  | .bytes => .bytes []
  | .uuid => .uuid .zero
  | .dateTime => .dateTime .epoch
  | .instant => .instant .epoch
  | .date => .date .epoch
  | .time => .time .midnight
  | .duration => .duration .zero
  | .json => .json .null

/-- A value that may be missing. -/
def readOptional (s : ScalarType) (v : Value) : Result Value :=
  if v.isNull then .ok .null else s.read v

/-- A value for which the default stands in. -/
def readOrDefault (s : ScalarType) (v : Value) : Result Value :=
  if v.isNull then .ok s.default else s.read v

end ScalarType

/-- What a field is kept in. -/
structure Storage where
  type : ScalarType
  optional : Bool
  deriving DecidableEq, Repr

namespace Storage

def read (s : Storage) (v : Value) : Result Value :=
  if s.optional then s.type.readOptional v else s.type.readOrDefault v

def default (s : Storage) : Value :=
  if s.optional then .null else s.type.default

end Storage

end Orm
