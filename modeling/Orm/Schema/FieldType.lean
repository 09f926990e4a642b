import Orm.Value.ScalarType

/-
The declared types of fields.

`normalize` turns what a driver answered into the form of value that the declared type has.
-/

namespace Orm

inductive FieldType where
  | auto
  | bigAuto
  | char
  | text
  | integer
  | bigInteger
  | smallInteger
  | float
  | boolean
  | date
  | dateTime
  | dateTimeTz
  | time
  | duration
  | uuid
  | binary
  | json
  | foreignKey
  | oneToOne
  | reverseForeignKey
  | manyToMany
  deriving DecidableEq, Repr

namespace FieldType

def all : List FieldType :=
  [.auto, .bigAuto, .char, .text, .integer, .bigInteger, .smallInteger, .float, .boolean, .date,
   .dateTime, .dateTimeTz, .time, .duration, .uuid, .binary, .json, .foreignKey, .oneToOne,
   .reverseForeignKey, .manyToMany]

def name : FieldType → String
  | .auto => "AutoField"
  | .bigAuto => "BigAutoField"
  | .char => "CharField"
  | .text => "TextField"
  | .integer => "IntegerField"
  | .bigInteger => "BigIntegerField"
  | .smallInteger => "SmallIntegerField"
  | .float => "FloatField"
  | .boolean => "BooleanField"
  | .date => "DateField"
  | .dateTime => "DateTimeField"
  | .dateTimeTz => "DateTimeTzField"
  | .time => "TimeField"
  | .duration => "DurationField"
  | .uuid => "UuidField"
  | .binary => "BinaryField"
  | .json => "JsonField"
  | .foreignKey => "ForeignKey"
  | .oneToOne => "OneToOneField"
  | .reverseForeignKey => "ReverseForeignKey"
  | .manyToMany => "ManyToManyField"

def ofName? (s : String) : Option FieldType :=
  all.find? (·.name == s)

/-- Whether the database numbers the rows. -/
def isAuto : FieldType → Bool
  | .auto | .bigAuto => true
  | _ => false

/-- The type whose values a scalar field holds; the target decides for a relation. -/
def scalar? : FieldType → Option ScalarType
  | .auto | .bigAuto | .integer | .bigInteger | .smallInteger => some .int64
  | .float => some .float64
  | .boolean => some .bool
  | .char | .text => some .string
  | .date => some .date
  | .dateTime => some .dateTime
  | .dateTimeTz => some .instant
  | .time => some .time
  | .duration => some .duration
  | .uuid => some .uuid
  | .binary => some .bytes
  | .json => some .json
  | .foreignKey | .oneToOne | .reverseForeignKey | .manyToMany => none

def normalize (t : FieldType) (v : Value) : Result Value :=
  match t.scalar? with
  | some s => s.readOptional v
  | none => .ok v

theorem normalize_null (t : FieldType) : t.normalize .null = .ok .null := by
  cases t <;> rfl

/-- The type that an instance keeps such a field in, unless it says otherwise. -/
def stored : FieldType → ScalarType
  | .auto | .integer => .int32
  | .smallInteger => .int16
  | t => t.scalar?.getD .string

end FieldType

end Orm
