import Orm.Derive.Type
import Orm.Number.Integer

/-
Declarations of models in source text: a named structure with attributes on itself and on its fields,
and what can be wrong with one.
-/

namespace Orm.Derive

/-- A literal in an attribute, or a name that stands in place of one. -/
inductive Item where
  | text (s : String)
  | integer (n : Int)
  | float
  | bool (b : Bool)
  | word (name : Token)
  deriving DecidableEq, Repr

/-- A truth value is a literal and no name. -/
def Item.ofWord (w : Token) : Item :=
  if w = "true" then .bool true else if w = "false" then .bool false else .word w

/-- What an attribute is given. -/
inductive Argument where
  | nothing
  /-- `name = item` -/
  | item (i : Item)
  /-- `name(item, …)` -/
  | list (items : List Item)
  /-- `name = [item, …]` -/
  | array (items : List Item)
  deriving DecidableEq, Repr

structure Attribute where
  name : String
  argument : Argument
  deriving DecidableEq, Repr

structure FieldDecl where
  name : Token
  type : Tokens
  attributes : List Attribute
  deriving DecidableEq, Repr

/-- The form of a declaration; only named fields make a model. -/
inductive Shape where
  | named (fields : List FieldDecl)
  | unnamed
  | unit
  | enumeration
  deriving DecidableEq, Repr

structure Declaration where
  name : Token
  attributes : List Attribute
  shape : Shape
  deriving DecidableEq, Repr

/-! ## Faults -/

inductive Fault where
  | unknownAttribute (name : String)
  | duplicateAttribute (name : String)
  /-- An item of another type than the attribute takes. -/
  | unexpectedType (type : String)
  /-- An attribute in another form than it takes. -/
  | unexpectedForm (form : String)
  | unknownValue (value : String)
  | number (fault : Number.IntegerFault)
  | emptyEntry
  | unsupportedShape (shape expected : String)
  | manyToManyType
  | throughKeys
  | reverseOneToOneType
  | reverseKeyType
  | relationType
  | smallGroup
  deriving DecidableEq, Repr

def Fault.message : Fault → String
  | .unknownAttribute name => "Unknown field: \x60" ++ name ++ "\x60"
  | .duplicateAttribute name => "Duplicate field \x60" ++ name ++ "\x60"
  | .unexpectedType type => "Unexpected type \x60" ++ type ++ "\x60"
  | .unexpectedForm form => "Unexpected meta-item format \x60" ++ form ++ "\x60"
  | .unknownValue value => "Unknown literal value \x60" ++ value ++ "\x60"
  | .number fault => fault.message
  | .emptyEntry => "empty entry"
  | .unsupportedShape shape expected => "Unsupported shape \x60" ++ shape ++ "\x60. Expected " ++ expected ++ "."
  | .manyToManyType => "many_to_many fields must be Vec<T>"
  | .throughKeys => "\x60through\x60 needs both \x60source\x60 and \x60target\x60"
  | .reverseOneToOneType => "reverse one_to_one fields must be Option<Box<T>> or Option<T>"
  | .reverseKeyType => "reverse foreign keys must be Vec<T>"
  | .relationType => "relation fields must be Option<Box<T>> or Option<T>"
  | .smallGroup => "a unique_together group names two or more fields"

/-- The fields of a declaration, if it has the form that a model needs. -/
def Shape.fields : Shape → Except Fault (List FieldDecl)
  | .named fields => .ok fields
  | .unnamed => .error (.unsupportedShape "unnamed fields" "named fields")
  | .unit => .error (.unsupportedShape "no fields" "named fields")
  | .enumeration => .error (.unsupportedShape "enum" "struct with named fields")

end Orm.Derive
