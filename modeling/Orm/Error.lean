/-
The errors of the library, each a cause with the text that belongs to it.

Shape errors are mistakes of the program that asks (a bad path, an unguarded write); the others are
outcomes of running against a database.
-/

namespace Orm

inductive Error where
  /-- A segment of a path that the model does not have. -/
  | unknownField (model field : String)
  /-- A scalar field in the middle of a path. -/
  | unreachableRelation (model field : String)
  | unsupportedLookup (what : String)
  /-- A DELETE without a predicate. -/
  | unsafeDelete (table : String)
  /-- An UPDATE without a predicate. -/
  | unsafeUpdate (table : String)
  | nilPointer (what : String)
  | notFound (model : String)
  | multipleFound (model : String) (count : Nat)
  /-- An instance that neither a key nor a unique group identifies. -/
  | noUniqueKey (table : String)
  | noTransaction (what : String)
  | cancelled
  | driver (message : String)
  | typeMismatch (what : String)
  | configuration (what : String)
  deriving DecidableEq, Repr

namespace Error

def message : Error → String
  | .unknownField model field => "unknown field '" ++ field ++ "' on model '" ++ model ++ "'"
  | .unreachableRelation model field =>
    "field '" ++ field ++ "' on model '" ++ model ++ "' is not a relation and cannot be traversed"
  | .unsupportedLookup what => "unsupported lookup: " ++ what
  | .unsafeDelete table => "refusing to DELETE from '" ++ table ++ "' without a WHERE clause"
  | .unsafeUpdate table => "refusing to UPDATE '" ++ table ++ "' without a WHERE clause"
  | .nilPointer what => "nil relation: " ++ what
  | .notFound model => model ++ " matching query does not exist"
  | .multipleFound model count =>
    "get() returned more than one " ++ model ++ ": it returned " ++ toString count
  | .noUniqueKey table =>
    "cannot build a WHERE clause for '" ++ table ++ "': no primary key or unique fields set"
  | .noTransaction what => "transaction is not active: " ++ what
  | .cancelled => "operation cancelled"
  | .driver message => "driver error: " ++ message
  | .typeMismatch what => "type mismatch: " ++ what
  | .configuration what => "configuration error: " ++ what

/-- The name of the cause. -/
def kind : Error → String
  | .unknownField .. => "UnknownField"
  | .unreachableRelation .. => "UnreachableRelation"
  | .unsupportedLookup _ => "UnsupportedLookup"
  | .unsafeDelete _ => "UnsafeDelete"
  | .unsafeUpdate _ => "UnsafeUpdate"
  | .nilPointer _ => "NilPointer"
  | .notFound _ => "NotFound"
  | .multipleFound .. => "MultipleFound"
  | .noUniqueKey _ => "NoUniqueKey"
  | .noTransaction _ => "NoTransaction"
  | .cancelled => "Cancelled"
  | .driver _ => "Driver"
  | .typeMismatch _ => "TypeMismatch"
  | .configuration _ => "Configuration"

/-- Whether the program that asks is at fault. -/
def isShape : Error → Bool
  | .unknownField .. | .unreachableRelation .. | .unsupportedLookup _ | .unsafeDelete _
  | .unsafeUpdate _ => true
  | _ => false

/-- What a driver said, for the errors that a driver caused. -/
def source? : Error → Option String
  | .driver message => some message
  | _ => none

end Error

/-- The result of an operation that may fail. -/
abbrev Result (α : Type) := Except Error α

end Orm
