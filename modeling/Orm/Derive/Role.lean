import Orm.Derive.Options
import Orm.Schema.Field

/-
What the fields of a declaration stand for: a column, a relation in one of its forms, or the map of
computed values; and the field type of a column, inferred from the type of the field.
-/

namespace Orm.Derive

inductive Role where
  | scalar
  /-- A key of its own; the related instance may be kept in a box. -/
  | forward (target : Tokens) (boxed : Bool)
  /-- A one-to-one relation that the target keeps the key of. -/
  | backward (target : Tokens) (boxed : Bool) (related : String)
  | many (target : Tokens)
  /-- The map of computed values, which is no field of the model. -/
  | computed
  deriving DecidableEq, Repr

structure Field where
  name : Token
  type : Tokens
  options : FieldOptions
  role : Role
  deriving DecidableEq, Repr

/-- The target of an optional relation, and whether it is boxed. -/
def optionalTarget? (type : Tokens) : Option (Tokens × Bool) := do
  let inner ← Tokens.argument? "Option" type
  match Tokens.argument? "Box" inner with
  | some target => return (target, true)
  | none => return (inner, false)

def orFault {α : Type} (f : Fault) : Option α → Except Fault α
  | some a => .ok a
  | none => .error f

/-- The role that the options give a field, if its type can play it. -/
def roleOf (type : Tokens) (o : FieldOptions) : Except Fault Role := do
  if o.computed then return .computed
  else if o.manyToMany then
    let target ← orFault .manyToManyType (Tokens.argument? "Vec" type)
    if o.through.isSome && (o.source.isNone || o.target.isNone) then throw .throughKeys
    return .many target
  else
    match o.reverse with
    | some related =>
      if o.oneToOne then
        let (target, boxed) ← orFault .reverseOneToOneType (optionalTarget? type)
        return .backward target boxed related
      else
        return .many (← orFault .reverseKeyType (Tokens.argument? "Vec" type))
    | none =>
      if o.foreignKey || o.oneToOne then
        let (target, boxed) ← orFault .relationType (optionalTarget? type)
        return .forward target boxed
      else return .scalar

/-- The fields with their roles, and a fault for every field that has none. -/
def rolesOf : List (FieldDecl × FieldOptions) → List Field × List Fault
  | [] => ([], [])
  | (f, o) :: rest =>
    let (fields, faults) := rolesOf rest
    match roleOf f.type o with
    | .ok role => (⟨f.name, f.type, o, role⟩ :: fields, faults)
    | .error fault => (fields, fault :: faults)

/-! ## Types of columns -/

/-- The field types by a part of a type's name; the first that occurs decides. -/
def byMention : List (String × FieldType) :=
  [("NaiveDateTime", .dateTime), ("DateTime", .dateTimeTz), ("NaiveDate", .date), ("NaiveTime", .time),
   ("Duration", .duration), ("Uuid", .uuid), ("serde_json", .json)]

/-- The field type of a column for a type that is not optional. -/
def plainType (type : Tokens) (maxLength : Option Nat) : FieldType :=
  match type with
  | ["i32"] | ["u32"] => .integer
  | ["i16"] => .smallInteger
  | ["i64"] => .bigInteger
  | ["f64"] | ["f32"] => .float
  | ["bool"] => .boolean
  | ["String"] => if maxLength.isSome then .char else .text
  | _ =>
    match byMention.find? fun (part, _) => Tokens.mentions part type with
    | some (_, t) => t
    | none => if Tokens.mentions "Vec" type && Tokens.mentions "u8" type then .binary else .text

/-- The field type of a column: whether a value may be missing makes no difference. -/
def columnType (type : Tokens) (o : FieldOptions) : FieldType :=
  let inner := (Tokens.argument? "Option" type).getD type
  if o.auto then (if inner = ["i64"] then .bigAuto else .auto) else plainType inner o.maxLength

end Orm.Derive
