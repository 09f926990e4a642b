import Orm.Derive.Declaration
import Orm.Text.Words

/-
The attributes of a declaration as options.

Each attribute has a reader for what it may be given. All faults are collected, in the order of the
attributes; a second attribute of one name is a fault even if the first one was.
-/

namespace Orm.Derive

/-- The value of an attribute, or what is wrong with it. -/
abbrev Reading (α : Type) := Except (List Fault) α

namespace Reading

def fail {α : Type} (f : Fault) : Reading α :=
  .error [f]

def typeOf : Item → String
  | .text _ => "string"
  | .integer _ => "int"
  | .float => "float"
  | .bool _ => "bool"
  | .word _ => "path"

/-- An attribute that takes one item. -/
def single {α : Type} (read : Item → Reading α) : Argument → Reading α
  | .nothing => fail (.unexpectedForm "word")
  | .list _ => fail (.unexpectedForm "list")
  | .array _ => fail (.unexpectedType "array")
  | .item i => read i

def wrongType {α : Type} (i : Item) : Reading α :=
  fail (.unexpectedType (typeOf i))

/-- A flag may stand alone. -/
def flag : Argument → Reading Bool
  | .nothing => .ok true
  | a => single (fun
      | .bool b => .ok b
      | .text s =>
        if s = "true" then .ok true else if s = "false" then .ok false else fail (.unknownValue s)
      | i => wrongType i) a

def text : Argument → Reading String :=
  single fun
    | .text s => .ok s
    | i => wrongType i

def lengths : Number.IntRange := .unsigned 64

/-- A length; a literal that is none says why, a text does not. -/
def length : Argument → Reading Nat :=
  single fun
    | .integer n =>
      if n < 0 then fail (.number .invalidDigit)
      else if lengths.contains n then .ok n.toNat
      else fail (.number .tooLarge)
    | .text s =>
      match Number.integer? lengths s with
      | some n => .ok n.toNat
      | none => fail (.unknownValue s)
    | i => wrongType i

/-- A path, in a text or as it is. -/
def path : Argument → Reading Tokens :=
  single fun
    | .text s =>
      match Tokens.path? s with
      | some p => .ok p
      | none => fail (.unknownValue s)
    | .word name => .ok [name]
    | i => wrongType i

/-- The entries of a list that are not empty, and a fault for every other item. -/
def entries (word : Fault) : List Item → List String × List Fault
  | [] => ([], [])
  | i :: rest =>
    let (names, faults) := entries word rest
    match i with
    | .text s => if (Text.trim s).isEmpty then (names, .emptyEntry :: faults) else (s :: names, faults)
    | .word _ => (names, word :: faults)
    | i => (names, .unexpectedType (typeOf i) :: faults)

def collected (r : List String × List Fault) : Reading (List String) :=
  if r.2.isEmpty then .ok r.1 else .error r.2

/-- Texts, in either form of a list. -/
def texts : Argument → Reading (List String)
  | .nothing => fail (.unexpectedForm "word")
  | .list items => collected (entries (.unexpectedForm "meta item") items)
  | .array items => collected (entries (.unexpectedType "path") items)
  | .item (.word _) => fail (.unexpectedType "path")
  | .item _ => fail (.unexpectedType "lit")

end Reading

/-! ## Attributes -/

/-- The attributes that are known, each with what it does to the options. -/
abbrev Known (ω : Type) := List (String × (Argument → Reading (ω → ω)))

def taking {α ω : Type} (read : Argument → Reading α) (put : α → ω → ω) (a : Argument) :
    Reading (ω → ω) :=
  (read a).map put

/-- The options that the attributes make, with all faults. -/
def readAttributes {ω : Type} (known : Known ω) (seen : List String) (o : ω) :
    List Attribute → ω × List Fault
  | [] => (o, [])
  | a :: rest =>
    match known.lookup a.name with
    | none =>
      let (o, faults) := readAttributes known seen o rest
      (o, .unknownAttribute a.name :: faults)
    | some read =>
      if seen.contains a.name then
        let (o, faults) := readAttributes known seen o rest
        (o, .duplicateAttribute a.name :: faults)
      else
        match read a.argument with
        | .ok put => readAttributes known (a.name :: seen) (put o) rest
        | .error here =>
          let (o, faults) := readAttributes known (a.name :: seen) o rest
          (o, here ++ faults)

structure ModelOptions where
  table : Option String := none
  app : Option String := none
  ordering : List String := []
  /-- Each group in one text, with commas between the names. -/
  uniqueTogether : List String := []
  /-- Where the generated code finds the library. -/
  library : Option Tokens := none
  deriving DecidableEq, Repr

def ModelOptions.known : Known ModelOptions :=
  [("table", taking Reading.text fun s o => { o with table := some s }),
   ("app", taking Reading.text fun s o => { o with app := some s }),
   ("ordering", taking Reading.texts fun l o => { o with ordering := l }),
   ("unique_together", taking Reading.texts fun l o => { o with uniqueTogether := l }),
   ("crate_path", taking Reading.path fun p o => { o with library := some p })]

structure FieldOptions where
  primaryKey : Bool := false
  auto : Bool := false
  null : Bool := false
  unique : Bool := false
  maxLength : Option Nat := none
  column : Option String := none
  foreignKey : Bool := false
  oneToOne : Bool := false
  /-- The key on the target that a relation read backwards goes by. -/
  reverse : Option String := none
  manyToMany : Bool := false
  through : Option Tokens := none
  source : Option String := none
  target : Option String := none
  onDelete : Option String := none
  onUpdate : Option String := none
  /-- Whether the field is the map of computed values. -/
  computed : Bool := false
  deriving DecidableEq, Repr

def FieldOptions.known : Known FieldOptions :=
  [("primary_key", taking Reading.flag fun b o => { o with primaryKey := b }),
   ("auto", taking Reading.flag fun b o => { o with auto := b }),
   ("null", taking Reading.flag fun b o => { o with null := b }),
   ("unique", taking Reading.flag fun b o => { o with unique := b }),
   ("max_length", taking Reading.length fun n o => { o with maxLength := some n }),
   ("db_column", taking Reading.text fun s o => { o with column := some s }),
   ("foreign_key", taking Reading.flag fun b o => { o with foreignKey := b }),
   ("one_to_one", taking Reading.flag fun b o => { o with oneToOne := b }),
   ("reverse", taking Reading.text fun s o => { o with reverse := some s }),
   ("many_to_many", taking Reading.flag fun b o => { o with manyToMany := b }),
   ("through", taking Reading.path fun p o => { o with through := some p }),
   ("source", taking Reading.text fun s o => { o with source := some s }),
   ("target", taking Reading.text fun s o => { o with target := some s }),
   ("on_delete", taking Reading.text fun s o => { o with onDelete := some s }),
   ("on_update", taking Reading.text fun s o => { o with onUpdate := some s }),
   ("annotations", taking Reading.flag fun b o => { o with computed := b })]

/-- The fields with their options, and the faults of all fields. -/
def readFields : List FieldDecl → List (FieldDecl × FieldOptions) × List Fault
  | [] => ([], [])
  | f :: rest =>
    let (o, faults) := readAttributes FieldOptions.known [] {} f.attributes
    let (fs, more) := readFields rest
    ((f, o) :: fs, faults ++ more)

end Orm.Derive
