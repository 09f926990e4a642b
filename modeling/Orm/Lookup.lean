import Orm.Sql
import Orm.Value.Coerce

/-
Comparisons of a column, and the keys `path__lookup` that name one.
-/

namespace Orm

inductive Lookup where
  | exact
  | icontains
  | contains
  | istartswith
  | startswith
  | iendswith
  | endswith
  | gt
  | gte
  | lt
  | lte
  | inList
  | isNull
  deriving DecidableEq, Repr

namespace Lookup

def all : List Lookup :=
  [.exact, .icontains, .contains, .istartswith, .startswith, .iendswith, .endswith, .gt, .gte, .lt,
   .lte, .inList, .isNull]

def name : Lookup → String
  | .exact => "exact"
  | .icontains => "icontains"
  | .contains => "contains"
  | .istartswith => "istartswith"
  | .startswith => "startswith"
  | .iendswith => "iendswith"
  | .endswith => "endswith"
  | .gt => "gt"
  | .gte => "gte"
  | .lt => "lt"
  | .lte => "lte"
  | .inList => "in"
  | .isNull => "isnull"

/-- The lookup of that very name. -/
def ofName (s : String) : Result Lookup :=
  match all.find? (·.name == s) with
  | some l => .ok l
  | none => .error (.unsupportedLookup s)

/-! ## Patterns -/

/-- The wildcards of a pattern and the escape itself stand for themselves after `!`. -/
def escapeLike : List Char → List Char
  | [] => []
  | c :: cs =>
    if c = '!' ∨ c = '%' ∨ c = '_' then '!' :: c :: escapeLike cs else c :: escapeLike cs

/-- Where a pattern has `%`: before the text, after it, and whether case is dropped. -/
structure Pattern where
  before : Bool
  after : Bool
  ignoreCase : Bool
  deriving DecidableEq, Repr

def pattern? : Lookup → Option Pattern
  | .icontains => some ⟨true, true, true⟩
  | .contains => some ⟨true, true, false⟩
  | .istartswith => some ⟨false, true, true⟩
  | .startswith => some ⟨false, true, false⟩
  | .iendswith => some ⟨true, false, true⟩
  | .endswith => some ⟨true, false, false⟩
  | _ => none

def Pattern.text (p : Pattern) (v : Value) : String :=
  String.ofList ((if p.before then ['%'] else []) ++ escapeLike v.text.toList ++
    (if p.after then ['%'] else []))

def Pattern.write (p : Pattern) (column : Sql) (operand : Piece) : Sql :=
  if p.ignoreCase then
    .text "LOWER(" :: column ++ [.text ") LIKE LOWER(", operand, .text ") ESCAPE '!'"]
  else column ++ [.text " LIKE ", operand, .text " ESCAPE '!'"]

/-- The sign of an ordering or an equality. -/
def operator : Lookup → String
  | .gt => ">"
  | .gte => ">="
  | .lt => "<"
  | .lte => "<="
  | _ => "="

/-! ## Comparisons -/

/-- The items of `in`, which may be given as one list. -/
def listItems : List Value → List Value
  | [.list items] => items
  | values => values

/-- The operand of a lookup that takes exactly one, which may not be a list. -/
def operand (l : Lookup) : List Value → Result Value
  | [.list _] => .error (.unsupportedLookup ("'" ++ l.name ++ "' does not accept a list"))
  | [v] => .ok v
  | values => .error (.unsupportedLookup
      ("'" ++ l.name ++ "' expects exactly one value, got " ++ toString values.length))

/-- The comparison of a column with bound values. -/
def write (l : Lookup) (column : Sql) (values : List Value) : Binding Sql := do
  if l = .inList then
    let items := listItems values
    if items.isEmpty then return .ofText "1=0"
    let params ← items.mapM bindValue
    return column ++ .ofText " IN (" ++ Sql.join ", " (params.map ([·])) ++ .ofText ")"
  let v ← ExceptT.mk (pure (l.operand values))
  match l.pattern? with
  | some p => return p.write column (← bindValue (.string (p.text v)))
  | none =>
    match l with
    | .isNull =>
      let wanted ← ExceptT.mk (pure v.toBool)
      return column ++ .ofText (if wanted then " IS NULL" else " IS NOT NULL")
    | .exact =>
      if v.isNull then return column ++ .ofText " IS NULL"
      else return column ++ [.text " = ", ← bindValue v]
    | _ => return column ++ [.text (" " ++ l.operator ++ " "), ← bindValue v]

end Lookup

/-! ## Keys -/

def isLetter (c : Char) : Bool :=
  ('a' ≤ c && c ≤ 'z') || ('A' ≤ c && c ≤ 'Z')

/-- The lookup's name in `path__name`, cut at the first `__` that only letters follow. -/
def suffix? : List Char → List Char → Option (List Char × List Char)
  | _, [] => none
  | before, c :: rest =>
    match c, rest with
    | '_', '_' :: word =>
      if !before.isEmpty && !word.isEmpty && word.all isLetter then some (before.reverse, word)
      else suffix? (c :: before) rest
    | _, _ => suffix? (c :: before) rest

/--
The path and the lookup of a key, `exact` if it names none. A key without a character, or with a
line break, is no path.
-/
def parseKey (key : String) : Result (String × Lookup) := do
  let cs := key.toList
  if cs.isEmpty || cs.contains '\n' then throw (.unknownField "" key)
  match suffix? [] cs with
  | some (path, word) => return (String.ofList path, ← Lookup.ofName (String.ofList word))
  | none => return (key, .exact)

end Orm
