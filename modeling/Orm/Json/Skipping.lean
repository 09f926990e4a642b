import Orm.Json.Reading

/-
Skipping a document that nobody asks for.

Only its form is looked at: a number may be of any size, an escape may be half of a pair, and nesting
is not limited.
-/

namespace Orm.Json

open Number (isDigit)

def isHex (c : Char) : Bool :=
  (Text.hexValue? c).isSome

/-- The text behind a string, without its opening quote. -/
def skipString? : List Char → Option (List Char)
  | [] => none
  | '\\' :: 'u' :: a :: b :: c :: d :: cs =>
    if [a, b, c, d].all isHex then skipString? cs else none
  | '\\' :: c :: cs => if (simpleEscape? c).isSome then skipString? cs else none
  | c :: cs => if c = '\x22' then some cs else if c.toNat < 32 then none else skipString? cs

/-- The text behind at least one digit. -/
def skipDigits? (cs : List Char) : Option (List Char) :=
  if cs.head?.any isDigit then some (cs.dropWhile isDigit) else none

def skipExponent? : List Char → Option (List Char)
  | c :: cs =>
    if c = 'e' || c = 'E' then
      match cs with
      | '+' :: cs => skipDigits? cs
      | '-' :: cs => skipDigits? cs
      | cs => skipDigits? cs
    else some (c :: cs)
  | [] => some []

/-- The text behind a number, without its sign. -/
def skipNumber? (cs : List Char) : Option (List Char) := do
  let rest ← skipDigits? cs
  if cs.head? = some '0' && cs.length ≠ rest.length + 1 then none
  else
    match rest with
    | '.' :: behind => skipExponent? (← skipDigits? behind)
    | rest => skipExponent? rest

def skipWord? (word cs : List Char) : Option (List Char) :=
  if word.isPrefixOf cs then some (cs.drop word.length) else none

mutual

def skipValue? : Nat → List Char → Option (List Char)
  | 0, _ => none
  | fuel + 1, cs =>
    match skip cs with
    | [] => none
    | 'n' :: rest => skipWord? ['u', 'l', 'l'] rest
    | 't' :: rest => skipWord? ['r', 'u', 'e'] rest
    | 'f' :: rest => skipWord? ['a', 'l', 's', 'e'] rest
    | '-' :: rest => skipNumber? rest
    | '[' :: rest =>
      match skip rest with
      | ']' :: rest => some rest
      | rest => skipItems? fuel rest
    | c :: rest =>
      if c = '\x22' then skipString? rest
      else if c = '\x7b' then
        match skip rest with
        | [] => none
        | d :: more => if d = '\x7d' then some more else skipMembers? fuel (d :: more)
      else skipNumber? (c :: rest)

def skipItems? : Nat → List Char → Option (List Char)
  | 0, _ => none
  | fuel + 1, cs => do
    match skip (← skipValue? fuel cs) with
    | ',' :: cs => skipItems? fuel cs
    | ']' :: cs => some cs
    | _ => none

def skipMembers? : Nat → List Char → Option (List Char)
  | 0, _ => none
  | fuel + 1, cs =>
    match skip cs with
    | [] => none
    | c :: cs =>
      if c != '\x22' then none
      else do
        match skip (← skipString? cs) with
        | ':' :: cs =>
          match skip (← skipValue? fuel cs) with
          | [] => none
          | c :: cs =>
            if c = ',' then skipMembers? fuel cs else if c = '\x7d' then some cs else none
        | _ => none

end

end Orm.Json
