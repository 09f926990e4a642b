import Orm.Bytes
import Orm.Json.Basic
import Orm.Number.Decimal

/-
Reading documents from text.

`read?` keeps the members of objects as they stand in the text; `ofText?` gives the canonical
document. Every step of the reader takes a character, so a text's length bounds the work, and
nesting is limited to 127 levels.
-/

namespace Orm.Json

open Number (isDigit digitValue? Binary64)

def isSpace (c : Char) : Bool :=
  c == ' ' || c == '\n' || c == '\t' || c == '\r'

def skip (cs : List Char) : List Char :=
  cs.dropWhile isSpace

/-! ## Strings -/

def unit? (cs : List Char) : Option (Nat × List Char) :=
  if cs.length < 4 then none
  else (Text.hexNat? (cs.take 4)).map (·, cs.drop 4)

/-- The character of an escape `\u`, for which two such escapes may be needed. -/
def escaped? (cs : List Char) : Option (Char × List Char) := do
  let (a, cs) ← unit? cs
  if 0xD800 ≤ a ∧ a < 0xDC00 then
    match cs with
    | '\\' :: 'u' :: cs =>
      let (b, cs) ← unit? cs
      if 0xDC00 ≤ b ∧ b < 0xE000 then
        return (Char.ofNat (0x10000 + (a - 0xD800) * 0x400 + (b - 0xDC00)), cs)
      else none
    | _ => none
  else if 0xDC00 ≤ a ∧ a < 0xE000 then none
  else return (Char.ofNat a, cs)

def simpleEscape? (c : Char) : Option Char :=
  if c = '\x22' ∨ c = '\\' ∨ c = '/' then some c
  else if c = 'b' then some '\x08'
  else if c = 'f' then some '\x0c'
  else if c = 'n' then some '\n'
  else if c = 'r' then some '\r'
  else if c = 't' then some '\t'
  else none

/-- The rest of a string after its opening quote, with the characters read so far reversed. -/
def readString : Nat → List Char → List Char → Option (String × List Char)
  | 0, _, _ => none
  | _, _, [] => none
  | fuel + 1, acc, c :: cs =>
    if c = '\x22' then some (String.ofList acc.reverse, cs)
    else if c = '\\' then
      match cs with
      | [] => none
      | 'u' :: cs => (escaped? cs).bind fun (c, cs) => readString fuel (c :: acc) cs
      | e :: cs => (simpleEscape? e).bind fun c => readString fuel (c :: acc) cs
    else if c.toNat < 32 then none
    else readString fuel (c :: acc) cs

/-! ## Numbers -/

/-- The most that the digits of a float are collected to; later digits only count. -/
def maxMantissa : Nat := Nat.pow 2 64 - 1

/-- Digits taken while they fit, and how many of those given were taken. -/
def collect (acc : Nat) (taken : Nat) : List Char → Nat × Nat
  | [] => (acc, taken)
  | c :: cs =>
    let next := 10 * acc + (digitValue? c).getD 0
    if maxMantissa < next then (acc, taken) else collect next (taken + 1) cs

/-- Divisions by the greatest power of ten that a float holds, until the exponent is within reach. -/
def scaleDown (x : Binary64) (exponent : Nat) : Nat → Binary64
  | 0 => x
  | fuel + 1 =>
    if exponent ≤ 308 then x.div (.ofRatio false (Nat.pow 10 exponent) 1)
    else if x.isZero then x
    else scaleDown (x.div (.ofRatio false (Nat.pow 10 308) 1)) (exponent - 308) fuel

/--
The float of collected digits and a power of ten: both are rounded, then multiplied or divided.
A number too large for a float is refused.
-/
def scaled? (mantissa : Nat) (exponent : Int) : Option Binary64 :=
  let x := Binary64.ofInt mantissa
  if 0 ≤ exponent then
    if exponent ≤ 308 then
      let y := x.mul (.ofRatio false (Nat.pow 10 exponent.toNat) 1)
      if y.isFinite then some y else none
    else if mantissa = 0 then some x else none
  else some (scaleDown x (-exponent).toNat 5)

def signed (negative : Bool) (x : Binary64) : Json :=
  .number (.float (if negative then x.negate else x))

/-- The exponent that `e` introduces, with the sign it carries. -/
def readExponent? (cs : List Char) : Option ((Bool × Nat) × List Char) :=
  let (negative, cs) := match cs with
    | '-' :: cs => (true, cs)
    | '+' :: cs => (false, cs)
    | cs => (false, cs)
  let ds := cs.takeWhile isDigit
  if ds.isEmpty then none
  else some ((negative, Number.digitsValue ds), cs.drop ds.length)

/-- The greatest exponent that is counted; a larger one decides the number by its sign. -/
def maxExponent : Nat := 2147483647

def floatOf? (negative : Bool) (mantissa : Nat) (exponent : Int) (cs : List Char) :
    Option (Json × List Char) :=
  match cs with
  | [] => (scaled? mantissa exponent).map fun x => (signed negative x, cs)
  | c :: rest =>
    if c = 'e' ∨ c = 'E' then
      (readExponent? rest).bind fun ((down, e), rest) =>
        if maxExponent < e then
          if !down && mantissa != 0 then none else some (signed negative .zero, rest)
        else
          (scaled? mantissa (if down then exponent - e else exponent + e)).map fun x =>
            (signed negative x, rest)
    else (scaled? mantissa exponent).map fun x => (signed negative x, cs)

/-- A number after its sign. Whole numbers stay whole while 64 bits hold them. -/
def readNumber (negative : Bool) (cs : List Char) : Option (Json × List Char) :=
  let whole := cs.takeWhile isDigit
  let rest := cs.drop whole.length
  if whole.isEmpty || (whole.length != 1 && whole.head? == some '0') then none else
  let (mantissa, taken) := collect 0 0 whole
  let dropped : Int := (whole.length - taken : Nat)
  match rest with
  | '.' :: after =>
    let ds := after.takeWhile isDigit
    if ds.isEmpty then none else
    let (mantissa, taken) := collect mantissa 0 ds
    floatOf? negative mantissa (dropped - taken) (after.drop ds.length)
  | _ =>
    let isExponent := match rest with
      | c :: _ => c == 'e' || c == 'E'
      | [] => false
    if isExponent || dropped != 0 then floatOf? negative mantissa dropped rest
    else if negative then
      if mantissa = 0 || Nat.pow 2 63 < mantissa then some (signed true (.ofInt mantissa), rest)
      else some (.number (.integer (-mantissa)), rest)
    else some (.number (.integer mantissa), rest)

/-! ## Values -/

def expect? (word : List Char) (value : Json) (cs : List Char) : Option (Json × List Char) :=
  if word.isPrefixOf cs then some (value, cs.drop word.length) else none

mutual
def readValue : Nat → Nat → List Char → Option (Json × List Char)
  | 0, _, _ => none
  | fuel + 1, depth, cs =>
    match skip cs with
    | [] => none
    | 'n' :: rest => expect? ['u', 'l', 'l'] .null rest
    | 't' :: rest => expect? ['r', 'u', 'e'] (.bool true) rest
    | 'f' :: rest => expect? ['a', 'l', 's', 'e'] (.bool false) rest
    | '-' :: rest => readNumber true rest
    | '[' :: rest =>
      match depth with
      | 0 | 1 => none
      | depth + 1 =>
        match skip rest with
        | ']' :: rest => some (.array [], rest)
        | rest => readItems fuel depth [] rest
    | c :: rest =>
      if c = '\x22' then (readString (fuel + 1) [] rest).map fun (s, rest) => (.string s, rest)
      else if c = '\x7b' then
        match depth with
        | 0 | 1 => none
        | depth + 1 =>
          match skip rest with
          | [] => none
          | d :: more =>
            if d = '\x7d' then some (.object [], more) else readMembers fuel depth [] (d :: more)
      else readNumber false (c :: rest)

/-- The items of an array and its end, at least one, those read so far reversed. -/
def readItems : Nat → Nat → List Json → List Char → Option (Json × List Char)
  | 0, _, _, _ => none
  | fuel + 1, depth, acc, cs =>
    (readValue fuel depth cs).bind fun (item, cs) =>
      match skip cs with
      | ',' :: cs => readItems fuel depth (item :: acc) cs
      | ']' :: cs => some (.array (item :: acc).reverse, cs)
      | _ => none

def readMembers : Nat → Nat → List (String × Json) → List Char → Option (Json × List Char)
  | 0, _, _, _ => none
  | fuel + 1, depth, acc, cs =>
    match skip cs with
    | [] => none
    | c :: cs =>
      if c != '\x22' then none else
      (readString fuel [] cs).bind fun (name, cs) =>
        match skip cs with
        | ':' :: cs =>
          (readValue fuel depth cs).bind fun (value, cs) =>
            match skip cs with
            | [] => none
            | c :: cs =>
              if c = ',' then readMembers fuel depth ((name, value) :: acc) cs
              else if c = '\x7d' then some (.object ((name, value) :: acc).reverse, cs)
              else none
        | _ => none
end

/-- The document of a text, with nothing but blanks around it and all members as written. -/
def read? (s : String) : Option Json :=
  let cs := s.toList
  match readValue (2 * cs.length + 2) 128 cs with
  | some (j, rest) => if (skip rest).isEmpty then some j else none
  | none => none

def ofText? (s : String) : Option Json :=
  (read? s).map canonical

end Orm.Json
