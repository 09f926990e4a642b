import Orm.Number.Binary
import Orm.Text.Words

/-
Reading decimal numerals.

A numeral is an optional sign, digits with at most one point among or around them, and an optional
exponent; the words for infinity and for no number are read in any case. The value is the float
nearest to the exact decimal.
-/

namespace Orm.Number

/-- `digits * 10 ^ exponent` with a sign. -/
structure Numeral where
  negative : Bool
  digits : Nat
  exponent : Int
  deriving DecidableEq, Repr

/-- The sign of a text and what follows it. -/
def takeSign : List Char → Bool × List Char
  | '-' :: cs => (true, cs)
  | '+' :: cs => (false, cs)
  | cs => (false, cs)

/-- The exponent part of a numeral: nothing, or `e`, an optional sign and digits to the end. -/
def exponent? : List Char → Option Int
  | [] => some 0
  | c :: cs =>
    if c = 'e' || c = 'E' then
      let (negative, ds) := takeSign cs
      (digits? ds).map fun n => if negative then -(n : Int) else n
    else none

def numeral? (cs : List Char) : Option Numeral :=
  let (negative, cs) := takeSign cs
  let whole := cs.takeWhile isDigit
  let rest := cs.dropWhile isDigit
  let (fraction, rest) := match rest with
    | '.' :: rest => (rest.takeWhile isDigit, rest.dropWhile isDigit)
    | _ => ([], rest)
  if whole.isEmpty && fraction.isEmpty then none else
  (exponent? rest).map fun e =>
    ⟨negative, digitsValue (whole ++ fraction), e - fraction.length⟩

/--
The float nearest to a numeral. Beyond these exponents every number that is not zero is infinite
or zero, and the powers of ten need not be written out.
-/
def Numeral.toBinary64 (x : Numeral) : Binary64 :=
  if x.digits = 0 then .ofRatio x.negative 0 1 else
  let top := x.exponent + (Nat.toDigits 10 x.digits).length
  if 400 < top then .infinity x.negative
  else if top < -400 then .ofRatio x.negative 0 1
  else .ofRatio x.negative (x.digits * Nat.pow 10 x.exponent.toNat) (Nat.pow 10 (-x.exponent).toNat)

def float? (s : String) : Option Binary64 :=
  let (negative, cs) := takeSign s.toList
  let word := Text.lowerAscii (String.ofList cs)
  if word = "inf" || word = "infinity" then some (.infinity negative)
  else if word = "nan" then some (if negative then Binary64.nan.negate else .nan)
  else (numeral? s.toList).map Numeral.toBinary64

end Orm.Number
