import Orm.Number.Shortest

/-
How a floating-point number is written: the digits come from `Format.shortest`, and a `Style` holds
every decision of a format about their layout.
-/

namespace Orm.Number

/-- The decisions of a format. -/
structure Style where
  /-- The least and the greatest exponent that are written positionally, unless all are. -/
  positional : Option (Int × Int)
  /-- Whether a whole number written positionally ends in `.0`. -/
  pointZero : Bool
  /-- Whether a positive exponent carries its sign. -/
  plusSign : Bool
  tie : Tie
  deriving DecidableEq, Repr

namespace Style

/-- Values in running text: positional throughout, and a whole number has no point. -/
def plain : Style := ⟨none, false, false, .up⟩

/-- Values in messages: positional from `0.0001` to below `10 ^ 16`, and never like an integer. -/
def exact : Style := ⟨some (-4, 15), true, false, .up⟩

/-- Numbers in documents: positional from `0.00001` to below `10 ^ 16`, with signed exponents. -/
def document : Style := ⟨some (-5, 15), true, true, .toEven⟩

end Style

def Scientific.positional (x : Scientific) (pointZero : Bool) : String :=
  let n := x.digits.length
  if x.exponent < 0 then
    "0." ++ String.ofList (List.replicate ((-x.exponent).toNat - 1) '0' ++ x.digits)
  else
    let whole := x.exponent.toNat + 1
    if n ≤ whole then
      String.ofList (x.digits ++ List.replicate (whole - n) '0') ++ (if pointZero then ".0" else "")
    else
      String.ofList (x.digits.take whole) ++ "." ++ String.ofList (x.digits.drop whole)

def Scientific.withExponent (x : Scientific) (plusSign : Bool) : String :=
  let mantissa := match x.digits with
    | [] => ""
    | [d] => String.ofList [d]
    | d :: ds => String.ofList (d :: '.' :: ds)
  mantissa ++ "e" ++ (if plusSign && 0 ≤ x.exponent then "+" else "") ++ toString x.exponent

def Style.layout (s : Style) (x : Scientific) : String :=
  match s.positional with
  | none => x.positional s.pointZero
  | some (lo, hi) =>
    if lo ≤ x.exponent && x.exponent ≤ hi then x.positional s.pointZero
    else x.withExponent s.plusSign

def Style.magnitude (s : Style) (f : Format) (m : Nat) (q : Int) : String :=
  s.layout (f.shortest s.tie m q)

def Style.write (s : Style) (x : Binary64) : String :=
  match x.read with
  | .nan => "NaN"
  | .infinite negative => if negative then "-inf" else "inf"
  | .finite negative m q => (if negative then "-" else "") ++ s.magnitude Format.double m q

end Orm.Number
