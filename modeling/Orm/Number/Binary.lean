import Orm.Number.Integer

/-
Binary floating-point numbers as their bits.

A finite number is `m * 2 ^ q` with a sign. `Format.encode` rounds an exact fraction to the nearest
number of a format, ties to the even one; every conversion here is such a rounding of an exact
value, so nothing depends on the arithmetic of a processor.
-/

namespace Orm.Number

/-- A format of `exponentBits` exponent bits and `precision` significant bits, the leading one implied. -/
structure Format where
  precision : Nat
  exponentBits : Nat
  deriving DecidableEq, Repr

def Format.double : Format := ⟨53, 11⟩

def Format.single : Format := ⟨24, 8⟩

/-- What the bits of a number stand for: a finite one is `m * 2 ^ q`. -/
inductive Reading where
  | nan
  | infinite (negative : Bool)
  | finite (negative : Bool) (m : Nat) (q : Int)
  deriving DecidableEq, Repr

namespace Format

/-- The exponent of the last place of the smallest numbers. -/
def minExponent (f : Format) : Int :=
  3 - (Nat.pow 2 (f.exponentBits - 1) : Nat) - f.precision

/-- The bits of a positive infinity. -/
def infinityBits (f : Format) : Nat :=
  (Nat.pow 2 f.exponentBits - 1) * Nat.pow 2 (f.precision - 1)

def signBit (f : Format) : Nat :=
  Nat.pow 2 (f.exponentBits + f.precision - 1)

def read (f : Format) (bits : Nat) : Reading :=
  let negative := f.signBit ≤ bits
  let magnitude := bits % f.signBit
  let fraction := magnitude % Nat.pow 2 (f.precision - 1)
  let exponent := magnitude / Nat.pow 2 (f.precision - 1)
  if magnitude = f.infinityBits then .infinite negative
  else if f.infinityBits < magnitude then .nan
  else if exponent = 0 then .finite negative fraction f.minExponent
  else .finite negative (Nat.pow 2 (f.precision - 1) + fraction) (f.minExponent + (exponent - 1))

/-- The quotient rounded to the nearest natural number, a half to the even neighbour. -/
def roundQuotient (num den : Nat) : Nat :=
  let whole := num / den
  let twice := 2 * (num % den)
  if den < twice || (twice == den && whole % 2 == 1) then whole + 1 else whole

/-- The largest `e` with `2 ^ e ≤ num / den`. -/
def floorLog2 (num den : Nat) : Int :=
  let e : Int := (num.log2 : Int) - den.log2
  if num * Nat.pow 2 (-e).toNat < den * Nat.pow 2 e.toNat then e - 1 else e

/-- The bits of the magnitude nearest to `num / den`, infinity from half a place above the largest. -/
def encodeMagnitude (f : Format) (num den : Nat) : Nat :=
  if num = 0 then 0 else
  let q := max (floorLog2 num den - (f.precision - 1 : Nat)) f.minExponent
  let m := roundQuotient (num * Nat.pow 2 (-q).toNat) (den * Nat.pow 2 q.toNat)
  min ((q - f.minExponent).toNat * Nat.pow 2 (f.precision - 1) + m) f.infinityBits

def encode (f : Format) (negative : Bool) (num den : Nat) : Nat :=
  (if negative then f.signBit else 0) + f.encodeMagnitude num den

/-- A number that is none, quiet, with the leading payload bits of another format's. -/
def encodeNan (f : Format) (negative : Bool) : Nat :=
  (if negative then f.signBit else 0) + f.infinityBits + Nat.pow 2 (f.precision - 2)

end Format

/-- A 64-bit floating-point number. -/
structure Binary64 where
  bits : UInt64
  deriving DecidableEq, Repr

namespace Binary64

def read (x : Binary64) : Reading :=
  Format.double.read x.bits.toNat

def isNegative (x : Binary64) : Bool :=
  Format.double.signBit ≤ x.bits.toNat

def isZero (x : Binary64) : Bool :=
  x.bits.toNat % Format.double.signBit == 0

def isNan (x : Binary64) : Bool :=
  x.read == .nan

def isFinite (x : Binary64) : Bool :=
  match x.read with
  | .finite .. => true
  | _ => false

def zero : Binary64 := ⟨0⟩

/-- The number nearest to a fraction. -/
def ofRatio (negative : Bool) (num den : Nat) : Binary64 :=
  ⟨UInt64.ofNat (Format.double.encode negative num den)⟩

def ofInt (n : Int) : Binary64 :=
  ofRatio (n < 0) n.natAbs 1

def infinity (negative : Bool) : Binary64 :=
  ⟨UInt64.ofNat ((if negative then Format.double.signBit else 0) + Format.double.infinityBits)⟩

def nan : Binary64 :=
  ⟨UInt64.ofNat (Format.double.encodeNan false)⟩

def negate (x : Binary64) : Binary64 :=
  ⟨x.bits ^^^ UInt64.ofNat Format.double.signBit⟩

/-- Equality of numbers: no number that is none equals anything, and the two zeros are equal. -/
def same (x y : Binary64) : Bool :=
  !x.isNan && !y.isNan && (x == y || (x.isZero && y.isZero))

/-- The exact fraction of a finite number, without its sign. -/
def ratio (m : Nat) (q : Int) : Nat × Nat :=
  (m * Nat.pow 2 q.toNat, Nat.pow 2 (-q).toNat)

/-- The whole number that a float is, if it is one. -/
def toInt? (x : Binary64) : Option Int :=
  match x.read with
  | .finite negative m q =>
    let (num, den) := ratio m q
    if num % den = 0 then
      let n : Int := (num / den : Nat)
      some (if negative then -n else n)
    else none
  | _ => none

/-- The bits of the nearest number of single precision. -/
def singleBits (x : Binary64) : Nat :=
  match x.read with
  | .nan => Format.single.encodeNan x.isNegative
  | .infinite negative =>
    (if negative then Format.single.signBit else 0) + Format.single.infinityBits
  | .finite negative m q =>
    let (num, den) := ratio m q
    Format.single.encode negative num den

/-- The number of single precision with the given bits, which a double holds exactly. -/
def ofSingleBits (bits : Nat) : Binary64 :=
  match Format.single.read bits with
  | .nan => ⟨UInt64.ofNat (Format.double.encodeNan (Format.single.signBit ≤ bits))⟩
  | .infinite negative => infinity negative
  | .finite negative m q =>
    let (num, den) := ratio m q
    ofRatio negative num den

/-- The nearest number of single precision. -/
def toSingle (x : Binary64) : Binary64 :=
  ofSingleBits x.singleBits

/-- Product of finite numbers. -/
def mul (x y : Binary64) : Binary64 :=
  match x.read, y.read with
  | .finite nx mx qx, .finite ny my qy =>
    let (num, den) := ratio (mx * my) (qx + qy)
    ofRatio (nx != ny) num den
  | _, _ => nan

/-- Quotient of finite numbers, the divisor not zero. -/
def div (x y : Binary64) : Binary64 :=
  match x.read, y.read with
  | .finite nx mx qx, .finite ny my qy =>
    let (num, den) := ratio mx (qx - qy)
    ofRatio (nx != ny) num (den * my)
  | _, _ => nan

end Binary64

end Orm.Number
