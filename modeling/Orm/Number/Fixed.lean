import Orm.Number.Binary
import Orm.Text.Words

/-
Decimal numbers with a fixed point: a mantissa of 96 bits, of whose digits the last `scale` stand
behind the point.

The scale belongs to the number: `1.50` and `1.5` are written as they are. A result whose digits do
not fit is rounded to fewer places, and there is none if its whole part does not fit.
-/

namespace Orm.Number

/-- The bound that every mantissa stays below. -/
def mantissaBound : Nat := Nat.pow 2 96

/-- The most decimal places of a number that is read or computed. -/
def maxPlaces : Nat := 28

structure Fixed where
  negative : Bool
  mantissa : Nat
  scale : Nat
  fits : mantissa < mantissaBound
  deriving DecidableEq, Repr

namespace Fixed

def zero : Fixed := ⟨false, 0, 0, by decide⟩

def of? (negative : Bool) (mantissa scale : Nat) : Option Fixed :=
  if h : mantissa < mantissaBound then some ⟨negative, mantissa, scale, h⟩ else none

theorem int64_fits (n : Int64) : n.toInt.natAbs < mantissaBound := by
  have h1 := n.le_toInt
  have h2 := n.toInt_lt
  simp only [mantissaBound, Nat.pow_eq]
  omega

def ofInt64 (n : Int64) : Fixed :=
  ⟨n.toInt < 0, n.toInt.natAbs, 0, int64_fits n⟩

/-! ## Text -/

/-- The digits with the point before the last `scale` of them. -/
def text (x : Fixed) : String :=
  let digits := (Text.padLeft (x.scale + 1) '0' (toString x.mantissa)).toList
  let whole := digits.length - x.scale
  (if x.negative then "-" else "") ++ String.ofList (digits.take whole) ++
    (if x.scale = 0 then "" else "." ++ String.ofList (digits.drop whole))

/-- What has been read of a numeral. -/
structure Numeral where
  negative : Bool
  mantissa : Nat := 0
  scale : Nat := 0
  /-- Whether the point has been read. -/
  point : Bool := false
  /-- Whether a digit has been read. -/
  digit : Bool := false

namespace Numeral

/-- Zero has no sign. -/
def finish? (s : Numeral) : Option Fixed :=
  if s.digit then of? (s.negative && s.mantissa != 0) s.mantissa s.scale else none

/--
Rounds by the next digit, a half away from zero, and ends the numeral: what stands behind that digit
is not looked at. A mantissa that rounding makes too large loses its last place.
-/
def round? (s : Numeral) (next : Char) : Option Fixed := do
  let d ← if next = '_' ∨ next = '.' then some 0 else digitValue? next
  if d < 5 then s.finish?
  else if s.mantissa + 1 < mantissaBound then finish? { s with mantissa := s.mantissa + 1 }
  else if s.scale = 0 then none
  else finish? { s with mantissa := (s.mantissa + 5) / 10, scale := s.scale - 1 }

/-- Reads on: digits, single underscores after a digit, and one point. -/
def read? (s : Numeral) : List Char → Option Fixed
  | [] => s.finish?
  | c :: rest =>
    if s.point && maxPlaces ≤ s.scale then s.round? c
    else if c = '.' && !s.point then read? { s with point := true } rest
    else if c = '_' && s.digit then read? s rest
    else
      match digitValue? c with
      | none => none
      | some d =>
        let mantissa := 10 * s.mantissa + d
        if mantissa < mantissaBound then
          read? { s with mantissa, scale := if s.point then s.scale + 1 else 0, digit := true } rest
        else if s.point then s.round? c
        else none

end Numeral

/-- A decimal numeral with an optional sign and without exponent. -/
def ofText? (s : String) : Option Fixed :=
  match s.toList with
  | '-' :: cs => Numeral.read? { negative := true } cs
  | '+' :: cs => Numeral.read? { negative := false } cs
  | cs => Numeral.read? { negative := false } cs

/-! ## Scale -/

theorem rounded_fits {m : Nat} (h : m < mantissaBound) (k : Nat) :
    (m / Nat.pow 10 k + 5) / 10 < mantissaBound := by
  have : m / Nat.pow 10 k ≤ m := Nat.div_le_self _ _
  simp only [mantissaBound, Nat.pow_eq] at *
  omega

/-- Fewer places, a half away from zero. -/
def lowered (x : Fixed) (scale : Nat) : Fixed :=
  ⟨x.negative, (x.mantissa / Nat.pow 10 (x.scale - scale - 1) + 5) / 10, scale,
    rounded_fits x.fits _⟩

/-- More places, as far as the digits fit. -/
def raised (x : Fixed) : Nat → Fixed
  | 0 => x
  | n + 1 =>
    if h : 10 * x.mantissa < mantissaBound then
      raised ⟨x.negative, 10 * x.mantissa, x.scale + 1, h⟩ n
    else x

def withScale (x : Fixed) (scale : Nat) : Fixed :=
  if x.mantissa = 0 then { x with scale := min scale maxPlaces }
  else if scale < x.scale then x.lowered scale
  else x.raised (scale - x.scale)

/-! ## Sums -/

/-- The places to give up so that a mantissa fits. -/
def excess (m : Nat) : Nat → Nat
  | 0 => 0
  | n + 1 => if m < mantissaBound then 0 else excess (m / 10) n + 1

/-- The number nearest to `m / 10 ^ scale`, a half to the even neighbour. -/
def nearest? (m scale : Nat) : Option Fixed :=
  let k := excess m (scale + 1)
  if scale < k then none
  else
    match of? false (Format.roundQuotient m (Nat.pow 10 k)) (scale - k) with
    | some x => some x
    | none =>
      if k < scale then of? false (Format.roundQuotient m (Nat.pow 10 (k + 1))) (scale - k - 1)
      else none

/-- The sum with `m / 10 ^ scale`, of a number that is not negative. -/
def plus? (x : Fixed) (m scale : Nat) : Option Fixed :=
  let places := max x.scale scale
  nearest? (x.mantissa * Nat.pow 10 (places - x.scale) + m * Nat.pow 10 (places - scale)) places

/-! ## Floats -/

/-- `m * 2 ^ -n` with a power of ten apart, by halving and by multiplying by five while that fits. -/
def scaledDown : Nat → Nat → Int → Nat × Int
  | 0, m, e => (m, e)
  | n + 1, m, e =>
    if m % 2 = 0 then scaledDown n (m / 2) (e + 1)
    else if 5 * m < mantissaBound then scaledDown n (5 * m) e
    else scaledDown n (m / 2) (e + 1)

/-- `m * 2 ^ n` with a power of ten apart, by doubling while that fits. -/
def scaledUp : Nat → Nat → Int → Nat × Int
  | 0, m, e => (m, e)
  | n + 1, m, e =>
    if 2 * m < mantissaBound then scaledUp n (2 * m) (e - 1) else scaledUp n (m / 5) e

/-- `m * 10 ^ n`. -/
def tens? : Nat → Nat → Option Nat
  | 0, m => some m
  | n + 1, m => if 10 * m < mantissaBound then tens? n (10 * m) else none

/-- One digit less, a half away from zero. -/
def tenth (m : Nat) : Nat :=
  (m + 5) / 10

/-- At most `maxPlaces` places; a mantissa that is used up leaves a plain zero. -/
def capped : Nat → Nat → Nat → Nat × Nat
  | 0, m, scale => (m, scale)
  | n + 1, m, scale =>
    if scale ≤ maxPlaces then (m, scale)
    else if m < 10 then (0, 0)
    else capped n (tenth m) (scale - 1)

/-- No more places than a float is sure of. -/
def trimmed : Nat → Nat → Nat × Nat
  | 0, m => (m, 0)
  | scale + 1, m => if m < Nat.pow 2 52 then (m, scale + 1) else trimmed scale (tenth m)

def withoutZeros : Nat → Nat → Nat × Nat
  | 0, m => (m, 0)
  | scale + 1, m => if m % 10 = 0 then withoutZeros scale (m / 10) else (m, scale + 1)

/-- The decimal that a float stands for, to the digits that it is sure of. -/
def ofFloat? (x : Binary64) : Option Fixed :=
  match x.read with
  | .finite negative m q =>
    if m = 0 then some { zero with negative }
    else
      let (m, e) := if q < 0 then scaledDown (-q).toNat m q else scaledUp q.toNat m q
      if 0 < e then (tens? e.toNat m).bind fun m => of? negative m 0
      else
        let (m, scale) := capped (-e).toNat m (-e).toNat
        let (m, scale) := trimmed scale m
        let (m, scale) := withoutZeros scale m
        of? negative m scale
  | _ => none

end Fixed

end Orm.Number
