import Orm.Number.Binary

/-
The fewest decimal digits that identify a floating-point number.

Among the decimals that round to the number, `shortest` takes one with the fewest digits, and of
two such the nearer. The search tries one digit, then two, and so on: on each grid of decimals only
the two neighbours of the number can be the nearest, so only these are tested.
-/

namespace Orm.Number

/-- A decimal `d₀.d₁d₂… * 10 ^ exponent`, by its digits. -/
structure Scientific where
  digits : List Char
  exponent : Int
  deriving DecidableEq, Repr

/-- Which of two equally near decimals is taken. -/
inductive Tie where
  | up
  | toEven
  deriving DecidableEq, Repr

/-- The decimals that round to a number: a fraction `x` with `lo / den ≤ x ≤ hi / den`. -/
structure Interval where
  lo : Nat
  value : Nat
  hi : Nat
  den : Nat
  closed : Bool

/--
The reals between the midpoints to the neighbours of `m * 2 ^ q`, the ends included iff `m` is
even; the gap below a power of two is half as wide.
-/
def Format.interval (f : Format) (m : Nat) (q : Int) : Interval :=
  let below := if m = Nat.pow 2 (f.precision - 1) && f.minExponent < q then 1 else 2
  let scale := Nat.pow 2 (q - 2).toNat
  { lo := (4 * m - below) * scale
    value := 4 * m * scale
    hi := (4 * m + 2) * scale
    den := Nat.pow 2 (2 - q).toNat
    closed := m % 2 == 0 }

def Interval.contains (i : Interval) (num den : Nat) : Bool :=
  let x := num * i.den
  if i.closed then i.lo * den ≤ x && x ≤ i.hi * den else i.lo * den < x && x < i.hi * den

/-- The exponent of the first digit of `num / den`. -/
def floorLog10 (num den : Nat) : Int :=
  if den ≤ num then ((Nat.toDigits 10 (num / den)).length : Int) - 1
  else -((Nat.toDigits 10 ((den - 1) / num)).length : Int)

/-- `n * 10 ^ k` by its digits, without trailing zeros. -/
def Scientific.ofScaled (n : Nat) (k : Int) : Scientific :=
  let ds := Nat.toDigits 10 n
  let kept := (ds.reverse.dropWhile (· == '0')).reverse
  ⟨if kept.isEmpty then ['0'] else kept, k + (ds.length : Int) - 1⟩

/-- The nearer neighbour of the number among the multiples of `10 ^ k` that identify it. -/
def Interval.onGrid? (i : Interval) (tie : Tie) (k : Int) : Option Nat :=
  let up := Nat.pow 10 k.toNat
  let down := Nat.pow 10 (-k).toNat
  let num := i.value * down
  let den := i.den * up
  let n := num / den
  let below := i.contains (n * up) down
  let above := i.contains ((n + 1) * up) down
  let twice := 2 * (num % den)
  let takeAbove := den < twice || (twice == den && (tie == .up || n % 2 == 1))
  if below && above then some (if takeAbove then n + 1 else n)
  else if below then some n
  else if above then some (n + 1)
  else none

/-- Seventeen digits always suffice for a double; the exact decimal stands for a search without result. -/
def Interval.search (i : Interval) (tie : Tie) (first : Int) : Nat → Nat → Scientific
  | 0, _ => .ofScaled (i.value * Nat.pow 10 (1100 : Nat) / i.den) (-1100)
  | fuel + 1, n =>
    let k := first - n
    match i.onGrid? tie k with
    | some d => .ofScaled d k
    | none => i.search tie first fuel (n + 1)

def Format.shortest (f : Format) (tie : Tie) (m : Nat) (q : Int) : Scientific :=
  if m = 0 then ⟨['0'], 0⟩ else
  let i := f.interval m q
  i.search tie (floorLog10 i.value i.den) 20 0

end Orm.Number
