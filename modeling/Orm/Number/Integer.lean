/-
Reading whole numbers from text.

A number is a sign that may be missing and at least one ASCII digit, with nothing around them;
an integer type accepts it if the value lies in its range.
-/

namespace Orm.Number

/-- Why a text is not a number of a type. -/
inductive IntegerFault where
  | empty
  | invalidDigit
  | tooLarge
  | tooSmall
  deriving DecidableEq, Repr

def IntegerFault.message : IntegerFault → String
  | .empty => "cannot parse integer from empty string"
  | .invalidDigit => "invalid digit found in string"
  | .tooLarge => "number too large to fit in target type"
  | .tooSmall => "number too small to fit in target type"

def digitValue? (c : Char) : Option Nat :=
  if '0' ≤ c ∧ c ≤ '9' then some (c.toNat - 48) else none

def isDigit (c : Char) : Bool :=
  (digitValue? c).isSome

/-- The value of a row of decimal digits, none for the empty row. -/
def digits? : List Char → Option Nat
  | [] => none
  | cs => cs.foldlM (fun n c => (digitValue? c).map (10 * n + ·)) 0

/-- The value of decimal digits; characters that are none are passed over. -/
def digitsValue (cs : List Char) : Nat :=
  cs.foldl (fun n c => 10 * n + (digitValue? c).getD 0) 0

/-- A range of integers that a type holds. -/
structure IntRange where
  lo : Int
  hi : Int
  deriving DecidableEq, Repr

def IntRange.contains (r : IntRange) (n : Int) : Bool :=
  r.lo ≤ n && n ≤ r.hi

def IntRange.signed (bits : Nat) : IntRange :=
  ⟨-(Nat.pow 2 (bits - 1) : Nat), (Nat.pow 2 (bits - 1) : Nat) - 1⟩

def IntRange.unsigned (bits : Nat) : IntRange := ⟨0, (Nat.pow 2 bits : Nat) - 1⟩

/-- On which side of the range a number lies. -/
def IntRange.fault? (r : IntRange) (n : Int) : Option IntegerFault :=
  if n < r.lo then some .tooSmall else if r.hi < n then some .tooLarge else none

/-- Whether some value of the type carries a minus sign. -/
def IntRange.hasNegative (r : IntRange) : Bool := r.lo < 0

/--
Digits are checked from the left, and the value is too large or too small as soon as the digits
read so far are; a minus sign belongs to a number only if the type has negative values.
-/
def readDigits (r : IntRange) (negative : Bool) : Int → List Char → Except IntegerFault Int
  | n, [] => .ok n
  | n, c :: cs =>
    match digitValue? c with
    | none => .error .invalidDigit
    | some d =>
      let next := if negative then 10 * n - d else 10 * n + d
      if next < r.lo then .error .tooSmall
      else if r.hi < next then .error .tooLarge
      else readDigits r negative next cs

def readInteger (r : IntRange) (s : String) : Except IntegerFault Int :=
  match s.toList with
  | [] => .error .empty
  | ['+'] | ['-'] => .error .invalidDigit
  | '+' :: cs => readDigits r false 0 cs
  | '-' :: cs => if r.hasNegative then readDigits r true 0 cs else .error .invalidDigit
  | cs => readDigits r false 0 cs

def integer? (r : IntRange) (s : String) : Option Int :=
  (readInteger r s).toOption

end Orm.Number
