/-
Texts and whole numbers as bytes: the UTF-8 form of a text, hexadecimal digits, and the bytes of a number.
-/

namespace Orm

namespace Text

/-! ## UTF-8 -/

def utf8 (s : String) : List UInt8 :=
  s.toUTF8.toList

def ofUtf8? (bytes : List UInt8) : Option String :=
  String.fromUTF8? (ByteArray.mk bytes.toArray)

/-! ## Hexadecimal digits -/

/-- The lower-case digit of a value below sixteen. -/
def hexDigit (n : Nat) : Char :=
  if n < 10 then Char.ofNat (48 + n) else Char.ofNat (87 + n)

def hexValue? (c : Char) : Option Nat :=
  if '0' ≤ c ∧ c ≤ '9' then some (c.toNat - 48)
  else if 'a' ≤ c ∧ c ≤ 'f' then some (c.toNat - 87)
  else if 'A' ≤ c ∧ c ≤ 'F' then some (c.toNat - 55)
  else none

/-- The lowest `width` hexadecimal digits of `n`, the highest first. -/
def hexFixed : Nat → Nat → List Char
  | 0, _ => []
  | width + 1, n => hexFixed width (n / 16) ++ [hexDigit (n % 16)]

/-- The hexadecimal digits of `n` without leading zeros. -/
def hexOfNat (n : Nat) : String :=
  String.ofList (hexFixed (n.log2 / 4 + 1) n)

/-- The value of a text of hexadecimal digits; the empty text has none. -/
def hexNat? : List Char → Option Nat
  | [] => none
  | cs => cs.foldlM (fun n c => (hexValue? c).map (16 * n + ·)) 0

def hexOfBytes (bytes : List UInt8) : String :=
  String.ofList (bytes.flatMap fun b => hexFixed 2 b.toNat)

def bytesOfHexList : List Char → Option (List UInt8)
  | [] => some []
  | [_] => none
  | a :: b :: rest => do
    let hi ← hexValue? a
    let lo ← hexValue? b
    let bytes ← bytesOfHexList rest
    return UInt8.ofNat (16 * hi + lo) :: bytes

def bytesOfHex? (s : String) : Option (List UInt8) :=
  bytesOfHexList s.toList

end Text

/-! ## Whole numbers, the highest byte first -/

namespace Number

/-- The lowest `width` bytes of a number. -/
def bigEndian : Nat → Nat → List UInt8
  | 0, _ => []
  | width + 1, n => bigEndian width (n / 256) ++ [UInt8.ofNat n]

/-- A number that may be negative, as its complement to the next power of 256. -/
def signedBigEndian (width : Nat) (n : Int) : List UInt8 :=
  bigEndian width (n % (Nat.pow 256 width : Nat)).toNat

def ofBigEndian (bytes : List UInt8) : Nat :=
  bytes.foldl (fun n b => 256 * n + b.toNat) 0

/-- The upper half of the numbers of so many bytes stands for the negative ones. -/
def ofSignedBigEndian (bytes : List UInt8) : Int :=
  let n := ofBigEndian bytes
  if 2 * n < Nat.pow 256 bytes.length then n else n - (Nat.pow 256 bytes.length : Nat)

/-- A number of exactly `width` bytes. -/
def unsigned? (width : Nat) (bytes : List UInt8) : Option Nat :=
  if bytes.length = width then some (ofBigEndian bytes) else none

def signed? (width : Nat) (bytes : List UInt8) : Option Int :=
  if bytes.length = width then some (ofSignedBigEndian bytes) else none

end Number

end Orm
