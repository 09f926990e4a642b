import Orm.Bytes

/-
Universally unique identifiers: 128 bits, written as five groups of hexadecimal digits.
-/

namespace Orm

structure Uuid where
  value : BitVec 128
  deriving DecidableEq, Repr

namespace Uuid

def zero : Uuid := ⟨0⟩

def isZero (u : Uuid) : Bool := u.value == 0

def digits (u : Uuid) : List Char := Text.hexFixed 32 u.value.toNat

def text (u : Uuid) : String :=
  let d := u.digits
  String.ofList (d.take 8 ++ ['-'] ++ (d.drop 8).take 4 ++ ['-'] ++ (d.drop 12).take 4 ++ ['-'] ++
    (d.drop 16).take 4 ++ ['-'] ++ d.drop 20)

def bytes (u : Uuid) : List UInt8 :=
  (List.range 16).map fun i => UInt8.ofNat (u.value.toNat / Nat.pow 256 (15 - i))

def ofBytes? (bytes : List UInt8) : Option Uuid :=
  if bytes.length = 16 then
    some ⟨BitVec.ofNat 128 (bytes.foldl (fun n b => 256 * n + b.toNat) 0)⟩
  else none

def ofDigits? (ds : List Char) : Option Uuid :=
  if ds.length = 32 then (Text.hexNat? ds).map fun n => ⟨BitVec.ofNat 128 n⟩ else none

/-- The five groups with the hyphens between them. -/
def hyphenated? (cs : List Char) : Option Uuid :=
  if cs.length = 36 ∧ [8, 13, 18, 23].all (fun i => cs[i]? == some '-') then
    ofDigits? (cs.take 8 ++ (cs.drop 9).take 4 ++ (cs.drop 14).take 4 ++ (cs.drop 19).take 4 ++
      cs.drop 24)
  else none

def urn : List Char := ['u', 'r', 'n', ':', 'u', 'u', 'i', 'd', ':']

/-- The digits alone, or the groups with hyphens, which may stand in braces or after `urn:uuid:`. -/
def ofText? (s : String) : Option Uuid :=
  let cs := s.toList
  if cs.length = 32 then ofDigits? cs
  else if cs.length = 36 then hyphenated? cs
  else if cs.length = 38 ∧ cs.head? = some '\x7b' ∧ cs.getLast? = some '\x7d' then
    hyphenated? ((cs.drop 1).take 36)
  else if urn.isPrefixOf cs then hyphenated? (cs.drop 9)
  else none

end Uuid

end Orm
