import Jpql.Text.Search

/-! Universally unique identifiers, written as five groups of lower-case hexadecimal digits. -/

namespace Jpql

structure Uuid where
  bits : BitVec 128
  deriving DecidableEq

namespace Uuid

/-- The number of hexadecimal digits in each group. -/
def groups : List Nat := [8, 4, 4, 4, 12]

def hexDigit? (c : Char) : Option Nat :=
  if c.isDigit then some (c.toNat - '0'.toNat)
  else if 'a' ≤ c ∧ c ≤ 'f' then some (c.toNat - 'a'.toNat + 10)
  else if 'A' ≤ c ∧ c ≤ 'F' then some (c.toNat - 'A'.toNat + 10)
  else none

def cut : List Nat → List Char → List (List Char)
  | [], _ => []
  | n :: ns, cs => cs.take n :: cut ns (cs.drop n)

def render (u : Uuid) : String :=
  let digits := Nat.toDigits 16 u.bits.toNat
  let padded := List.replicate (32 - digits.length) '0' ++ digits
  "-".intercalate ((cut groups padded).map String.ofList)

/-- What is inside braces or behind the `urn:uuid:` of a resource name, which is read without regard
to case, else the text itself. -/
def unwrapped (cs : List Char) : List Char :=
  match cs, Text.stripFolded? "urn:uuid:".toList cs with
  | _, some (_, r) => r
  | '\x7b' :: r, none => if r.getLast? == some '\x7d' then r.dropLast else cs
  | _, none => cs

/-- Accepts the grouped form, which may be wrapped, and the plain 32 digits, in either case. -/
def ofString? (s : String) : Option Uuid := do
  let cs := unwrapped s.toList
  let digits := cs.filter (· != '-')
  let grouped := "-".intercalate ((cut groups digits).map String.ofList)
  guard (digits.length == 32 && (String.ofList cs == grouped || digits == s.toList))
  let values ← digits.mapM hexDigit?
  return ⟨BitVec.ofNat 128 (values.foldl (fun n d => 16 * n + d) 0)⟩

end Uuid

end Jpql
