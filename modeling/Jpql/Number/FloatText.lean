import Jpql.Number.Shortest

/-! Text forms of binary64 values. `plain` always writes positionally and drops a zero fraction;
`tagged` keeps `.0` and goes over to an exponent outside `1e-4 ≤ x < 1e16`; `fixed` has a set number
of places. -/

namespace Jpql.Number

def isNegativeBits (x : Float) : Bool := decide (x.toBits ≥ 0x8000000000000000)

def magnitude (x : Float) : Binary := Binary.ofBits (x.toBits &&& 0x7FFFFFFFFFFFFFFF)

def zeros (n : Nat) : List Char := List.replicate n '0'

/-- Integer digits and fraction digits of a decimal; the fraction has no zeros at its end. -/
def Decimal.parts (d : Decimal) : List Char × List Char :=
  let ds := (Nat.repr d.digits).toList
  if 0 ≤ d.exp then (if d.digits == 0 then ['0'] else ds ++ zeros d.exp.toNat, [])
  else
    let places := d.exp.natAbs
    let padded := zeros (places + 1 - ds.length) ++ ds
    let split := padded.length - places
    let fraction := ((padded.drop split).reverse.dropWhile (· == '0')).reverse
    (padded.take split, fraction)

def signed (x : Float) (finite : Binary → String) : String :=
  if x.isNaN then "NaN"
  else (if isNegativeBits x then "-" else "") ++ (if x.isInf then "inf" else finite (magnitude x))

/-- Every digit in its place, without exponent; an integer has no point. -/
def plain (x : Float) : String :=
  signed x fun b =>
    let (whole, fraction) := b.shortest.parts
    String.ofList (whole ++ (if fraction.isEmpty then [] else '.' :: fraction))

/-- As `plain`, with a point in every case. -/
def withPoint (x : Float) : String :=
  signed x fun b =>
    let (whole, fraction) := b.shortest.parts
    String.ofList (whole ++ '.' :: (if fraction.isEmpty then ['0'] else fraction))

/-- One digit, the others behind a point, and the exponent. -/
def Decimal.scientific (d : Decimal) : String :=
  let ds := (Nat.repr d.digits).toList
  let e := d.exp + (ds.length : Int) - 1
  let tail := (ds.tail.reverse.dropWhile (· == '0')).reverse
  String.ofList (ds.take 1 ++ (if tail.isEmpty then [] else '.' :: tail)) ++ "e" ++ toString e

def tagged (x : Float) : String :=
  let b := magnitude x
  if x.isNaN || x.isInf || b.m == 0 || (1e-4 ≤ x.abs && x.abs < 1e16) then withPoint x
  else signed x fun b => b.shortest.scientific

def fixed (places : Nat) (x : Float) : String :=
  signed x fun b =>
    let ds := (Nat.repr (b.fixed places)).toList
    let padded := zeros (places + 1 - ds.length) ++ ds
    let split := padded.length - places
    String.ofList (padded.take split ++ (if places == 0 then [] else '.' :: padded.drop split))

end Jpql.Number
