/-! The shortest decimal that reads back to a binary64 value. A finite value is `m * 2 ^ q`; the
reals that round to it form an interval whose ends belong to it exactly when `m` is even. Of all
decimals in the interval the one with the fewest digits is taken, of two such the nearer, of two
equally near the larger. All comparisons are exact, in natural numbers. -/

namespace Jpql.Number

/-- A finite non-negative binary64 value `m * 2 ^ q`. Below a power of two the gap to the neighbour
is half the gap above it. -/
structure Binary where
  m : Nat
  q : Int
  narrowBelow : Bool

/-- The magnitude that the bits of a finite value stand for. -/
def Binary.ofBits (bits : UInt64) : Binary :=
  let e := ((bits >>> 52) &&& 0x7FF).toNat
  let f := (bits &&& 0xFFFFFFFFFFFFF).toNat
  if e == 0 then ⟨f, -1074, false⟩
  else ⟨0x10000000000000 + f, (e : Int) - 1075, f == 0 && decide (1 < e)⟩

/-- The decimal `digits * 10 ^ exp`. -/
structure Decimal where
  digits : Nat
  exp : Int
  deriving DecidableEq, Repr

/-- Compares `a * 10 ^ i` with `n * 2 ^ j`. -/
def cmpScaled (a : Nat) (i : Int) (n : Nat) (j : Int) : Ordering :=
  compare (a * Nat.pow 10 i.toNat * Nat.pow 2 (-j).toNat)
    (n * Nat.pow 2 j.toNat * Nat.pow 10 (-i).toNat)

/-- Whether `d` lies among the reals that round to `x`. -/
def Binary.readsBack (x : Binary) (d : Decimal) : Bool :=
  let lo := if x.narrowBelow then 4 * x.m - 1 else 4 * x.m - 2
  let hi := 4 * x.m + 2
  let closed := x.m % 2 == 0
  let below := cmpScaled d.digits d.exp lo (x.q - 2)
  let above := cmpScaled d.digits d.exp hi (x.q - 2)
  (below == .gt || (closed && below == .eq)) && (above == .lt || (closed && above == .eq))

/-- The integer part of `x * 10 ^ e`. -/
def Binary.scaled (x : Binary) (e : Int) : Nat :=
  (x.m * Nat.pow 2 x.q.toNat * Nat.pow 10 e.toNat) /
    (Nat.pow 2 (-x.q).toNat * Nat.pow 10 (-e).toNat)

/-- The least `k` with `x < 10 ^ k`, for a positive `x`: no positive value has its first digit
beyond the 400th decimal place. -/
def Binary.scale (x : Binary) : Int := ((Nat.repr (x.scaled 400)).length : Int) - 400

/-- The better of the two neighbours of `x` on the grid of `n` digits, if one reads back. -/
def Binary.onGrid? (x : Binary) (n : Nat) : Option Decimal :=
  let e := x.scale - n
  let lower : Decimal := ⟨x.scaled (-e), e⟩
  let upper : Decimal := ⟨lower.digits + 1, e⟩
  match x.readsBack lower, x.readsBack upper with
  | true, true =>
    -- the sum of the neighbours against twice the value
    if cmpScaled (lower.digits + upper.digits) e x.m (x.q + 1) == .gt then some lower
    else some upper
  | true, false => some lower
  | false, true => some upper
  | false, false => none

/-- All decimal digits of `x`. -/
def Binary.exact (x : Binary) : Decimal :=
  if 0 ≤ x.q then ⟨x.m * Nat.pow 2 x.q.toNat, 0⟩ else ⟨x.m * Nat.pow 5 (-x.q).toNat, x.q⟩

def Binary.shortest (x : Binary) : Decimal :=
  if x.m == 0 then ⟨0, 0⟩
  else ((List.range 17).findSome? fun n => x.onGrid? (n + 1)).getD x.exact

/-- The quotient rounded to the nearest integer, a half to the even one. -/
def roundHalfEven (num den : Nat) : Nat :=
  let q := num / den
  match compare (2 * (num % den)) den with
  | .lt => q
  | .gt => q + 1
  | .eq => if q % 2 == 0 then q else q + 1

/-- The value times `10 ^ places`, rounded to an integer. -/
def Binary.fixed (x : Binary) (places : Nat) : Nat :=
  roundHalfEven (x.m * Nat.pow 2 x.q.toNat * Nat.pow 10 places) (Nat.pow 2 (-x.q).toNat)

end Jpql.Number
