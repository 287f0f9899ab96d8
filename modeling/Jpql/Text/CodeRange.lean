/-! Sets of characters as closed ranges of code points. The character classes of this folder are the
properties of Unicode 15.0; each answers for the ASCII characters by a direct test and looks all
other characters up in a list of ranges. -/

namespace Jpql.Text

/-- The code points from `.1` to `.2`, both included. -/
abbrev CodeRange := Nat × Nat

def CodeRange.covers (r : CodeRange) (n : Nat) : Bool := decide (r.1 ≤ n) && decide (n ≤ r.2)

def inRanges (ranges : List CodeRange) (c : Char) : Bool := ranges.any (·.covers c.toNat)

def isAscii (c : Char) : Bool := decide (c.toNat < 128)

end Jpql.Text
