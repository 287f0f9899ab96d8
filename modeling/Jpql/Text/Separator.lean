import Jpql.Text.CodeRange

/-! Characters that separate words without being seen: blanks of every kind, control characters and
format characters. -/

namespace Jpql.Text

/-- The separators, control and format characters beyond ASCII. -/
def separatorRanges : List CodeRange :=
  [(128, 160), (173, 173), (1536, 1541), (1564, 1564), (1757, 1757), (1807, 1807), (2192, 2193),
    (2274, 2274), (5760, 5760), (6158, 6158), (8192, 8207), (8232, 8239), (8287, 8292),
    (8294, 8303), (12288, 12288), (65279, 65279), (65529, 65531), (69821, 69821),
    (69837, 69837), (78896, 78911), (113824, 113827), (119155, 119162), (917505, 917505),
    (917536, 917631)]

def isSeparator (c : Char) : Bool :=
  if isAscii c then decide (c.toNat ≤ 32) || c.toNat == 127 else inRanges separatorRanges c

end Jpql.Text
