import Jpql.Sorting

/-! Page requests. A page is counted from zero, so its first row has index `page * size`. Such an index
has 64 bits. One that takes more wraps around, or stops the program where a build checks its
arithmetic. -/

namespace Jpql

inductive PageRequest where
  | unpaged
  | paged (page size : Nat) (sort : Sorting)
  deriving DecidableEq, Repr

namespace PageRequest

/-- Numbers of rows have 64 bits. -/
def maxRows : Nat := 0xFFFFFFFFFFFFFFFF

/-- What 64 bits hold of a number of rows. -/
def wrapped (n : Nat) : Nat := n % (maxRows + 1)

theorem wrapped_of_le {n : Nat} (h : n ≤ maxRows) : wrapped n = n :=
  Nat.mod_eq_of_lt (Nat.lt_succ_of_le h)

instance : Inhabited PageRequest := ⟨.unpaged⟩

def isPaged : PageRequest → Bool
  | .unpaged => false
  | .paged .. => true

/-- The number of rows before the page. -/
def offset? : PageRequest → Option Nat
  | .unpaged => none
  | .paged page size _ => some (wrapped (page * size))

def size? : PageRequest → Option Nat
  | .unpaged => none
  | .paged _ size _ => some size

def sort : PageRequest → Sorting
  | .unpaged => .unsorted
  | .paged _ _ sort => sort

end PageRequest

end Jpql
