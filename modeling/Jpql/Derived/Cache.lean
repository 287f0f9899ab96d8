import Jpql.Parameters

/-! A cache of finished queries. The text of a derived query depends on the sort and on which
arguments are null, so these are the key. When the cache is full, the entry whose last use is the
longest ago gives way. -/

namespace Jpql.Derived

structure CacheKey where
  sort : Sorting
  nulls : List Bool
  deriving DecidableEq, Repr

def CacheKey.of (sort : Sorting) (a : Arguments) : CacheKey := ⟨sort, a.values.map (·.2.isNull)⟩

def defaultCapacity : Nat := 256

/-- Entries from the last to the first used. -/
structure QueryCache (α : Type) where
  capacity : Nat
  entries : List (CacheKey × α) := []

namespace QueryCache

variable {α : Type}

/-- An empty cache, which has room for at least one entry. -/
def ofCapacity (capacity : Nat) : QueryCache α := { capacity := max 1 capacity }

def size (c : QueryCache α) : Nat := c.entries.length

def isEmpty (c : QueryCache α) : Bool := c.entries.isEmpty

/-- The entry of a key, and the cache after its use. -/
def get? (c : QueryCache α) (key : CacheKey) : Option (α × QueryCache α) :=
  match c.entries.find? (·.1 == key) with
  | some e => some (e.2, { c with entries := e :: c.entries.filter (·.1 != key) })
  | none => none

def put (c : QueryCache α) (key : CacheKey) (a : α) : QueryCache α :=
  { c with entries := ((key, a) :: c.entries.filter (·.1 != key)).take c.capacity }

end QueryCache

end Jpql.Derived
