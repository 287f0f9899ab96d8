/-! Orders on properties and sorts, which are lists of orders from the most to the least
significant. An order may be marked as a raw expression: then its property is query text that the
caller vouches for, and is neither checked nor resolved. -/

namespace Jpql

inductive Direction where
  | asc | desc
  deriving DecidableEq, Repr, Hashable

namespace Direction

def label : Direction → String
  | .asc => "ASC"
  | .desc => "DESC"

def keyword : Direction → String
  | .asc => "asc"
  | .desc => "desc"

def isAscending : Direction → Bool
  | .asc => true
  | .desc => false

def reverse : Direction → Direction
  | .asc => .desc
  | .desc => .asc

end Direction

/-- Where nulls stand; `native` leaves it to the database. -/
inductive NullHandling where
  | native | first | last
  deriving DecidableEq, Repr, Hashable

structure Order where
  property : String
  direction : Direction := .asc
  ignoreCase : Bool := false
  nulls : NullHandling := .native
  rawExpression : Bool := false
  deriving DecidableEq, Repr, Hashable

namespace Order

def isAscending (o : Order) : Bool := o.direction.isAscending

def isDescending (o : Order) : Bool := !o.isAscending

def withDirection (o : Order) (d : Direction) : Order := { o with direction := d }

def reversed (o : Order) : Order := o.withDirection o.direction.reverse

def render (o : Order) : String :=
  o.property ++ ": " ++ o.direction.label ++ (if o.ignoreCase then ", ignoring case" else "")

end Order

/-- Orders from the most to the least significant; without any the sort is unsorted. -/
structure Sorting where
  orders : List Order := []
  deriving DecidableEq, Repr, Hashable

namespace Sorting

def unsorted : Sorting := {}

/-- One order in the given direction for each property. -/
def byDirection (d : Direction) (properties : List String) : Sorting :=
  ⟨properties.map fun p => { property := p, direction := d }⟩

def ofProperties (properties : List String) : Sorting := byDirection .asc properties

def isSorted (s : Sorting) : Bool := !s.orders.isEmpty

def size (s : Sorting) : Nat := s.orders.length

/-- The first order on a property. -/
def orderFor? (s : Sorting) (property : String) : Option Order :=
  s.orders.find? (·.property == property)

def and (s t : Sorting) : Sorting := ⟨s.orders ++ t.orders⟩

def reverse (s : Sorting) : Sorting := ⟨s.orders.map Order.reversed⟩

def withDirection (s : Sorting) (d : Direction) : Sorting := ⟨s.orders.map (·.withDirection d)⟩

def render (s : Sorting) : String :=
  if s.orders.isEmpty then "UNSORTED" else ", ".intercalate (s.orders.map Order.render)

@[simp] theorem orders_and (s t : Sorting) : (s.and t).orders = s.orders ++ t.orders := rfl

@[simp] theorem orders_reverse (s : Sorting) : s.reverse.orders = s.orders.map Order.reversed := rfl

end Sorting

end Jpql
