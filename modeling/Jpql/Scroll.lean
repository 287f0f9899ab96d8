import Jpql.Paging
import Jpql.Value

/-! Scroll positions and windows. A position is either the offset of the last row seen, or a cursor:
the last row's values of the sort keys together with the direction to go on in. A window is the
part of a result that one scroll step returns, with a position for each of its rows. -/

namespace Jpql

inductive ScrollDirection where
  | forward | backward
  deriving DecidableEq, Repr

namespace ScrollDirection

def reverse : ScrollDirection → ScrollDirection
  | .forward => .backward
  | .backward => .forward

def name : ScrollDirection → String
  | .forward => "Forward"
  | .backward => "Backward"

end ScrollDirection

/-- Sort keys of a row in order of their first mention. -/
structure Cursor where
  keys : List (String × Value) := []
  direction : ScrollDirection := .forward

namespace Cursor

def initial : Cursor := {}

/-- Sets a key; one that is present keeps its place. -/
def putKey (key : String) (value : Value) : List (String × Value) → List (String × Value)
  | [] => [(key, value)]
  | (k, v) :: rest => if k == key then (k, value) :: rest else (k, v) :: putKey key value rest

def ofKeys (direction : ScrollDirection) (keys : List (String × Value)) : Cursor :=
  ⟨keys.foldl (fun acc kv => putKey kv.1 kv.2 acc) [], direction⟩

def isInitial (c : Cursor) : Bool := c.keys.isEmpty

def get? (c : Cursor) (key : String) : Option Value :=
  (c.keys.find? (·.1 == key)).map (·.2)

theorem find?_putKey (key : String) (value : Value) (kvs : List (String × Value)) :
    (putKey key value kvs).find? (·.1 == key) = some (key, value) := by
  induction kvs with
  | nil => simp [putKey]
  | cons kv rest ih =>
    simp only [putKey]
    split
    next h => simp [eq_of_beq h]
    next h => simp [h, ih]

def contains (c : Cursor) (key : String) : Bool := (c.get? key).isSome

def reverse (c : Cursor) : Cursor := { c with direction := c.direction.reverse }

end Cursor

inductive ScrollPosition where
  /-- The offset of the last row seen; none before the first row. -/
  | offset (last : Option Nat)
  | keyset (cursor : Cursor)

namespace ScrollPosition

/-- The index of the first row after an offset position. -/
def startAfter : Option Nat → Nat
  | none => 0
  | some n => PageRequest.wrapped (n + 1)

def isInitial : ScrollPosition → Bool
  | .offset last => last.isNone
  | .keyset c => c.isInitial

end ScrollPosition

/-- Rows with their positions, and whether more rows follow in the direction of scrolling. -/
structure Window (α : Type) where
  entries : List (α × ScrollPosition)
  hasNext : Bool

namespace Window

variable {α : Type}

/-- Gives each row the position that `positionOf` states for its index. -/
def ofRows (rows : List α) (positionOf : Nat → α → ScrollPosition) (hasNext : Bool) : Window α :=
  ⟨rows.zipIdx.map fun (row, i) => (row, positionOf i row), hasNext⟩

def content (w : Window α) : List α := w.entries.map (·.1)

def size (w : Window α) : Nat := w.entries.length

def isEmpty (w : Window α) : Bool := w.entries.isEmpty

def isLast (w : Window α) : Bool := !w.hasNext

def positionAt? (w : Window α) (i : Nat) : Option ScrollPosition := w.entries[i]?.map (·.2)

def lastPosition? (w : Window α) : Option ScrollPosition := w.entries.getLast?.map (·.2)

@[simp] theorem content_ofRows (rows : List α) (f : Nat → α → ScrollPosition) (b : Bool) :
    (ofRows rows f b).content = rows := by
  simp [ofRows, content, Function.comp_def]

end Window

end Jpql
