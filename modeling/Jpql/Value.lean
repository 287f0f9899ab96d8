import Jpql.Calendar
import Jpql.Uuid
import Jpql.Number.FloatText

/-! Values that flow from method arguments into query parameters, and their types. A range has two
ends, each bounded by a value or open; an unbounded end still remembers whether it was meant to be
inclusive, since that shows in the bracket. -/

namespace Jpql

inductive TemporalType where
  | date | time | timestamp
  deriving DecidableEq, Repr

inductive ScoringFunction where
  | unspecified | euclidean | cosine | dot | innerProduct | taxicab | hamming
  deriving DecidableEq, Repr

def ScoringFunction.name : ScoringFunction → String
  | .unspecified => "Unspecified"
  | .euclidean => "Euclidean"
  | .cosine => "Cosine"
  | .dot => "Dot"
  | .innerProduct => "InnerProduct"
  | .taxicab => "Taxicab"
  | .hamming => "Hamming"

inductive ScoreKind where
  | score | similarity
  deriving DecidableEq, Repr

/-- The outcome of a vector search: a raw score, or a similarity on the scale from 0 to 1. -/
structure Score where
  value : Float
  function : ScoringFunction
  kind : ScoreKind

instance : BEq Score where
  beq a b := a.value == b.value && a.function == b.function && a.kind == b.kind

mutual

inductive Value where
  | null
  | bool (b : Bool)
  | int (n : Int)
  | float (x : Float)
  | text (s : String)
  | date (d : Date)
  | time (t : ClockTime)
  | timestamp (t : Timestamp)
  | uuid (u : Uuid)
  | array (items : List Value)
  | list (items : List Value)
  | range (lower upper : Bound)
  | score (s : Score)
  | object (name : String)

/-- One end of a range. -/
inductive Bound where
  | unbounded (inclusive : Bool)
  | bounded (inclusive : Bool) (value : Value)

end

instance : Inhabited Value := ⟨.null⟩

namespace Bound

def isInclusive : Bound → Bool
  | .unbounded inclusive => inclusive
  | .bounded inclusive _ => inclusive

def isBounded : Bound → Bool
  | .unbounded _ => false
  | .bounded .. => true

def value? : Bound → Option Value
  | .unbounded _ => none
  | .bounded _ v => some v

end Bound

namespace Value

def isNull : Value → Bool
  | .null => true
  | _ => false

def isCollectionLike : Value → Bool
  | .array _ | .list _ => true
  | _ => false

def text? : Value → Option String
  | .text s => some s
  | _ => none

def elements? : Value → Option (List Value)
  | .array items | .list items => some items
  | _ => none

def typeName : Value → String
  | .null => "null"
  | .bool _ => "Boolean"
  | .int _ => "Long"
  | .float _ => "Double"
  | .text _ => "String"
  | .date _ => "LocalDate"
  | .time _ => "LocalTime"
  | .timestamp _ => "LocalDateTime"
  | .uuid _ => "UUID"
  | .array _ => "Array"
  | .list _ => "Collection"
  | .range .. => "Range"
  | .score _ => "Score"
  | .object name => name

mutual

/-- The text of a value; a text is its own. -/
def render : Value → String
  | .null => "null"
  | .bool b => if b then "true" else "false"
  | .int n => toString n
  | .float x => Number.plain x
  | .text s => s
  | .date d => d.render
  | .time t => t.render
  | .timestamp t => t.render
  | .uuid u => u.render
  | .array items | .list items => "[" ++ ", ".intercalate (renderAll items) ++ "]"
  | .range lower upper =>
    (if lower.isInclusive then "[" else "(") ++ renderBound lower ++ "-" ++ renderBound upper ++
      (if upper.isInclusive then "]" else ")")
  | .score s => Number.plain s.value
  | .object name => "<" ++ name ++ ">"

def renderAll : List Value → List String
  | [] => []
  | v :: vs => render v :: renderAll vs

def renderBound : Bound → String
  | .unbounded _ => "unbounded"
  | .bounded _ v => render v

end

mutual

/-- Equality of values. Floats compare as numbers, so a value that holds a NaN differs from itself.
-/
def same : Value → Value → Bool
  | .null, .null => true
  | .bool a, .bool b => a == b
  | .int a, .int b => a == b
  | .float a, .float b => a == b
  | .text a, .text b => a == b
  | .date a, .date b => a == b
  | .time a, .time b => a == b
  | .timestamp a, .timestamp b => a == b
  | .uuid a, .uuid b => a == b
  | .array a, .array b => sameAll a b
  | .list a, .list b => sameAll a b
  | .range a b, .range c d => sameBound a c && sameBound b d
  | .score a, .score b => a == b
  | .object a, .object b => a == b
  | _, _ => false

def sameAll : List Value → List Value → Bool
  | [], [] => true
  | a :: as, b :: bs => same a b && sameAll as bs
  | _, _ => false

def sameBound : Bound → Bound → Bool
  | .unbounded i, .unbounded j => i == j
  | .bounded i a, .bounded j b => i == j && same a b
  | _, _ => false

end

instance : BEq Value := ⟨same⟩

end Value

/-- The declared type of an attribute or of a method parameter. -/
inductive ValueType where
  | string | integer | long | double | boolean | date | time | timestamp | uuid
  | collection (element : ValueType)
  | array (element : ValueType)
  | range (element : ValueType)
  | score
  | named (name : String)
  deriving DecidableEq, Repr

namespace ValueType

def isString : ValueType → Bool
  | .string => true
  | _ => false

def isCollectionLike : ValueType → Bool
  | .collection _ | .array _ => true
  | _ => false

def isTemporal : ValueType → Bool
  | .date | .time | .timestamp => true
  | _ => false

/-- The type inside all containers. -/
def element : ValueType → ValueType
  | .collection e | .array e | .range e => e.element
  | t => t

def name : ValueType → String
  | .string => "String"
  | .integer => "Integer"
  | .long => "Long"
  | .double => "Double"
  | .boolean => "Boolean"
  | .date => "LocalDate"
  | .time => "LocalTime"
  | .timestamp => "LocalDateTime"
  | .uuid => "UUID"
  | .collection _ => "Collection"
  | .array _ => "Array"
  | .range _ => "Range"
  | .score => "Score"
  | .named name => name

end ValueType

end Jpql
