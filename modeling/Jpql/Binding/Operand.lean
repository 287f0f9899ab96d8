import Jpql.Binding.Pattern
import Jpql.MethodName.Operator

/-! How a method argument becomes the operand of the operator that consumes it: patterns are escaped
and padded, arguments of collection operators become lists. -/

namespace Jpql

structure Operand where
  operator : MethodName.Operator
  valueType : ValueType
  ignoreCase : Bool := false
  /-- Set for properties that are collections, whose elements are no patterns. -/
  noWildcards : Bool := false
  escape : EscapeCharacter := {}
  deriving DecidableEq, Repr

namespace Operand

/-- Whether the argument was found to be null and is replaced by a null test. -/
def isNullTest (o : Operand) : Bool := o.operator == .isNull

/-- A list of at least one value; a scalar is a list of one, and an empty list counts as null. -/
def toCollection : Value → Value
  | .list items | .array items => if items.isEmpty then .null else .list items
  | v => .list [v]

def upper : Value → Value
  | .text s => .text (Text.toUpper s)
  | v => v

/-- The pattern that makes a literal text match as the operator says. -/
def pattern (o : Operand) (s : String) : String :=
  match o.operator with
  | .startingWith => o.escape.escape s ++ "%"
  | .endingWith => "%" ++ o.escape.escape s
  | .containing | .notContaining => "%" ++ o.escape.escape s ++ "%"
  | _ => s

def prepare (o : Operand) (v : Value) : Value :=
  if v.isNull then v
  else if o.valueType.isString && !o.noWildcards then
    match v with
    | .text s => .text (o.pattern s)
    | v => v
  else if o.valueType.isCollectionLike then
    match toCollection v with
    | .list items => .list (if o.ignoreCase then items.map upper else items)
    | v => v
  else v

end Operand

end Jpql
