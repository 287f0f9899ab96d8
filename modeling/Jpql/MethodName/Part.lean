import Jpql.MethodName.Operator
import Jpql.PropertyPath

/-! One condition of a method name: a property, an operator on it, and whether case is ignored. -/

namespace Jpql.MethodName

inductive IgnoreCase where
  | never | always
  /-- Only for properties that are texts. -/
  | whenPossible
  deriving DecidableEq, Repr

structure Part where
  source : String
  operator : Operator
  property : PropertyPath
  ignoreCase : IgnoreCase := .never
  deriving DecidableEq, Repr

namespace Part

def ofPath (property : PropertyPath) (operator : Operator) : Part :=
  { source := property.toDotPath, operator, property }

def ignoreCaseWords : List (List Char) := ["IgnoringCase".toList, "IgnoreCase".toList]

/-- Reads a condition of the query method of `owner`. -/
def parse (m : Metamodel) (owner : ManagedType) (allIgnoreCase : Bool) (source : String) :
    Result Part := do
  let (stripped, ignoreCase) := match Text.cutFirst? ignoreCaseWords source.toList with
    | some (before, rest) => (String.ofList (before ++ rest), .always)
    | none => (source, if allIgnoreCase then .whenPossible else .never)
  let operator := Operator.ofPart stripped
  let property ← PropertyPath.ofSource m owner (operator.propertyOf stripped)
  return { source, operator, property, ignoreCase }

def arguments (p : Part) : Nat := p.operator.arguments

end Part

end Jpql.MethodName
