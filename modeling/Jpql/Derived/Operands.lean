import Jpql.Binding
import Jpql.MethodName
import Jpql.Parameters

/-! The operands of a method name's conditions. Conditions consume the bindable parameters of the
method in order; each that is consumed gets a binding with the next position. -/

namespace Jpql.Derived

open MethodName

/-- What an operator expects of its operand. -/
inductive Expected where
  | declared | text | collection
  deriving DecidableEq, Repr

/-- What operands are drawn from: the parameters of the method, the arguments of a call if they are
known, and the escape character of patterns. -/
structure OperandSource where
  parameters : MethodParameters
  arguments : Option Arguments := none
  escape : EscapeCharacter := {}

namespace OperandSource

/-- The type as which an operand is bound. -/
def typeFor (declared : ValueType) : Expected → ValueType
  | .declared => declared
  | .text => .string
  | .collection => if declared.isCollectionLike then declared else .collection declared

/-- Whether the argument is known and null. -/
def isNullAt (s : OperandSource) (index : Nat) : Bool :=
  (s.arguments.bind (·.value? index)).any (·.isNull)

/-- The binding of the operand with this index, counted from zero. An equality with null becomes a
null test. -/
def bindingAt (s : OperandSource) (part : Part) (expected : Expected) (index : Nat) :
    Result ParameterBinding :=
  match s.parameters.bindableAt? index with
  | none => .error (.invalidArgument (.noParameter part.source))
  | some p =>
    let isEquality := part.operator == .simpleProperty || part.operator == .negatingSimpleProperty
    let operand : Operand := {
      operator := if isEquality && s.isNullAt index then .isNull else part.operator
      valueType := typeFor (p.valueType?.getD .string) expected
      ignoreCase := part.ignoreCase == .always
      noWildcards := part.property.isCollection
      escape := s.escape }
    let argument := match p.name with
      | some name => BindingIdentifier.namedAndIndexed name (index + 1)
      | none => .indexed (index + 1)
    .ok {
      identifier := .indexed (index + 1), origin := .argument argument, kind := .operand operand }

end OperandSource

/-! ### Validation -/

/-- What a declared type should be for an operator, if it is not. -/
def mismatch? (operator : Operator) (declared : ValueType) : Option String :=
  let expectsCollection := operator == .in || operator == .notIn
  let isCollection := match declared with
    | .collection _ => true
    | _ => false
  if expectsCollection && !declared.isCollectionLike then some "Collection"
  else if !expectsCollection && isCollection then some "scalar"
  else none

/-- Checks the parameter with this index against the operator that will consume it. -/
def validateOperand (ps : MethodParameters) (part : Part) (index : Nat) : Result Unit :=
  let property := part.property.toDotPath
  match ps.bindableAt? index with
  | none =>
    .error (.invalidArgument (.missingParameter ps.methodName index part.operator.name property))
  | some p =>
    let declared := p.valueType?.getD .string
    match mismatch? part.operator declared with
    | some expected =>
      .error (.invalidArgument
        (.unfitParameter part.operator.name property expected declared.name ps.methodName))
    | none => .ok ()

/-- The operands of all conditions in order, each by the condition that consumes it. -/
def operands (m : MethodName) : List Part := m.parts.flatMap fun p => List.replicate p.arguments p

/-- Checks that the method has a fitting parameter for every operand. -/
def validate (m : MethodName) (ps : MethodParameters) : Result Unit :=
  (operands m).zipIdx.forM fun (part, index) => validateOperand ps part index

end Jpql.Derived
