import Jpql.Derived.JoinPath
import Jpql.Derived.Operands

/-! From the conditions of a method name to the predicate of a query. Building a condition may add
joins to the query and draws operands from the method's parameters. -/

namespace Jpql.Derived

open MethodName

inductive CaseTemplate where
  | upper | lower
  deriving DecidableEq, Repr

def CaseTemplate.function : CaseTemplate → String
  | .upper => "UPPER"
  | .lower => "LOWER"

structure Options where
  /-- Reads the identifier of an associated entity from the foreign key. -/
  useForeignKey : Bool := false
  escape : EscapeCharacter := {}
  /-- The function that texts are passed through to ignore their case. -/
  caseTemplate : CaseTemplate := .upper
  deriving DecidableEq, Repr

/-- A query under construction and the bindings of the operands drawn for it. -/
structure Draft where
  query : SelectQuery
  bindings : List ParameterBinding := []

/-- Steps that change a draft and may fail. -/
abbrev Build (α : Type) := StateT Draft Result α

def resolve (options : Options) (p : PropertyPath) (forSelection : Bool) : Build Expression := do
  let d ← get
  let (e, query) := resolvePath d.query p forSelection options.useForeignKey
  set { d with query }
  return .path e

/-- Draws the next operand. -/
def drawBinding (source : OperandSource) (part : Part) (expected : Expected) :
    Build ParameterBinding := do
  let d ← get
  let b ← source.bindingAt part expected d.bindings.length
  set { d with bindings := d.bindings ++ [b] }
  return b

def placeholder (b : ParameterBinding) : Build Expression := do
  return .parameter (← b.requiredPosition)

def drawOperand (source : OperandSource) (part : Part) (expected : Expected) :
    Build Expression := do
  placeholder (← drawBinding source part expected)

/-- Passes an expression through the case function if the condition ignores case. -/
def ignoringCase (options : Options) (part : Part) (e : Expression) : Result Expression :=
  let property := part.property
  let folded := Expression.function options.caseTemplate.function e
  match part.ignoreCase with
  | .always =>
    if property.leafType.isString then .ok folded
    else .error (.invalidArgument (.caseOfNonText property.leafType.name property.head.name))
  | .whenPossible => .ok (if property.leafType.isString then folded else e)
  | .never => .ok e

/-- Whether the operator applies to the collection itself, which then is not joined. -/
def appliesToCollection (part : Part) : Bool :=
  match part.operator with
  | .isEmpty | .isNotEmpty => true
  | .startingWith | .endingWith | .containing | .notContaining => part.property.isCollection
  | _ => false

def comparison (source : OperandSource) (part : Part) (path : Expression) (operator : String) :
    Build Predicate := do
  return .compare path operator (← drawOperand source part .declared)

def pattern (options : Options) (source : OperandSource) (part : Part) (folded : Expression) :
    Build Predicate := do
  let operand ← drawOperand source part .text
  let negated := part.operator == .notLike || part.operator == .notContaining
  return .like folded negated (← ignoringCase options part operand) source.escape.value

def equality (options : Options) (source : OperandSource) (part : Part) (path folded : Expression) :
    Build Predicate := do
  let b ← drawBinding source part .declared
  let negated := part.operator == .negatingSimpleProperty
  if b.isNullTest then return .is path (if negated then "NOT NULL" else "NULL")
  else
    let operand ← placeholder b
    return .compare folded (if negated then "!=" else "=") (← ignoringCase options part operand)

/-- The predicate of a condition. -/
def condition (options : Options) (source : OperandSource) (part : Part) : Build Predicate := do
  let path ←
    if appliesToCollection part then pure (.path (implicitPath part.property))
    else resolve options part.property false
  let folded ← ignoringCase options part path
  match part.operator with
  | .between =>
    let lower ← drawOperand source part .declared
    let upper ← drawOperand source part .declared
    return .between path lower upper
  | .after | .greaterThan => comparison source part path ">"
  | .greaterThanEqual => comparison source part path ">="
  | .before | .lessThan => comparison source part path "<"
  | .lessThanEqual => comparison source part path "<="
  | .isNull => return .is path "NULL"
  | .isNotNull => return .is path "NOT NULL"
  | .in | .notIn =>
    return .inList folded (part.operator == .notIn) (← drawOperand source part .collection)
  | .startingWith | .endingWith | .containing | .notContaining =>
    if part.property.isCollection then
      let value ← drawOperand source part .declared
      return .memberOf value (part.operator == .notContaining) path
    else pattern options source part folded
  | .like | .notLike => pattern options source part folded
  | .true => return .compare path "=" (.literal "TRUE")
  | .false => return .compare path "=" (.literal "FALSE")
  | .simpleProperty | .negatingSimpleProperty => equality options source part path folded
  | .isEmpty | .isNotEmpty =>
    if part.property.isCollection then
      return .is path (if part.operator == .isNotEmpty then "NOT EMPTY" else "EMPTY")
    else throw (.invalidArgument .notACollection)
  | .near | .within | .regex | .exists =>
    throw (.invalidQuery (.unsupportedKeyword part.operator.name))

/-- Predicates joined from left to right. -/
def joinPredicates (op : Predicate → Predicate → Predicate) : List Predicate → Option Predicate
  | [] => none
  | p :: ps => some (ps.foldl op p)

/-- Conditions that hold together. -/
def conjunction (options : Options) (source : OperandSource) (parts : List Part) :
    Build (Option Predicate) := do
  return joinPredicates .and (← parts.mapM (condition options source))

/-- The predicate of a whole method name, if it has conditions. -/
def disjunction (options : Options) (source : OperandSource) (alternatives : List (List Part)) :
    Build (Option Predicate) := do
  return joinPredicates .or ((← alternatives.mapM (conjunction options source)).filterMap id)

end Jpql.Derived
