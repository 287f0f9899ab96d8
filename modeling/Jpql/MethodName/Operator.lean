import Jpql.Text.CaseMapping
import Jpql.Text.Search

/-! Operators of method name parts. Each has the keywords that announce it at the end of a part; of
all operators with a fitting keyword the first in `Operator.all` is meant, so that `NotLike` is not
taken for a plain `Like`. -/

namespace Jpql.MethodName

inductive Operator where
  | isNotNull | isNull | between | lessThan | lessThanEqual | greaterThan | greaterThanEqual
  | before | after | notLike | like | startingWith | endingWith | isNotEmpty | isEmpty
  | notContaining | containing | notIn | in | near | within | regex | exists | true | false
  | negatingSimpleProperty | simpleProperty
  deriving DecidableEq, Repr

namespace Operator

/-- The order of detection. -/
def all : List Operator :=
  [isNotNull, isNull, between, lessThan, lessThanEqual, greaterThan, greaterThanEqual, before,
    after, notLike, like, startingWith, endingWith, isNotEmpty, isEmpty, notContaining,
    containing, notIn, .in, near, within, regex, .exists, .true, .false, negatingSimpleProperty,
    simpleProperty]

def keywords : Operator → List String
  | isNotNull => ["IsNotNull", "NotNull"]
  | isNull => ["IsNull", "Null"]
  | between => ["IsBetween", "Between"]
  | lessThan => ["IsLessThan", "LessThan"]
  | lessThanEqual => ["IsLessThanEqual", "LessThanEqual"]
  | greaterThan => ["IsGreaterThan", "GreaterThan"]
  | greaterThanEqual => ["IsGreaterThanEqual", "GreaterThanEqual"]
  | before => ["IsBefore", "Before"]
  | after => ["IsAfter", "After"]
  | notLike => ["IsNotLike", "NotLike"]
  | like => ["IsLike", "Like"]
  | startingWith => ["IsStartingWith", "StartingWith", "StartsWith"]
  | endingWith => ["IsEndingWith", "EndingWith", "EndsWith"]
  | isNotEmpty => ["IsNotEmpty", "NotEmpty"]
  | isEmpty => ["IsEmpty", "Empty"]
  | notContaining => ["IsNotContaining", "NotContaining", "NotContains"]
  | containing => ["IsContaining", "Containing", "Contains"]
  | notIn => ["IsNotIn", "NotIn"]
  | .in => ["IsIn", "In"]
  | near => ["IsNear", "Near"]
  | within => ["IsWithin", "Within"]
  | regex => ["MatchesRegex", "Matches", "Regex"]
  | .exists => ["Exists"]
  | .true => ["IsTrue", "True"]
  | .false => ["IsFalse", "False"]
  | negatingSimpleProperty => ["IsNot", "Not"]
  | simpleProperty => ["Is", "Equals"]

def name : Operator → String
  | isNotNull => "IS_NOT_NULL"
  | isNull => "IS_NULL"
  | between => "BETWEEN"
  | lessThan => "LESS_THAN"
  | lessThanEqual => "LESS_THAN_EQUAL"
  | greaterThan => "GREATER_THAN"
  | greaterThanEqual => "GREATER_THAN_EQUAL"
  | before => "BEFORE"
  | after => "AFTER"
  | notLike => "NOT_LIKE"
  | like => "LIKE"
  | startingWith => "STARTING_WITH"
  | endingWith => "ENDING_WITH"
  | isNotEmpty => "IS_NOT_EMPTY"
  | isEmpty => "IS_EMPTY"
  | notContaining => "NOT_CONTAINING"
  | containing => "CONTAINING"
  | notIn => "NOT_IN"
  | .in => "IN"
  | near => "NEAR"
  | within => "WITHIN"
  | regex => "REGEX"
  | .exists => "EXISTS"
  | .true => "TRUE"
  | .false => "FALSE"
  | negatingSimpleProperty => "NEGATING_SIMPLE_PROPERTY"
  | simpleProperty => "SIMPLE_PROPERTY"

/-- How many method arguments the operator consumes. -/
def arguments : Operator → Nat
  | isNotNull | isNull | isNotEmpty | isEmpty | .exists | .true | .false => 0
  | between => 2
  | _ => 1

/-- Whether the operator compares with a pattern. -/
def isLikeFamily : Operator → Bool
  | like | notLike | startingWith | endingWith | containing | notContaining => Bool.true
  | _ => Bool.false

def supports (op : Operator) (part : String) : Bool :=
  op.keywords.any fun k => (Text.stripEnd? k.toList part.toList).isSome

def ofPart (part : String) : Operator := (all.find? (·.supports part)).getD simpleProperty

/-- The first letter in lower case. -/
def uncapitalize : List Char → List Char
  | [] => []
  | c :: cs => Text.lowerOf c ++ cs

/-- The property that a part names: the part without its keyword, starting in lower case. -/
def propertyOf (op : Operator) (part : String) : String :=
  let candidate := uncapitalize part.toList
  String.ofList ((op.keywords.findSome? fun k => Text.stripEnd? k.toList candidate).getD candidate)

end Operator

end Jpql.MethodName
