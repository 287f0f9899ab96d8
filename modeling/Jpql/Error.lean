import Jpql.Dialect

/-! Everything that can go wrong between a method or a query text and a bound query, and the wording
of each failure. -/

namespace Jpql

/-- A query or a method name that means nothing here. -/
inductive InvalidQuery where
  | bindingWithoutMarker
  | repeatedOrderBy
  | orderWithoutProperty (block : String)
  | pathTooDeep (limit : Nat)
  | mixedMarkers
  | notAnEntity (name : String)
  | existsWithoutIdentifier (entity : String)
  | unsupportedKeyword (keyword : String)
  | countOfModifyingQuery
  | countNotDerivable (query : String)
  deriving DecidableEq, Repr

def InvalidQuery.message : InvalidQuery → String
  | .bindingWithoutMarker => "Parameter binding requires a name or a positive index"
  | .repeatedOrderBy => "OrderBy must not be used more than once in a method name"
  | .orderWithoutProperty block => "Invalid order syntax for part " ++ block
  | .pathTooDeep limit => "Trying to parse a path with depth greater than " ++ toString limit
  | .mixedMarkers => "Mixing of ? parameters and other forms like ?1 is not supported"
  | .notAnEntity name => "Not a managed entity: " ++ name
  | .existsWithoutIdentifier entity =>
    "Cannot derive exists query for " ++ entity ++ " without identifier"
  | .unsupportedKeyword keyword => "Unsupported keyword " ++ keyword
  | .countOfModifyingQuery => "Cannot derive a count query from a modifying query"
  | .countNotDerivable query => "Cannot derive count query for [" ++ query ++ "]"

/-- A method whose parameters or arguments do not fit what it asks for. -/
inductive InvalidArgument where
  | noNormalizer (function : String)
  | notACollection
  | caseOfNonText (type property : String)
  | noParameter (part : String)
  | missingParameter (method : String) (found : Nat) (operator property : String)
  | unfitParameter (operator property expected found method : String)
  | noScrollPosition (method : String)
  | notEvaluable (expression : String)
  deriving DecidableEq, Repr

def InvalidArgument.message : InvalidArgument → String
  | .noNormalizer function => "No SimilarityNormalizer found for " ++ function
  | .notACollection => "IsEmpty / IsNotEmpty can only be used on collection properties"
  | .caseOfNonText type property =>
    "Unable to ignore case of " ++ type ++ " types, the property '" ++ property ++
      "' must reference a String"
  | .noParameter part => "No parameter available for part " ++ part
  | .missingParameter method found operator property =>
    "Method " ++ method ++ " expects at least " ++ toString (found + 1) ++
      " arguments but only found " ++ toString found ++ "; This leaves an operator of type " ++
      operator ++ " for property " ++ property ++ " unbound"
  | .unfitParameter operator property expected found method =>
    "Operator " ++ operator ++ " on " ++ property ++ " requires a " ++ expected ++
      " argument, found " ++ found ++ " in method " ++ method
  | .noScrollPosition method => "Method " ++ method ++ " requires a scroll position"
  | .notEvaluable expression => "Cannot evaluate " ++ expression

/-- A binding that cannot be set up or carried out. Bindings are given by their descriptions. -/
inductive BindingFailure where
  | noName (binding : String)
  | noPosition (binding : String)
  | tooFewParameters (position available : Nat)
  | noEvaluator (expression : String)
  | conflict (existing found : String)
  deriving DecidableEq, Repr

def BindingFailure.message : BindingFailure → String
  | .noName binding => "Required name for " ++ binding ++ " not available"
  | .noPosition binding => "Required position for " ++ binding ++ " not available"
  | .tooFewParameters position available =>
    "At least " ++ toString position ++ " parameter(s) provided but only " ++ toString available ++
      " parameter(s) present in query"
  | .noEvaluator expression => "No expression evaluator available for " ++ expression
  | .conflict existing found =>
    "Already found parameter binding with same index / parameter name but differing binding type" ++
      "; " ++
      "Already have: " ++ existing ++ ", found " ++ found ++ "; " ++
      "If you bind a parameter multiple times make sure they use the same binding"

/-- A text that a dialect's grammar rejects, with the place and reason of the rejection. -/
structure GrammarError where
  reason : String
  dialect : Dialect
  query : String
  deriving DecidableEq, Repr

def GrammarError.message (e : GrammarError) : String :=
  e.reason ++ "; Bad " ++ e.dialect.name ++ " grammar [" ++ e.query ++ "]"

inductive QueryError where
  | badGrammar (e : GrammarError)
  | invalidQuery (cause : InvalidQuery)
  | unsafeSort (order : String)
  | propertyNotFound (property owner : String)
  | invalidArgument (cause : InvalidArgument)
  | incompleteKeyset
  | binding (cause : BindingFailure)
  | provider (message : String)
  deriving DecidableEq, Repr

def QueryError.message : QueryError → String
  | .badGrammar e => e.message
  | .invalidQuery cause => cause.message
  | .unsafeSort order =>
    "Sort expression '" ++ order ++ "' must only contain property references or aliases used in " ++
      "the select clause; If you really want to use something other than that for sorting, " ++
      "please use JpaSort.unsafe(…)"
  | .propertyNotFound property owner =>
    "No property '" ++ property ++ "' found for type '" ++ owner ++ "'"
  | .invalidArgument cause => cause.message
  | .incompleteKeyset => "KeysetScrollPosition does not contain all keyset values"
  | .binding cause => cause.message
  | .provider message => message

/-- The outcome of an operation that may fail. -/
abbrev Result (α : Type) := Except QueryError α

end Jpql
