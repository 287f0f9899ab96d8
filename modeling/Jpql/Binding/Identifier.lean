import Jpql.Error
import Jpql.Value.Description

/-! What a parameter binding is addressed by, and where its value comes from. A query parameter is
addressed by its name, by its position counted from one, or by both. -/

namespace Jpql

inductive BindingIdentifier where
  | named (name : String)
  | indexed (position : Nat)
  | namedAndIndexed (name : String) (position : Nat)
  deriving DecidableEq, Repr

namespace BindingIdentifier

/-- An empty name counts as none, and a position alone has to be positive. -/
def of? (name : Option String) (position : Option Nat) : Result BindingIdentifier :=
  match name.filter (!·.isEmpty), position with
  | some n, some p => .ok (.namedAndIndexed n p)
  | some n, none => .ok (.named n)
  | none, some p => if p > 0 then .ok (.indexed p) else .error (.invalidQuery .bindingWithoutMarker)
  | none, none => .error (.invalidQuery .bindingWithoutMarker)

def name? : BindingIdentifier → Option String
  | .named n | .namedAndIndexed n _ => some n
  | .indexed _ => none

def position? : BindingIdentifier → Option Nat
  | .indexed p | .namedAndIndexed _ p => some p
  | .named _ => none

def render : BindingIdentifier → String
  | .named n => n
  | .indexed p => "[" ++ toString p ++ "]"
  | .namedAndIndexed n p => "[" ++ n ++ ", " ++ toString p ++ "]"

def describe : BindingIdentifier → String
  | .named n => "Named(" ++ quoted n ++ ")"
  | .indexed p => "Indexed(" ++ toString p ++ ")"
  | .namedAndIndexed n p => "NamedAndIndexed(" ++ quoted n ++ ", " ++ toString p ++ ")"

/-- Whether both have a name and it is the same, or both have a position and it is the same. -/
def overlaps (a b : BindingIdentifier) : Bool :=
  (a.name?.isSome && a.name? == b.name?) || (a.position?.isSome && a.position? == b.position?)

end BindingIdentifier

inductive ParameterOrigin where
  | argument (identifier : BindingIdentifier)
  | expression (text : String)
  /-- A fixed value, taken from `source`. -/
  | synthetic (value : Value) (source : String)

namespace ParameterOrigin

def same : ParameterOrigin → ParameterOrigin → Bool
  | .argument a, .argument b => a == b
  | .expression a, .expression b => a == b
  | .synthetic v s, .synthetic w t => v == w && s == t
  | _, _ => false

instance : BEq ParameterOrigin := ⟨same⟩

def isArgument : ParameterOrigin → Bool
  | .argument _ => true
  | _ => false

def isExpression : ParameterOrigin → Bool
  | .expression _ => true
  | _ => false

def isSynthetic : ParameterOrigin → Bool
  | .synthetic .. => true
  | _ => false

def describe : ParameterOrigin → String
  | .argument i => "MethodArgument(" ++ i.describe ++ ")"
  | .expression e => "Expression(" ++ quoted e ++ ")"
  | .synthetic v s =>
    describeFields "Synthetic" [("value", v.describe), ("source", quoted s)]

end ParameterOrigin

end Jpql
