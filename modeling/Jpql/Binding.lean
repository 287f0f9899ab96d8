import Jpql.Binding.Identifier
import Jpql.Binding.Operand
import Jpql.Binding.Similarity

/-! A parameter binding ties a query parameter to the origin of its value and says how the value is
prepared before it is set. -/

namespace Jpql

inductive RangeEnd where
  | lower | upper
  deriving DecidableEq, Repr

inductive BindingKind where
  | basic
  | like (type : LikeType)
  | inList
  | operand (o : Operand)
  | rangeEnd (bound : RangeEnd) (normalizer : SimilarityNormalizer)
  | score (normalizer : SimilarityNormalizer)
  deriving DecidableEq, Repr

namespace BindingKind

/-- A score as the number to bind. -/
def prepareScore (n : SimilarityNormalizer) : Value → Value
  | .score s => .float (n.toScore s)
  | v => v

/-- The value at one end of a range; null where that end is open. -/
def prepareRange (e : RangeEnd) (n : SimilarityNormalizer) : Value → Value
  | .range lower upper =>
    match (match e with | .lower => lower | .upper => upper).value? with
    | some v => prepareScore n v
    | none => .null
  | v => v

def prepare : BindingKind → Value → Value
  | .basic, v => v
  | .like t, v => t.prepare v
  | .inList, .array items => .list items
  | .inList, v => v
  | .operand o, v => o.prepare v
  | .rangeEnd e n, v => prepareRange e n v
  | .score n, v => prepareScore n v

/-- Whether both kinds prepare values alike; the ends of ranges need not share a normalizer. -/
def isCompatibleWith : BindingKind → BindingKind → Bool
  | .rangeEnd a _, .rangeEnd b _ => a == b
  | a, b => a == b

end BindingKind

structure ParameterBinding where
  identifier : BindingIdentifier
  origin : ParameterOrigin
  kind : BindingKind := .basic

namespace ParameterBinding

instance : BEq ParameterBinding where
  beq a b := a.identifier == b.identifier && a.origin == b.origin && a.kind == b.kind

def name? (b : ParameterBinding) : Option String := b.identifier.name?

def position? (b : ParameterBinding) : Option Nat := b.identifier.position?

def render (b : ParameterBinding) : String :=
  match b.kind with
  | .like t =>
    "LikeBinding [identifier: " ++ b.identifier.render ++ ", origin: " ++ b.origin.describe ++
      ", type: " ++ t.name ++ "]"
  | _ =>
    "ParameterBinding [identifier: " ++ b.identifier.render ++ ", origin: " ++ b.origin.describe ++
      "]"

def requiredName (b : ParameterBinding) : Result String :=
  match b.name? with
  | some n => .ok n
  | none => .error (.binding (.noName b.render))

def requiredPosition (b : ParameterBinding) : Result Nat :=
  match b.position? with
  | some p => .ok p
  | none => .error (.binding (.noPosition b.render))

/-- Whether the parameter was replaced by a null test, so that nothing is to be bound. -/
def isNullTest (b : ParameterBinding) : Bool :=
  match b.kind with
  | .operand o => o.isNullTest
  | _ => false

def prepare (b : ParameterBinding) (v : Value) : Value := b.kind.prepare v

/-- Whether both address a common query parameter. -/
def bindsTo (a b : ParameterBinding) : Bool := a.identifier.overlaps b.identifier

/-- Whether both would set the same value. -/
def isCompatibleWith (a b : ParameterBinding) : Bool :=
  a.origin == b.origin && a.kind.isCompatibleWith b.kind

end ParameterBinding

end Jpql
