import Jpql.Paging
import Jpql.Scroll

/-! Parameters that a repository method declares, and the arguments of one call. Special parameters
carry sorting, paging, a scroll position or a limit; all others are bindable and are counted among
themselves from zero. -/

namespace Jpql

inductive ParameterKind where
  | bindable (type : ValueType)
  | sort | pageable | scrollPosition | limit
  deriving DecidableEq, Repr

structure MethodParameter where
  index : Nat
  name : Option String
  kind : ParameterKind
  temporal : Option TemporalType
  deriving DecidableEq, Repr

namespace MethodParameter

def valueType? (p : MethodParameter) : Option ValueType :=
  match p.kind with
  | .bindable t => some t
  | _ => none

def isBindable (p : MethodParameter) : Bool := p.valueType?.isSome

/-- Whether a temporal precision applies to the values of this parameter. -/
def isTemporal (p : MethodParameter) : Bool :=
  p.temporal.isSome && p.valueType?.any ValueType.isTemporal

end MethodParameter

structure MethodParameters where
  methodName : String
  parameters : List MethodParameter := []
  deriving DecidableEq, Repr

namespace MethodParameters

def push (ps : MethodParameters) (name : Option String) (kind : ParameterKind)
    (temporal : Option TemporalType) : MethodParameters :=
  { ps with parameters := ps.parameters ++ [⟨ps.parameters.length, name, kind, temporal⟩] }

def bindable (ps : MethodParameters) : List MethodParameter :=
  ps.parameters.filter (·.isBindable)

def bindableAt? (ps : MethodParameters) (i : Nat) : Option MethodParameter := ps.bindable[i]?

def byName? (ps : MethodParameters) (name : String) : Option MethodParameter :=
  ps.bindable.find? (·.name == some name)

def has (ps : MethodParameters) (kind : ParameterKind) : Bool :=
  ps.parameters.any (·.kind == kind)

end MethodParameters

/-- The arguments of one call: values of the bindable parameters in order, and the special ones. -/
structure Arguments where
  values : List (Option String × Value) := []
  explicitSort : Option Sorting := none
  page : PageRequest := .unpaged
  scroll : Option ScrollPosition := none
  limit : Option Nat := none

namespace Arguments

def value? (a : Arguments) (i : Nat) : Option Value := a.values[i]?.map (·.2)

def valueByName? (a : Arguments) (name : String) : Option Value :=
  (a.values.find? (·.1 == some name)).map (·.2)

/-- The sort in effect: the one given, else that of the page request. -/
def sort (a : Arguments) : Sorting := a.explicitSort.getD a.page.sort

def hasNull (a : Arguments) : Bool := a.values.any (·.2.isNull)

end Arguments

end Jpql
