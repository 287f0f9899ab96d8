import Jpql.Parameters
import Jpql.Provider

/-! Binding method arguments to the parameters of a provider's query. Each binding becomes a setter
once, when parameters and bindings of a method are known; the setters then run for every call. -/

namespace Jpql

/-- What becomes of a value that the provider refuses: strict binding fails, lenient binding goes
on. -/
inductive ErrorHandling where
  | strict | lenient
  deriving DecidableEq, Repr

inductive ValueSource where
  /-- The bindable argument with this index, counted from zero. -/
  | argument (index : Nat)
  | expression (text : String)
  | synthetic (value : Value)

inductive ParameterSetter where
  | noop
  | bind (binding : ParameterBinding) (source : ValueSource) (temporal : Option TemporalType)

/-- The value of an expression, given the arguments of a call. -/
abbrev Evaluator := String → Arguments → Result Value

namespace ParameterSetter

/-- The index and the declaration of the parameter that an argument identifier stands for: a name is
looked up and a position counted, and a name that no parameter has stands for nothing. -/
def parameterOf? (ps : MethodParameters) (i : BindingIdentifier) :
    Result (Option (MethodParameter × Nat)) :=
  match i with
  | .named name | .namedAndIndexed name _ => .ok (ps.bindable.zipIdx.find? (·.1.name == some name))
  | .indexed position =>
    if position == 0 || ps.bindable.length < position then
      .error (.binding (.tooFewParameters position ps.bindable.length))
    else .ok (ps.bindable.zipIdx[position - 1]?)

/-- The setter of a binding. -/
def of (ps : MethodParameters) (b : ParameterBinding) : Result ParameterSetter :=
  if b.isNullTest then .ok .noop
  else
    match b.origin with
    | .expression e => .ok (.bind b (.expression e) none)
    | .synthetic v _ => .ok (.bind b (.synthetic v) none)
    | .argument i => do
      match ← parameterOf? ps i with
      | some (p, index) =>
        return .bind b (.argument index) (if p.isTemporal then p.temporal else none)
      | none => return .noop

/-- The value before it is prepared; a missing argument is null. -/
def rawValue (evaluator : Option Evaluator) (a : Arguments) : ValueSource → Result Value
  | .argument i => .ok ((a.value? i).getD .null)
  | .synthetic v => .ok v
  | .expression e =>
    match evaluator with
    | some evaluate => evaluate e a
    | none => .error (.binding (.noEvaluator e))

/-- The query parameter that a binding sets: by name if the query has named parameters, else by
position. Strict binding leaves out positions that the query does not have. -/
def target? (parameters : List QueryParameter) (handling : ErrorHandling) (b : ParameterBinding) :
    Option QueryParameter :=
  match b.name?, parameters.any (·.isNamed) with
  | some name, true => some (.named name)
  | _, _ =>
    match b.position? with
    | some n =>
      if n ≤ parameters.length || handling == .lenient || .positional n ∈ parameters then
        some (.positional n)
      else none
    | none => none

def outcome (handling : ErrorHandling) : Except String Unit → Result Unit
  | .ok () => .ok ()
  | .error message => if handling == .lenient then .ok () else .error (.provider message)

variable {σ ρ : Type}

/-- Runs a setter on a query. -/
def run (provider : Provider σ ρ) (evaluator : Option Evaluator) (a : Arguments)
    (handling : ErrorHandling) (setter : ParameterSetter) (query : σ) : Result Unit × σ :=
  match setter with
  | .noop => (.ok (), query)
  | .bind b source temporal =>
    match rawValue evaluator a source with
    | .error e => (.error e, query)
    | .ok raw =>
      match target? (provider.parameters query) handling b with
      | none => (.ok (), query)
      | some parameter =>
        let (result, query) := provider.set parameter (b.prepare raw) temporal query
        (outcome handling result, query)

end ParameterSetter

structure ParameterBinder where
  setters : List ParameterSetter := []
  evaluator : Option Evaluator := none

namespace ParameterBinder

variable {σ ρ : Type}

def of (ps : MethodParameters) (bindings : List ParameterBinding) : Result ParameterBinder := do
  return { setters := ← bindings.mapM (ParameterSetter.of ps) }

def bindAll (provider : Provider σ ρ) (evaluator : Option Evaluator) (a : Arguments)
    (handling : ErrorHandling) : List ParameterSetter → σ → Result Unit × σ
  | [], query => (.ok (), query)
  | setter :: setters, query =>
    match setter.run provider evaluator a handling query with
    | (.ok (), query) => bindAll provider evaluator a handling setters query
    | (.error e, query) => (.error e, query)

/-- Runs the setters in order, up to the first that fails. -/
def bind (b : ParameterBinder) (provider : Provider σ ρ) (a : Arguments) (handling : ErrorHandling)
    (query : σ) : Result Unit × σ :=
  bindAll provider b.evaluator a handling b.setters query

/-- Binds strictly and then restricts the query to the page asked for. -/
def bindAndPrepare (b : ParameterBinder) (provider : Provider σ ρ) (a : Arguments) (query : σ) :
    Result Unit × σ :=
  match b.bind provider a .strict query with
  | (.ok (), query) =>
    match a.page.offset?, a.page.size? with
    | some offset, some size =>
      (.ok (), provider.setMaxResults size (provider.setFirstResult offset query))
    | _, _ => (.ok (), query)
  | failed => failed

end ParameterBinder

end Jpql
