import Jpql.Binder
import Jpql.Derived.Condition
import Jpql.ReturnedType
import Jpql.Statement.Sorted

/-! Creating the query of a method name: its predicate, then its selection, then its order. -/

namespace Jpql.Derived

/-- All that the query of a method depends on, except for the sort of a call. -/
structure Creator where
  method : MethodName
  entity : ManagedType
  metamodel : Metamodel
  parameters : MethodParameters
  /-- The arguments of a call, where nulls among them matter. -/
  arguments : Option Arguments := none
  returned : ReturnedType := .domain
  options : Options := {}
  counting : Bool := false

/-- A finished query with its bindings. -/
structure Created where
  query : SelectQuery
  bindings : List ParameterBinding

namespace Creator

def source (c : Creator) : OperandSource := ⟨c.parameters, c.arguments, c.options.escape⟩

/-- Whether the query counts, because the method does or because its rows are asked for. -/
def counts (c : Creator) : Bool := c.counting || c.method.isCount

def selectPath (c : Creator) (property : String) : Build PathExpression := do
  let p ← PropertyPath.ofSource c.metamodel c.entity property
  let d ← get
  let (e, query) := resolvePath d.query p true c.options.useForeignKey
  set { d with query }
  return e

def selectPaths (c : Creator) (properties : List String) : Build (List PathExpression) :=
  properties.mapM c.selectPath

/-- The selection that the returned type asks for, if any. -/
def customSelection (c : Creator) : Build (Option Selection) := do
  match c.returned with
  | .dto className properties =>
    if properties.isEmpty then return none
    else return some (.construct className (← c.selectPaths properties))
  | .projection properties =>
    if properties.isEmpty then return none else return some (.paths (← c.selectPaths properties))
  | .tuple => return some (.paths (← c.selectPaths (c.entity.attributes.map (·.name))))
  | .domain | .value _ => return none

def selection (c : Creator) : Build Selection := do
  if c.method.isDelete then return .entity
  if c.counts then return .count
  match ← c.customSelection with
  | some s => return s
  | none =>
    if c.method.isExists then
      let ids := c.entity.idAttributes.map (·.name)
      if ids.isEmpty then
        throw (.invalidQuery (.existsWithoutIdentifier c.entity.simpleName))
      return .paths (← c.selectPaths ids)
    else return .entity

/-- What a sort order sorts on: a property, or the raw expression if the order is marked as one. -/
def orderTarget (c : Creator) (o : Order) : Build Expression := do
  match PropertyPath.ofSource c.metamodel c.entity o.property with
  | .ok p => resolve c.options p true
  | .error e => if o.rawExpression then return .literal o.property else throw e

def orderExpression (c : Creator) (o : Order) : Build OrderExpression := do
  o.check
  let e ← c.orderTarget o
  return ⟨if o.ignoreCase then .function c.options.caseTemplate.function e else e, o⟩

def build (c : Creator) (sort : Sorting) : Build Unit := do
  let predicate ← disjunction c.options c.source c.method.alternatives
  let selection ← c.selection
  let distinct := c.method.distinct && !c.method.isDelete
  modify fun d => { d with query := { d.query with selection, distinct, predicate } }
  if !c.counts && !c.method.isDelete then
    let orders ← sort.orders.mapM c.orderExpression
    modify fun d => { d with query := { d.query with orders } }

/-- The query sorted as given, in place of the sort in the method name. -/
def createSorted (c : Creator) (sort : Sorting) : Result Created := do
  let start := SelectQuery.ofEntity c.entity.entityName c.entity.simpleName .entity
  let ((), d) ← (c.build sort).run { query := start }
  return ⟨d.query, d.bindings⟩

/-- The query sorted as the method name says, and then as given. -/
def create (c : Creator) (sort : Sorting) : Result Created :=
  c.createSorted (c.method.sort.and sort)

/-- The bindings left behind by `createSorted`, even if it fails: those of the conditions, once all
conditions are built. -/
def bindingsAfter (c : Creator) : List ParameterBinding :=
  let start := SelectQuery.ofEntity c.entity.entityName c.entity.simpleName .entity
  match (disjunction c.options c.source c.method.alternatives).run { query := start } with
  | .ok (_, d) => d.bindings
  | .error _ => []

def binder (c : Creator) (created : Created) : Result ParameterBinder :=
  ParameterBinder.of c.parameters created.bindings

end Creator

end Jpql.Derived
