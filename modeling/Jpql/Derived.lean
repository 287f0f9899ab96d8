import Jpql.Derived.Cache
import Jpql.Derived.Keyset

/-! Queries derived from method names: set up once for a method, then prepared for every call.
Without nulls among the arguments, texts come from a cache. -/

namespace Jpql

open Derived

/-- A finished text with everything needed to bind it. -/
structure RenderedQuery where
  query : String
  bindings : List ParameterBinding
  binder : ParameterBinder
  tuple : Bool

/-- A rendered query with the bounds of one call. -/
structure PreparedQuery where
  rendered : RenderedQuery
  firstResult : Option Nat := none
  maxResults : Option Nat := none
  /-- The size of the window, where one row more is asked for to see whether more follow. -/
  window : Option Nat := none
  sort : Sorting := .unsorted

namespace PreparedQuery

variable {σ ρ : Type}

/-- Creates the query at a provider, binds the arguments and sets the bounds. -/
def create (p : PreparedQuery) (provider : Provider σ ρ) (a : Arguments) : Result σ := do
  let query ← (provider.create p.rendered.query false p.rendered.tuple).mapError QueryError.provider
  match p.rendered.binder.bind provider a .strict query with
  | (.error e, _) => throw e
  | (.ok (), query) =>
    let query := match p.firstResult with
      | some n => provider.setFirstResult n query
      | none => query
    return match p.maxResults with
      | some n => provider.setMaxResults n query
      | none => query

end PreparedQuery

structure DerivedQuery where
  method : MethodName
  entity : ManagedType
  metamodel : Metamodel
  parameters : MethodParameters
  returned : ReturnedType := .domain
  options : Options := {}
  queries : QueryCache RenderedQuery := .ofCapacity defaultCapacity
  counts : QueryCache RenderedQuery := .ofCapacity defaultCapacity

namespace DerivedQuery

def creator (q : DerivedQuery) (arguments : Option Arguments) (counting : Bool) : Creator :=
  { method := q.method, entity := q.entity, metamodel := q.metamodel, parameters := q.parameters,
    arguments, returned := q.returned, options := q.options, counting }

/-! ### Setting up -/

/-- Checks that the query can be created at all. -/
def check (q : DerivedQuery) : Result DerivedQuery := do
  let _ ← (q.creator none false).create .unsorted
  return q

/-- The query of a method of an entity's repository. -/
def create (name entityName : String) (metamodel : Metamodel) (parameters : MethodParameters) :
    Result DerivedQuery := do
  match metamodel.entity? entityName with
  | none => throw (.invalidQuery (.notAnEntity entityName))
  | some entity =>
    let method ← MethodName.parse metamodel entity name
    validate method parameters
    check { method, entity, metamodel, parameters }

def returning (q : DerivedQuery) (returned : ReturnedType) : Result DerivedQuery :=
  check { q with returned }

def withCacheCapacity (q : DerivedQuery) (capacity : Nat) : DerivedQuery :=
  { q with queries := .ofCapacity capacity, counts := .ofCapacity capacity }

def withOptions (q : DerivedQuery) (options : Options) : Result DerivedQuery :=
  check { q.withCacheCapacity defaultCapacity with options }

def cachedQueries (q : DerivedQuery) : Nat := q.queries.size

/-! ### Rendering -/

def finish (q : DerivedQuery) (c : Creator) (created : Created) : Result RenderedQuery := do
  return {
    query := created.query.render, bindings := created.bindings
    binder := ← c.binder created, tuple := q.returned.usesTuple }

def render (q : DerivedQuery) (sort : Sorting) (a : Arguments) (counting : Bool) :
    Result RenderedQuery := do
  let c := q.creator (some a) counting
  q.finish c (← c.create sort)

def renderKeyset (q : DerivedQuery) (cursor : Cursor) (a : Arguments) : Result RenderedQuery := do
  let c := q.creator (some a) false
  q.finish c (← c.createKeyset cursor a.sort)

/-- Renders a query unless it is in the cache, and gives the cache back. -/
def cached (q : DerivedQuery) (cache : QueryCache RenderedQuery) (sort : Sorting) (a : Arguments)
    (counting : Bool) : Result RenderedQuery × QueryCache RenderedQuery :=
  if a.hasNull then (q.render sort a counting, cache)
  else
    match cache.get? (.of sort a) with
    | some (hit, cache) => (.ok hit, cache)
    | none =>
      match q.render sort a counting with
      | .ok rendered => (.ok rendered, cache.put (.of sort a) rendered)
      | .error e => (.error e, cache)

/-! ### Bounds -/

/-- The first row asked for: behind an offset position, else the first of the page. -/
def requestedFirst (a : Arguments) : Option Nat :=
  match a.scroll with
  | some (.offset (some n)) => some (ScrollPosition.startAfter (some n))
  | _ => a.page.offset?

/-- How many rows are asked for: the limit, else the size of the page. -/
def requestedMax (a : Arguments) : Option Nat := a.limit.or a.page.size?

/-- The bounds of a method with `First` or `Top`: its limit replaces the number of rows asked for.
If that was greater, a result that starts behind the first row starts earlier by the difference. -/
def limited (limit : Option Nat) (bounds : Option Nat × Option Nat) : Option Nat × Option Nat :=
  match limit, bounds with
  | none, bounds => bounds
  | some n, (some first, some max) => (some (if n < max then first - (max - n) else first), some n)
  | some n, (first, _) => (first, some n)

/-- First row and number of rows; one row answers whether any exists. -/
def bounds (q : DerivedQuery) (a : Arguments) : Option Nat × Option Nat :=
  let (first, max) := limited q.method.limit (requestedFirst a, requestedMax a)
  (first, if q.method.isExists then some 1 else max)

/-- One row more than a window, up to the largest number of rows that a provider can be asked for.
-/
def beyondWindow (window : Nat) : Nat := min (window + 1) PageRequest.maxRows

/-- A rendered query with its bounds; a scroll asks for one row more than its window. -/
def bounded (q : DerivedQuery) (a : Arguments) (rendered : RenderedQuery) (sort : Sorting) :
    PreparedQuery :=
  let (firstResult, max) := q.bounds a
  if a.scroll.isSome then
    { rendered, firstResult, maxResults := max.map beyondWindow, window := max, sort }
  else { rendered, firstResult, maxResults := max, sort }

/-! ### Calls -/

/-- Prepares the query of a call. -/
def prepare (q : DerivedQuery) (a : Arguments) : Result PreparedQuery × DerivedQuery :=
  match a.scroll with
  | some (.keyset cursor) =>
    let sort := (q.creator (some a) false).keysetSort cursor a.sort
    ((q.renderKeyset cursor a).map (q.bounded a · sort), q)
  | _ =>
    let (rendered, queries) := q.cached q.queries a.sort a false
    (rendered.map (q.bounded a · (q.method.sort.and a.sort)), { q with queries })

/-- Prepares the query that counts the rows of a call. -/
def prepareCount (q : DerivedQuery) (a : Arguments) : Result PreparedQuery × DerivedQuery :=
  let (rendered, counts) := q.cached q.counts .unsorted a true
  (rendered.map fun rendered => { rendered }, { q with counts })

variable {σ ρ : Type}

/-- The rows of a prepared call. -/
def rowsOf (provider : Provider σ ρ) (a : Arguments) (p : PreparedQuery) : Result (List ρ) := do
  let query ← p.create provider a
  (provider.resultList query).mapError QueryError.provider

def execute (q : DerivedQuery) (provider : Provider σ ρ) (a : Arguments) :
    Result (List ρ) × DerivedQuery :=
  let (prepared, q) := q.prepare a
  (prepared.bind (rowsOf provider a), q)

/-- The window at the scroll position of a call. `keyOf` reads the value of a property from a row.
-/
def scroll (q : DerivedQuery) (provider : Provider σ ρ) (a : Arguments)
    (keyOf : ρ → String → Value) : Result (Window ρ) × DerivedQuery :=
  match a.scroll with
  | none => (.error (.invalidArgument (.noScrollPosition q.parameters.methodName)), q)
  | some position =>
    let (prepared, q) := q.prepare a
    let window := prepared.bind fun p => do
      let rows ← rowsOf provider a p
      return .ofResult rows p.window position p.sort keyOf
    (window, q)

end DerivedQuery

end Jpql
