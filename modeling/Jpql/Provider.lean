import Jpql.Binding

/-! What a database provider has to offer: it creates a query from a text, takes parameter values
and result bounds, and returns rows. `σ` is the state of a created query, `ρ` the type of a row. -/

namespace Jpql

/-- A parameter that a query declares. -/
inductive QueryParameter where
  | named (name : String)
  | positional (position : Nat)
  deriving DecidableEq, Repr

namespace QueryParameter

def isNamed : QueryParameter → Bool
  | .named _ => true
  | .positional _ => false

/-- The parameter as it stands in a query text. -/
def marker : QueryParameter → String
  | .named name => ":" ++ name
  | .positional n => "?" ++ toString n

/-- Its name or position. -/
def label : QueryParameter → String
  | .named name => name
  | .positional n => toString n

end QueryParameter

/-- The operations of a provider; a failure is a text. An operation that fails may still change the
query. -/
structure Provider (σ ρ : Type) where
  create : (query : String) → (isNative tuple : Bool) → Except String σ
  parameters : σ → List QueryParameter
  set : QueryParameter → Value → Option TemporalType → σ → Except String Unit × σ
  setFirstResult : Nat → σ → σ
  setMaxResults : Nat → σ → σ
  resultList : σ → Except String (List ρ)

end Jpql
