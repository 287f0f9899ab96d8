import Jpql.Value

/-! What a query hands back for each row: the entity, an object built from chosen properties, a
projection of properties, a tuple of all attributes, or a single value. -/

namespace Jpql

inductive ReturnedType where
  | domain
  | dto (className : String) (properties : List String)
  | projection (properties : List String)
  | tuple
  | value (type : ValueType)
  deriving DecidableEq, Repr

namespace ReturnedType

instance : Inhabited ReturnedType := ⟨.domain⟩

def isProjecting : ReturnedType → Bool
  | .domain => false
  | _ => true

def inputProperties : ReturnedType → List String
  | .dto _ ps | .projection ps => ps
  | _ => []

/-- Whether rows have to be built from the values of named properties. -/
def needsConstruction (t : ReturnedType) : Bool := !t.inputProperties.isEmpty

def usesTuple : ReturnedType → Bool
  | .projection ps => !ps.isEmpty
  | .tuple => true
  | _ => false

end ReturnedType

end Jpql
