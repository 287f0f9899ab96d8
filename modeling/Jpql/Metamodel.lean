import Jpql.Value

/-! Entities and embeddable types with their attributes. A type is known by its full name; the last
segment of that name, behind `.` or `$`, is its simple name. -/

namespace Jpql

inductive AttributeKind where
  | basic | embedded | manyToOne | oneToOne | oneToMany | manyToMany | elementCollection
  deriving DecidableEq, Repr

namespace AttributeKind

def isCollection : AttributeKind → Bool
  | .oneToMany | .manyToMany | .elementCollection => true
  | _ => false

def isToOne : AttributeKind → Bool
  | .manyToOne | .oneToOne => true
  | _ => false

def isAssociation (k : AttributeKind) : Bool := k.isToOne || k.isCollection

def name : AttributeKind → String
  | .basic => "Basic"
  | .embedded => "Embedded"
  | .manyToOne => "ManyToOne"
  | .oneToOne => "OneToOne"
  | .oneToMany => "OneToMany"
  | .manyToMany => "ManyToMany"
  | .elementCollection => "ElementCollection"

end AttributeKind

structure Attribute where
  name : String
  kind : AttributeKind
  valueType : ValueType
  optional : Bool := true
  mappedBy : String := ""
  isId : Bool := false
  deriving DecidableEq, Repr

namespace Attribute

def basic (name : String) (type : ValueType) : Attribute :=
  { name, kind := .basic, valueType := type }

def id (name : String) (type : ValueType) : Attribute :=
  { basic name type with isId := true, optional := false }

def elementCollection (name : String) (element : ValueType) : Attribute :=
  { name, kind := .elementCollection, valueType := .collection element }

/-- An attribute that leads to another managed type. -/
def toType (kind : AttributeKind) (name target : String) : Attribute :=
  let single := ValueType.named target
  { name, kind, valueType := if kind.isCollection then .collection single else single }

/-- The attribute of the other side that owns the association. -/
def owner? (a : Attribute) : Option String :=
  if a.mappedBy.isEmpty then none else some a.mappedBy

def targetType (a : Attribute) : ValueType := a.valueType.element

def targetName? (a : Attribute) : Option String :=
  match a.targetType with
  | .named n => some n
  | _ => none

end Attribute

/-- The part of a type name behind the last `.` or `$`. -/
def simpleName (name : String) : String :=
  String.ofList (name.toList.reverse.takeWhile fun c => c != '.' && c != '$').reverse

structure ManagedType where
  name : String
  entityName : String
  isEntity : Bool
  attributes : List Attribute := []
  deriving DecidableEq, Repr

namespace ManagedType

def embeddable (name : String) : ManagedType :=
  { name, entityName := Jpql.simpleName name, isEntity := false }

def simpleName (t : ManagedType) : String := Jpql.simpleName t.name

def attribute? (t : ManagedType) (name : String) : Option Attribute :=
  t.attributes.find? (·.name == name)

def idAttributes (t : ManagedType) : List Attribute := t.attributes.filter (·.isId)

def hasSingleId (t : ManagedType) : Bool := t.idAttributes.length == 1

end ManagedType

/-- The registered types, no two of one name. -/
structure Metamodel where
  types : List ManagedType := []

namespace Metamodel

/-- Adds a type; it replaces an earlier one of the same name. -/
def register (m : Metamodel) (t : ManagedType) : Metamodel :=
  ⟨t :: m.types.filter (·.name != t.name)⟩

def ofList (types : List ManagedType) : Metamodel := types.foldl register {}

def managedType? (m : Metamodel) (name : String) : Option ManagedType :=
  m.types.find? (·.name == name)

def entity? (m : Metamodel) (name : String) : Option ManagedType :=
  (m.managedType? name).filter (·.isEntity)

end Metamodel

end Jpql
