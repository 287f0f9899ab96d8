import Jpql.Declared.NativeText
import Jpql.Declared.ParsedText

/-! Query texts in either form, and the choice of the form. -/

namespace Jpql

inductive TextForm where
  | grammar (dialect : Dialect)
  | native
  deriving DecidableEq, Repr

/-- The forms that entity queries and native queries are read in. -/
structure FormSelector where
  entity : TextForm := .grammar .jpql
  native : TextForm := .native
  deriving DecidableEq, Repr

namespace FormSelector

def hql : FormSelector := { entity := .grammar .hql }

def eql : FormSelector := { entity := .grammar .eql }

/-- Reads all queries as native ones. -/
def fallback : FormSelector := { entity := .native }

def choose (s : FormSelector) (isNative : Bool) : TextForm :=
  if isNative then s.native else s.entity

end FormSelector

inductive QueryText where
  | parsed (t : ParsedText)
  | native (t : NativeText)

namespace QueryText

def ofString (form : TextForm) (query : String) : QueryText :=
  match form with
  | .grammar dialect => .parsed (.ofString query dialect)
  | .native => .native (.ofString query)

def query : QueryText → String
  | .parsed t => t.query
  | .native t => String.ofList t.query

def alias? : QueryText → Option String
  | .parsed t => t.alias?
  | .native t => t.alias?

def projection : QueryText → String
  | .parsed t => t.projection
  | .native t => t.projection

def hasConstructor : QueryText → Bool
  | .parsed t => t.hasConstructor
  | .native t => t.hasConstructor

/-- A native text is always valid. -/
def validate : QueryText → Result Unit
  | .parsed t => do let _ ← t.statement
  | .native _ => .ok ()

def sorted (t : QueryText) (sort : Sorting) (returned : ReturnedType) : Result String :=
  match t with
  | .parsed t => t.sorted sort returned
  | .native t => t.sorted sort

def counting (t : QueryText) (projection : Option String) : Result String :=
  match t with
  | .parsed t => t.counting projection
  | .native t => t.counting projection

end QueryText

end Jpql
