import Jpql.Binder
import Jpql.Declared.Extraction
import Jpql.Declared.QueryText

/-! Declared queries: a query text as its author wrote it, with its parameter bindings extracted and
its text read in the form that a selector chooses. -/

namespace Jpql

structure DeclaredQuery where
  extracted : ExtractedQuery
  selector : FormSelector
  text : QueryText

namespace DeclaredQuery

def ofExtracted (extracted : ExtractedQuery) (selector : FormSelector) : DeclaredQuery :=
  ⟨extracted, selector, .ofString (selector.choose extracted.isNative) extracted.query⟩

/-- A query whose text must be valid in its form. -/
def create (query : String) (isNative : Bool) (selector : FormSelector) : Result DeclaredQuery := do
  let q := ofExtracted (← ExtractedQuery.parse query isNative) selector
  q.text.validate
  return q

def query (q : DeclaredQuery) : String := q.extracted.query

def isNative (q : DeclaredQuery) : Bool := q.extracted.isNative

def bindings (q : DeclaredQuery) : List ParameterBinding := q.extracted.bindings

/-- The query that counts the rows of this one, with the bindings that it still needs. -/
def counting (q : DeclaredQuery) (projection : Option String) : Result DeclaredQuery := do
  let count ← q.text.counting projection
  return ofExtracted (← q.extracted.withText count) q.selector

/-- The text with a sort added. -/
def sorted (q : DeclaredQuery) (sort : Sorting) (returned : ReturnedType) : Result String :=
  q.text.sorted sort returned

def binder (q : DeclaredQuery) (ps : MethodParameters) : Result ParameterBinder :=
  ParameterBinder.of ps q.bindings

end DeclaredQuery

end Jpql
