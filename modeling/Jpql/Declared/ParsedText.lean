import Jpql.Grammar
import Jpql.Statement.Counting
import Jpql.Statement.Printer

/-! Query texts that a dialect's grammar describes. A text that the grammar rejects still has an
alias and a projection, namely none; every other question about it is answered with the rejection.
-/

namespace Jpql

structure ParsedText where
  query : String
  dialect : Dialect
  parsed : Except GrammarError Statement

namespace ParsedText

def ofString (query : String) (dialect : Dialect) : ParsedText :=
  ⟨query, dialect, parse query dialect⟩

def statement (t : ParsedText) : Result Statement := t.parsed.mapError .badGrammar

def alias? (t : ParsedText) : Option String :=
  match t.parsed with
  | .ok (.select s) => s.primarySpec.primaryAlias?
  | .ok (.update s) => s.aliasClause.map Alias.name
  | .ok (.delete s) => s.aliasClause.map Alias.name
  | .error _ => none

/-- The items that the first branch selects. -/
def items (t : ParsedText) : List SelectItem :=
  match t.parsed with
  | .ok (.select s) => s.primarySpec.items
  | _ => []

def projection (t : ParsedText) : String :=
  (Rendering.commaSeparated (t.items.map (·.expr.rendering))).render

def isConstructor : Expr → Bool
  | .construct .. => true
  | _ => false

def hasConstructor (t : ParsedText) : Bool := t.items.any fun item => isConstructor item.expr

/-- The text with a sort added; without anything to change it keeps its blanks and comments. -/
def sorted (t : ParsedText) (sort : Sorting) (returned : ReturnedType) : Result String := do
  let statement ← t.statement
  let constructs := match returned with
    | .dto .. => true
    | _ => false
  if !sort.isSorted && !constructs then return t.query
  return (← statement.sorted sort returned).render

def counting (t : ParsedText) (projection : Option String) : Result String := do
  return (← (← t.statement).counting projection).render

end ParsedText

end Jpql
