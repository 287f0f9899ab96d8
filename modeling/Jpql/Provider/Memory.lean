import Jpql.Parameters
import Jpql.Provider

/-! A provider without a database. A query takes the parameters that occur in its text, records what
is bound, and returns the rows it was given within the result bounds. Some texts are refused, which
serves to try out how failures are reported. -/

namespace Jpql

/-- A row: the values of its properties. -/
abbrev MemoryRow := List (String × Value)

structure MemoryQuery where
  text : String := ""
  parameters : List QueryParameter
  bound : List (QueryParameter × Value × Option TemporalType) := []
  first : Nat := 0
  max : Option Nat := none
  rows : List MemoryRow := []

namespace MemoryQuery

def isNameStart (c : Char) : Bool := c.isAlpha || c == '_' || c == '$'

def isNamePart (c : Char) : Bool := c.isAlphanum || c == '_' || c == '$'

/-- The parameter whose marker stands at the front of a text, and how many characters it takes. -/
def markerAt? : List Char → Option (QueryParameter × Nat)
  | '?' :: cs =>
    let digits := cs.takeWhile Char.isDigit
    if digits.isEmpty then none
    else some (.positional (digits.foldl (fun n c => 10 * n + (c.toNat - '0'.toNat)) 0),
      digits.length + 1)
  | ':' :: c :: cs =>
    if isNameStart c then
      let name := c :: cs.takeWhile isNamePart
      some (.named (String.ofList name), name.length + 1)
    else none
  | _ => none

/-- The parameters of a text in the order of their first markers; `skip` characters belong to the
marker before. -/
def parametersFrom (found : List QueryParameter) : (skip : Nat) → List Char → List QueryParameter
  | _, [] => found.reverse
  | skip + 1, _ :: cs => parametersFrom found skip cs
  | 0, c :: cs =>
    match markerAt? (c :: cs) with
    | some (p, length) => parametersFrom (if p ∈ found then found else p :: found) (length - 1) cs
    | none => parametersFrom found 0 cs

def parametersOf (text : String) : List QueryParameter := parametersFrom [] 0 text.toList

def notLocated (label : String) : String := "Could not locate parameter " ++ label

def mentions (word : String) (text : String) : Bool := Text.contains word.toList text.toList

def create (rows : List MemoryRow) (text : String) : Except String MemoryQuery :=
  if mentions "Forbidden" text then .error (notLocated "Forbidden")
  else .ok { text, parameters := parametersOf text, rows }

/-- Binds a declared parameter; a later value replaces an earlier one. -/
def set (p : QueryParameter) (v : Value) (temporal : Option TemporalType) (q : MemoryQuery) :
    Except String Unit × MemoryQuery :=
  if p ∈ q.parameters then
    (.ok (), { q with bound := (p, v, temporal) :: q.bound.filter (·.1 != p) })
  else (.error (notLocated p.label), q)

def resultList (q : MemoryQuery) : Except String (List MemoryRow) :=
  if mentions "Broken" q.text then .error (notLocated "Broken")
  else
    let rest := q.rows.drop q.first
    .ok (match q.max with | some n => rest.take n | none => rest)

/-- The bound values in the order of their markers. -/
def sortedBound (q : MemoryQuery) : List (QueryParameter × Value × Option TemporalType) :=
  q.bound.mergeSort fun a b => !(decide (b.1.marker < a.1.marker))

end MemoryQuery

namespace MemoryRow

/-- The value of a property; null if the row lacks it. -/
def value (row : MemoryRow) (property : String) : Value := (row.lookup property).getD .null

end MemoryRow

/-- The provider of queries on fixed rows. -/
def memoryProvider (rows : List MemoryRow) : Provider MemoryQuery MemoryRow where
  create text _ _ := MemoryQuery.create rows text
  parameters := MemoryQuery.parameters
  set := MemoryQuery.set
  setFirstResult n q := { q with first := n }
  setMaxResults n q := { q with max := some n }
  resultList := MemoryQuery.resultList

namespace Arguments

/-- Evaluates the simple expressions `#name`, an argument by its name, and `[i]`, one by its index.
-/
def evaluate (expression : String) (a : Arguments) : Result Value :=
  let found := match expression.toList with
    | '#' :: name => a.valueByName? (String.ofList name)
    | '[' :: cs =>
      let digits := cs.takeWhile Char.isDigit
      if !digits.isEmpty && cs.dropWhile Char.isDigit == [']'] then
        a.value? (digits.foldl (fun n c => 10 * n + (c.toNat - '0'.toNat)) 0)
      else none
    | _ => none
  match found with
  | some v => .ok v
  | none => .error (.invalidArgument (.notEvaluable expression))

end Arguments

end Jpql
