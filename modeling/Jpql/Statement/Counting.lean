import Jpql.Statement.Sorted

/-! Count queries. In every branch the selection gives way to a single count and the order is
dropped. What is counted is a given projection, or the path that the branch selects if it is alone,
or the alias of the first root, which gets one if it has none and nothing else names it. -/

namespace Jpql

def syntheticAlias : String := "__"

def Expr.isCount : Expr → Bool
  | .function name _ => eqIgnoringCase name "count"
  | _ => false

namespace QuerySpec

def giveAlias (s : QuerySpec) : QuerySpec :=
  match s.items, s.roots with
  | [], root :: roots =>
    let aliasClause := some (root.aliasClause.getD ⟨none, syntheticAlias⟩)
    { s with roots := { root with aliasClause } :: roots }
  | _, _ => s

/-- The argument of the count when no projection is given. -/
def counted (s : QuerySpec) : List Fragment :=
  let target := match s.items with
    | [⟨.path segments, _⟩] => Expr.path segments
    | _ => .path [s.primaryAlias?.getD syntheticAlias]
  (s.distinct.map Fragment.word).toList ++ [Fragment.expr target]

def selectsCount (s : QuerySpec) : Bool :=
  match s.items with
  | [item] => item.expr.isCount
  | _ => false

def counting (projection : Option String) (s : QuerySpec) : QuerySpec :=
  let s := { s.giveAlias with orderWords := "", orders := [] }
  if projection.isNone && s.selectsCount then s
  else
    let argument := match projection with
      | some p => [Fragment.expr (.raw p)]
      | none => s.counted
    { s with
      selectWord := if s.items.isEmpty then "select" else s.selectWord
      distinct := none
      items := [⟨.function "count" [argument], none⟩] }

end QuerySpec

mutual

/-- Changes every branch, also inside parentheses. -/
def SelectStatement.mapSpecs (f : QuerySpec → QuerySpec) : SelectStatement → SelectStatement
  | ⟨withWords, ctes, first, operations⟩ =>
    ⟨withWords, ctes, first.mapSpecs f, mapOperations f operations⟩

def QueryTerm.mapSpecs (f : QuerySpec → QuerySpec) : QueryTerm → QueryTerm
  | .spec s => .spec (f s)
  | .nested s => .nested (s.mapSpecs f)

def mapOperations (f : QuerySpec → QuerySpec) : List SetOperation → List SetOperation
  | [] => []
  | ⟨words, term⟩ :: operations => ⟨words, term.mapSpecs f⟩ :: mapOperations f operations

end

def Statement.counting (s : Statement) (projection : Option String) : Result Statement :=
  match s with
  | .select query => .ok (.select (query.mapSpecs (·.counting projection)))
  | _ => .error (.invalidQuery .countOfModifyingQuery)

end Jpql
