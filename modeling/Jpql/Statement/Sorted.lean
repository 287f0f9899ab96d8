import Jpql.Error
import Jpql.ReturnedType
import Jpql.Sorting
import Jpql.Statement
import Jpql.Text.Blank
import Jpql.Text.Search

/-! Adding orders to a select statement. Orders go to its last branch, behind those that stand
there. A property is qualified with the alias of the first root, unless it starts with a known
alias. An order that is not marked as a raw expression must consist of words and points. -/

namespace Jpql

def isAsciiPunctuation (c : Char) : Bool :=
  let n := c.toNat
  (33 ≤ n && n ≤ 47) || (58 ≤ n && n ≤ 64) || (91 ≤ n && n ≤ 96) || (123 ≤ n && n ≤ 126)

namespace Order

/-- Whether the property could be more than a path of names. -/
def hasPunctuation (o : Order) : Bool :=
  o.property.toList.any fun c => Text.isBlank c || (isAsciiPunctuation c && c != '.' && c != '_')

def check (o : Order) : Result Unit :=
  if !o.rawExpression && o.hasPunctuation then .error (.unsafeSort o.render) else .ok ()

/-- Whether a property is `name` or a path that starts there. -/
def isQualifiedBy (property name : String) : Bool :=
  match Text.stripFront? name.toList property.toList with
  | some [] => true
  | some (c :: _) => c == '.'
  | none => false

def needsQualifier (property root : String) (known : List String) : Bool :=
  !property.toList.contains '(' && !(root :: known).any (isQualifiedBy property)

/-- The order as an item of an order clause. -/
def toItem (o : Order) (root? : Option String) (known : List String) : OrderItem :=
  let reference := match root? with
    | some a => if needsQualifier o.property a known then a ++ "." ++ o.property else o.property
    | none => o.property
  { expr := if o.ignoreCase then .function "lower" [[.expr (.raw reference)]] else .raw reference
    direction := some o.direction.keyword
    nulls := match o.nulls with
      | .native => none
      | .first => some "NULLS FIRST"
      | .last => some "NULLS LAST" }

end Order

/-! ### The branches of a statement -/

mutual

/-- Changes the last branch, also inside parentheses. -/
def SelectStatement.mapLastSpec (f : QuerySpec → QuerySpec) : SelectStatement → SelectStatement
  | ⟨withWords, ctes, first, []⟩ => ⟨withWords, ctes, first.mapLastSpec f, []⟩
  | ⟨withWords, ctes, first, o :: os⟩ => ⟨withWords, ctes, first, mapLastOperation f (o :: os)⟩

def QueryTerm.mapLastSpec (f : QuerySpec → QuerySpec) : QueryTerm → QueryTerm
  | .spec s => .spec (f s)
  | .nested s => .nested (s.mapLastSpec f)

def mapLastOperation (f : QuerySpec → QuerySpec) : List SetOperation → List SetOperation
  | [] => []
  | [⟨words, term⟩] => [⟨words, term.mapLastSpec f⟩]
  | o :: o' :: os => o :: mapLastOperation f (o' :: os)

end

mutual

/-- The first branch, also inside parentheses. -/
def SelectStatement.primarySpec : SelectStatement → QuerySpec
  | ⟨_, _, first, _⟩ => first.primarySpec

def QueryTerm.primarySpec : QueryTerm → QuerySpec
  | .spec s => s
  | .nested s => s.primarySpec

end

namespace QuerySpec

def primaryAlias? (s : QuerySpec) : Option String :=
  s.roots.head?.bind fun root => root.aliasClause.map Alias.name

/-- The aliases that a path may start with, apart from that of the first root. -/
def knownAliases (s : QuerySpec) : List String :=
  (s.items.map SelectItem.aliasClause ++ (s.roots.drop 1).map FromRoot.aliasClause ++
    (s.roots.flatMap FromRoot.joins).map Join.aliasClause).filterMap (·.map Alias.name)

def withOrders (s : QuerySpec) (sort : Sorting) : QuerySpec :=
  let items := sort.orders.map fun o => o.toItem s.primaryAlias? s.knownAliases
  { s with
    orderWords := if s.orders.isEmpty then "order by" else s.orderWords
    orders := s.orders ++ items }

/-- Selects a new object instead of the first root, where that is all that is selected. -/
def constructing (className : String) (properties : List String) (s : QuerySpec) : QuerySpec :=
  match s.primaryAlias?, s.items with
  | some root, [⟨.path segments, _⟩] =>
    if ".".intercalate segments == root then
      let arguments := properties.map fun p => Expr.path [root, p]
      { s with items := [⟨.construct "new" className arguments, none⟩] }
    else s
  | _, _ => s

end QuerySpec

namespace SelectStatement

def constructing (className : String) (properties : List String) (s : SelectStatement) :
    SelectStatement :=
  match s.first with
  | .spec spec => { s with first := .spec (spec.constructing className properties) }
  | .nested _ => s

end SelectStatement

/-- The statement with a sort added and its selection adapted to the returned type; a modifying
statement stays as it is. -/
def Statement.sorted (s : Statement) (sort : Sorting) (returned : ReturnedType) :
    Result Statement :=
  match s with
  | .select query => do
    sort.orders.forM Order.check
    let query := match returned with
      | .dto className properties =>
        if properties.isEmpty then query else query.constructing className properties
      | _ => query
    return .select (if sort.isSorted then query.mapLastSpec (·.withOrders sort) else query)
  | s => .ok s

end Jpql
