import Jpql.Sorting
import Jpql.Statement.Printer
import Jpql.Text.CaseMapping
import Jpql.Text.Letter

/-! Select queries under construction: the root entity, joins that lead away from it, a selection, a
predicate and orders. A join is identified by its type, source and path; asking for it again gives
the same one. Its alias is the first letter of its path's last segment, as long as that is free. -/

namespace Jpql.Derived

/-- Where a path starts: at the root entity or at the join with an index. -/
inductive Origin where
  | root
  | join (index : Nat)
  deriving DecidableEq, Repr

inductive JoinType where
  | inner | left
  deriving DecidableEq, Repr

def JoinType.keyword : JoinType → String
  | .inner => "INNER JOIN"
  | .left => "LEFT JOIN"

structure Join where
  type : JoinType
  source : Origin
  path : String
  aliasName : String
  deriving DecidableEq, Repr

/-- A path from an origin, named after the property it leads to. -/
structure PathExpression where
  origin : Origin
  path : String
  name : String
  deriving DecidableEq, Repr

inductive Expression where
  | path (p : PathExpression)
  | parameter (position : Nat)
  | literal (text : String)
  | function (name : String) (argument : Expression)
  deriving DecidableEq, Repr

inductive Predicate where
  | compare (left : Expression) (operator : String) (right : Expression)
  | like (left : Expression) (negated : Bool) (right : Expression) (escape : Char)
  | between (tested lower upper : Expression)
  | inList (tested : Expression) (negated : Bool) (values : Expression)
  | memberOf (value : Expression) (negated : Bool) (collection : Expression)
  /-- A test such as `NULL` or `NOT EMPTY`. -/
  | is (tested : Expression) (test : String)
  | and (left right : Predicate)
  | or (left right : Predicate)
  | nested (inner : Predicate)
  deriving DecidableEq, Repr

/-- The predicate in parentheses, of which one pair is enough. -/
def Predicate.parenthesized : Predicate → Predicate
  | .nested p => .nested p
  | p => .nested p

inductive Selection where
  | entity
  | count
  | paths (paths : List PathExpression)
  | construct (className : String) (paths : List PathExpression)
  deriving DecidableEq, Repr

structure OrderExpression where
  expression : Expression
  order : Order
  deriving DecidableEq, Repr

structure SelectQuery where
  entityName : String
  aliasName : String
  selection : Selection := .entity
  distinct : Bool := false
  joins : List Join := []
  predicate : Option Predicate := none
  orders : List OrderExpression := []
  /-- How many aliases have been numbered for want of a free letter. -/
  numbered : Nat := 0
  deriving DecidableEq, Repr

/-- The first character of a name in lower case, if it can start an identifier. -/
def initial? (name : List Char) : Option String :=
  match name with
  | c :: _ =>
    if Text.isAlphabetic c || c == '_' then some (String.ofList (Text.lowerOf c)) else none
  | [] => none

/-- The part of a path behind its last point. -/
def lastSegment (path : List Char) : List Char := (path.reverse.takeWhile (· != '.')).reverse

namespace SelectQuery

def ofEntity (entityName simpleName : String) (selection : Selection) : SelectQuery :=
  { entityName, aliasName := (initial? simpleName.toList).getD "r", selection }

/-! ### Joins -/

def isFree (q : SelectQuery) (name : String) : Bool :=
  name != q.aliasName && q.joins.all (·.aliasName != name)

def push (q : SelectQuery) (type : JoinType) (source : Origin) (path : String) : SelectQuery :=
  match (initial? (lastSegment path.toList)).filter q.isFree with
  | some name => { q with joins := q.joins ++ [⟨type, source, path, name⟩] }
  | none =>
    let name := "join_" ++ toString q.numbered
    { q with joins := q.joins ++ [⟨type, source, path, name⟩], numbered := q.numbered + 1 }

def joinIndex? (q : SelectQuery) (type : JoinType) (source : Origin) (path : String) : Option Nat :=
  q.joins.findIdx? fun j => j.type == type && j.source == source && j.path == path

/-- The origin at the end of a join, which is added if it is not there. -/
def join (q : SelectQuery) (type : JoinType) (source : Origin) (path : String) :
    Origin × SelectQuery :=
  match q.joinIndex? type source path with
  | some i => (.join i, q)
  | none => (.join q.joins.length, q.push type source path)

def aliasOf (q : SelectQuery) : Origin → String
  | .root => q.aliasName
  | .join i => (q.joins[i]?.map Join.aliasName).getD q.aliasName

/-! ### Text -/

open Rendering (word text spaced call commaSeparated)

def pathText (q : SelectQuery) (p : PathExpression) : String :=
  if p.path.isEmpty then q.aliasOf p.origin else q.aliasOf p.origin ++ "." ++ p.path

def expressionRendering (q : SelectQuery) : Expression → Rendering
  | .path p => text (q.pathText p)
  | .parameter n => text ("?" ++ toString n)
  | .literal s => text s
  | .function name argument => call name (q.expressionRendering argument)

/-- A word that is negated or not. -/
def negatable (negated : Bool) (w : String) : Rendering := word (if negated then "NOT " ++ w else w)

def predicateRendering (q : SelectQuery) : Predicate → Rendering
  | .compare left operator right =>
    spaced [q.expressionRendering left, word operator, q.expressionRendering right]
  | .like left negated right escape =>
    spaced [q.expressionRendering left, negatable negated "LIKE", q.expressionRendering right,
      word "ESCAPE", text (String.ofList ['\'', escape, '\''])]
  | .between tested lower upper =>
    spaced [q.expressionRendering tested, word "BETWEEN", q.expressionRendering lower, word "AND",
      q.expressionRendering upper]
  | .inList tested negated values =>
    spaced [q.expressionRendering tested, negatable negated "IN",
      call "" (q.expressionRendering values)]
  | .memberOf value negated collection =>
    spaced [q.expressionRendering value, negatable negated "MEMBER OF",
      q.expressionRendering collection]
  | .is tested test => spaced [q.expressionRendering tested, word "IS", word test]
  | .and left right => spaced [q.predicateRendering left, word "AND", q.predicateRendering right]
  | .or left right => spaced [q.predicateRendering left, word "OR", q.predicateRendering right]
  | .nested inner => call "" (q.predicateRendering inner)

/-- A selection behind `DISTINCT`, if it is to be distinct. -/
def distinctRendering (q : SelectQuery) (selection : Rendering) : Rendering :=
  if q.distinct then spaced [word "DISTINCT", selection] else selection

def selectionRendering (q : SelectQuery) : Rendering :=
  match q.selection with
  | .entity => q.distinctRendering (text q.aliasName)
  | .count => call "COUNT" (q.distinctRendering (text q.aliasName))
  | .paths paths =>
    q.distinctRendering <|
      commaSeparated (paths.map fun p => spaced [text (q.pathText p), text p.name])
  | .construct className paths =>
    q.distinctRendering <|
      spaced [word "new", call className (commaSeparated (paths.map fun p => text (q.pathText p)))]

def orderRendering (q : SelectQuery) (item : OrderExpression) : Rendering :=
  spaced <|
    [q.expressionRendering item.expression, word item.order.direction.keyword] ++
    match item.order.nulls with
    | .native => []
    | .first => [word "NULLS FIRST"]
    | .last => [word "NULLS LAST"]

def joinRendering (q : SelectQuery) (j : Join) : List Rendering :=
  [word j.type.keyword, text (q.aliasOf j.source ++ "." ++ j.path), text j.aliasName]

def rendering (q : SelectQuery) : Rendering :=
  spaced <|
    [word "SELECT", q.selectionRendering, word "FROM", text q.entityName, text q.aliasName] ++
    q.joins.flatMap q.joinRendering ++
    (match q.predicate with
      | some p => [word "WHERE", q.predicateRendering p]
      | none => []) ++
    (if q.orders.isEmpty then []
      else [word "ORDER BY", commaSeparated (q.orders.map q.orderRendering)])

def render (q : SelectQuery) : String := q.rendering.render

end SelectQuery

end Jpql.Derived
