/-! Select, update and delete statements as trees. Keywords keep the spelling they have in the
query, so that a tree can be written out again without a change but in its blanks; words that belong
together, such as those of a join, are one text. A clause with a list of items is absent when the
list is empty. -/

namespace Jpql

/-- A name given to an item, with the word in front of it if there is one. -/
structure Alias where
  asWord : Option String := none
  name : String
  deriving DecidableEq, Repr

mutual

inductive Expr where
  | path (segments : List String)
  | parameter (text : String)
  | literal (text : String)
  | star
  | function (name : String) (arguments : List (List Fragment))
  | unary (op : String) (operand : Expr)
  | binary (left : Expr) (op : String) (right : Expr)
  | between (tested : Expr) (words : String) (low : Expr) (andWord : String) (high : Expr)
  | like (tested : Expr) (words : String) (pattern : Expr)
  | likeEscaped (tested : Expr) (words : String) (pattern : Expr) (escapeWord : String)
      (escape : Expr)
  | inValues (tested : Expr) (words : String) (values : List Expr)
  | inQuery (tested : Expr) (words : String) (query : SelectStatement)
  /-- Membership in a collection that one expression stands for. -/
  | inExpr (tested : Expr) (words : String) (collection : Expr)
  | is (tested : Expr) (words : String) (right : Option Expr)
  | member (tested : Expr) (words : String) (collection : Expr)
  | caseOf (keyword : String) (operand : Option Expr) (branches : List CaseBranch)
      (endWord : String)
  | quantified (keyword : String) (query : SelectStatement)
  | subquery (query : SelectStatement)
  | nested (inner : Expr)
  | tuple (items : List Expr)
  | construct (newWord : String) (className : String) (arguments : List Expr)
  /-- Text that is taken as it stands. -/
  | raw (text : String)

/-- A piece of an argument or of a paging clause. -/
inductive Fragment where
  | word (word : String)
  | expr (e : Expr)

inductive CaseBranch where
  | when (whenWord : String) (condition : Expr) (thenWord : String) (result : Expr)
  | otherwise (elseWord : String) (result : Expr)

/-- A condition behind `where`, `having` or `on`. -/
structure Condition where
  keyword : String
  expr : Expr

structure SelectItem where
  expr : Expr
  aliasClause : Option Alias

inductive RootSource where
  | entity (name : String)
  | collection (keyword : String) (path : Expr)
  | subquery (query : SelectStatement)

structure Join where
  words : String
  target : Expr
  aliasClause : Option Alias
  condition : Option Condition

structure FromRoot where
  source : RootSource
  aliasClause : Option Alias
  joins : List Join

structure OrderItem where
  expr : Expr
  direction : Option String
  nulls : Option String

structure QuerySpec where
  selectWord : String
  distinct : Option String
  items : List SelectItem
  fromWord : String
  roots : List FromRoot
  filter : Option Condition
  groupWords : String
  groups : List Expr
  groupFilter : Option Condition
  orderWords : String
  orders : List OrderItem
  paging : List Fragment

inductive QueryTerm where
  | spec (spec : QuerySpec)
  | nested (statement : SelectStatement)

structure SetOperation where
  words : String
  term : QueryTerm

structure Cte where
  name : String
  asWord : String
  query : SelectStatement

structure SelectStatement where
  withWords : String
  ctes : List Cte
  first : QueryTerm
  operations : List SetOperation

end

structure UpdateStatement where
  keyword : String
  entity : String
  aliasClause : Option Alias
  setWord : String
  assignments : List (Expr × Expr)
  filter : Option Condition

structure DeleteStatement where
  words : String
  entity : String
  aliasClause : Option Alias
  filter : Option Condition

inductive Statement where
  | select (s : SelectStatement)
  | update (s : UpdateStatement)
  | delete (s : DeleteStatement)

end Jpql
