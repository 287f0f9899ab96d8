import Jpql.Dialect

/-! Tokens of query texts. A word is a keyword if it is reserved, and an identifier otherwise; the
end of a text is a token of its own without characters. -/

namespace Jpql

/-- A place in a text: characters before it, lines counted from one, characters before it on its
line. -/
structure Position where
  offset : Nat := 0
  line : Nat := 1
  column : Nat := 0
  deriving DecidableEq, Repr

namespace Position

def next (p : Position) (c : Char) : Position :=
  if c == '\n' then ⟨p.offset + 1, p.line + 1, 0⟩ else ⟨p.offset + 1, p.line, p.column + 1⟩

/-- The place behind a text that starts at `p`. -/
def advance (p : Position) (cs : List Char) : Position := cs.foldl next p

def render (p : Position) : String := toString p.line ++ ":" ++ toString p.column

end Position

inductive TokenKind where
  | eof | illegal | identifier | keyword | string | integer | decimal | parameter | operator
  | punctuator
  deriving DecidableEq, Repr

def TokenKind.name : TokenKind → String
  | .eof => "Eof"
  | .illegal => "Illegal"
  | .identifier => "Identifier"
  | .keyword => "Keyword"
  | .string => "String"
  | .integer => "Integer"
  | .decimal => "Decimal"
  | .parameter => "Parameter"
  | .operator => "Operator"
  | .punctuator => "Punctuator"

def reservedKeywords : List String :=
  ["ALL", "AND", "ANY", "AS", "ASC", "BETWEEN", "BY", "CASE", "DELETE", "DESC", "DISTINCT",
    "ELSE", "EMPTY", "END", "ESCAPE", "EXCEPT", "EXISTS", "FALSE", "FETCH", "FROM", "GROUP",
    "HAVING", "IN", "INNER", "INTERSECT", "IS", "JOIN", "LEFT", "LIKE", "MEMBER", "NEW", "NOT",
    "NULL", "NULLS", "OF", "ON", "OR", "ORDER", "OUTER", "SELECT", "SET", "SOME", "THEN",
    "TRUE", "UNION", "UPDATE", "WHEN", "WHERE", "WITH"]

def isReserved (word : String) : Bool := reservedKeywords.any (eqIgnoringCase word)

structure Token where
  kind : TokenKind
  literal : String
  position : Position
  deriving DecidableEq, Repr

namespace Token

def isKeyword (t : Token) (keyword : String) : Bool :=
  t.kind == .keyword && eqIgnoringCase t.literal keyword

def isAnyWord (t : Token) : Bool := t.kind == .identifier || t.kind == .keyword

def isWord (t : Token) (word : String) : Bool := t.isAnyWord && eqIgnoringCase t.literal word

def isPunctuator (t : Token) (p : String) : Bool := t.kind == .punctuator && t.literal == p

def isOperator (t : Token) (op : String) : Bool := t.kind == .operator && t.literal == op

def render (t : Token) : String := if t.kind == .eof then "<EOF>" else t.literal

end Token

end Jpql
