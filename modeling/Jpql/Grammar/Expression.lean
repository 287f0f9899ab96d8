import Jpql.Grammar.Parser

/-! Expressions, parsed by precedence: an operand, then as long as an operator binds closer than
asked for, that operator with what belongs to it. The parsers take the rules for expressions and for
select statements inside as an argument. -/

namespace Jpql.Grammar

open Jpql.Grammar.Parser

/-- How close an operator binds, from the loosest to the closest. -/
inductive Precedence where
  | lowest | or | and | not | comparison | sum | product | sign
  deriving DecidableEq, Repr

def Precedence.rank : Precedence → Nat
  | .lowest => 0
  | .or => 1
  | .and => 2
  | .not => 3
  | .comparison => 4
  | .sum => 5
  | .product => 6
  | .sign => 7

/-- The parsers that the rules of the grammar refer back to. -/
structure Rules where
  expression : Precedence → Parser Expr
  select : Parser SelectStatement

def Rules.expressions (r : Rules) : Parser (List Expr) := commaList (r.expression .lowest)

/-- The precedence with which the current token goes on after an operand. -/
def nextPrecedence : Parser Precedence := do
  let t ← current
  let next ← peek
  if t.kind == .keyword then
    if t.isKeyword "OR" then return .or
    else if t.isKeyword "AND" then return .and
    else if ["IS", "LIKE", "IN", "BETWEEN", "MEMBER"].any t.isKeyword then return .comparison
    else if t.isKeyword "NOT" && ["LIKE", "IN", "BETWEEN", "MEMBER"].any next.isKeyword then
      return .comparison
    else return .lowest
  else if t.kind == .operator then
    if t.literal ∈ ["=", "<>", "!=", "^=", "<", ">", "<=", ">="] then return .comparison
    else if t.literal ∈ ["+", "-", "||"] then return .sum
    else if t.literal ∈ ["*", "/", "%"] then return .product
    else return .lowest
  else return .lowest

/-- A select statement in parentheses. -/
def parenthesizedQuery (r : Rules) : Parser SelectStatement := do
  expectPunctuator "("
  let query ← r.select
  expectPunctuator ")"
  return query

/-- In front of two opening parentheses, the query that may stand there. -/
def nestedQuery? (r : Rules) : Parser (Option SelectStatement) := do
  if ← nextIsOpenParen then
    match (← setting).mode with
    | .fast => undecided
    | .backtracking => attempt (parenthesizedQuery r)
  else return none

/-! ### Operands -/

def pathExpr : Parser Expr := do
  let first ← advance
  return .path (first :: (← pathSteps))

/-- Words that may stand inside an argument. -/
def argumentWords : List String := ["DISTINCT", "FROM", "AS", "ALL", "IN"]

def argumentGoesOn : Parser Bool := do
  return !((← atPunctuator ",") || (← atPunctuator ")") || (← atEnd))

def argumentFragment (r : Rules) : Parser Fragment := do
  if (← atAnyKeyword argumentWords) && !(← nextIsOpenParen) then return .word (← advance)
  else return .expr (← r.expression .lowest)

def argument (r : Rules) : Parser (List Fragment) := do
  let fragments ← manyWhile argumentGoesOn (argumentFragment r)
  if fragments.isEmpty then mismatched "expression" else return fragments

/-- Arguments up to the closing parenthesis. -/
def argumentList (r : Rules) : Nat → Parser (List (List Fragment))
  | 0 => noAlternative
  | n + 1 => do
    let a ← argument r
    if ← eatPunctuator ")" then return [a]
    expectPunctuator ","
    return a :: (← argumentList r n)

def functionCall (r : Rules) : Parser Expr := do
  if !(← dialect).acceptsFunction (← current).literal then noAlternative
  else
    let name ← advance
    expectPunctuator "("
    if ← eatPunctuator ")" then return .function name []
    return .function name (← bounded fun n => argumentList r (n + 1))

/-- A query, a tuple or an expression in parentheses. -/
def parenthesized (r : Rules) : Parser Expr := do
  match ← nestedQuery? r with
  | some query => return .subquery query
  | none =>
    expectPunctuator "("
    if ← atAnyKeyword ["SELECT", "WITH"] then
      let query ← r.select
      expectPunctuator ")"
      return .subquery query
    let first ← r.expression .lowest
    if ← atPunctuator "," then
      let rest ← bounded (commaTail (r.expression .lowest))
      expectPunctuator ")"
      return .tuple (first :: rest)
    expectPunctuator ")"
    return .nested first

def openBrace : String := "\x7b"

def closeBrace : String := "\x7d"

/-- Tokens up to the closing brace, with blanks between them. -/
def braceLiteral : Parser Expr := do
  let _ ← advance
  let parts ← manyWhile (do return !((← atPunctuator closeBrace) || (← atEnd))) advance
  expectPunctuator closeBrace
  return .literal (openBrace ++ " ".intercalate parts ++ closeBrace)

def whenBranch (r : Rules) : Parser CaseBranch := do
  let whenWord ← advance
  let condition ← r.expression .lowest
  let thenWord ← expectKeyword "THEN"
  return .when whenWord condition thenWord (← r.expression .lowest)

def caseExpr (r : Rules) : Parser Expr := do
  let keyword ← advance
  let operand ← if ← atKeyword "WHEN" then pure none else some <$> r.expression .lowest
  let whens ← manyWhile (atKeyword "WHEN") (whenBranch r)
  if whens.isEmpty then mismatched "WHEN"
  else
    let otherwise ← match ← eatKeyword "ELSE" with
      | some elseWord => do pure [CaseBranch.otherwise elseWord (← r.expression .lowest)]
      | none => pure []
    let endWord ← expectKeyword "END"
    return .caseOf keyword operand (whens ++ otherwise) endWord

def constructorCall (r : Rules) : Parser Expr := do
  let newWord ← advance
  let className ← qualifiedName
  expectPunctuator "("
  let arguments ← r.expressions
  expectPunctuator ")"
  return .construct newWord className arguments

/-- An operand that starts with a reserved word. -/
def keywordOperand (r : Rules) : Parser Expr := do
  let t ← current
  if t.isKeyword "NOT" then
    let op ← advance
    return .unary op (← r.expression .not)
  else if t.isKeyword "EXISTS" then
    let op ← advance
    if ← atPunctuator "(" then return .unary op (← parenthesized r) else mismatched "'('"
  else if ["TRUE", "FALSE", "NULL"].any t.isKeyword then return .literal (← advance)
  else if t.isKeyword "CASE" then caseExpr r
  else if t.isKeyword "NEW" then constructorCall r
  else if ["ALL", "ANY", "SOME"].any t.isKeyword && (← nextIsOpenParen) then
    let keyword ← advance
    return .quantified keyword (← parenthesizedQuery r)
  else if t.isKeyword "LEFT" && (← nextIsOpenParen) then functionCall r
  else mismatched "expression"

def operand (r : Rules) : Parser Expr := do
  let t ← current
  match t.kind with
  | .parameter => return .parameter (← advance)
  | .string | .integer | .decimal => return .literal (← advance)
  | .operator =>
    if t.literal == "-" || t.literal == "+" then
      let op ← advance
      return .unary op (← r.expression .sign)
    else if t.literal == "*" then
      let _ ← advance
      return .star
    else noAlternative
  | .identifier => if ← nextIsOpenParen then functionCall r else pathExpr
  | .punctuator =>
    if t.literal == "(" then parenthesized r
    else if t.literal == openBrace then braceLiteral
    else noAlternative
  | .keyword => keywordOperand r
  | .eof => mismatched "expression"
  | .illegal => noAlternative

/-! ### Operators -/

/-- What follows `is`. -/
def isTest (r : Rules) (left : Expr) : Parser Expr := do
  let isWord ← advance
  let notWord ← eatKeyword "NOT"
  let words := isWord :: notWord.toList
  match ← eatKeyword "DISTINCT" with
  | some distinct =>
    let fromWord ← expectKeyword "FROM"
    let right ← r.expression .comparison
    return .is left (" ".intercalate (words ++ [distinct, fromWord])) (some right)
  | none =>
    let word ← orMismatched "\x7bNULL, EMPTY, TRUE, FALSE\x7d"
      (← eatAnyKeyword ["NULL", "EMPTY", "TRUE", "FALSE"])
    return .is left (" ".intercalate (words ++ [word])) none

def likeTest (r : Rules) (left : Expr) (words : String) : Parser Expr := do
  let pattern ← r.expression .comparison
  match ← eatKeyword "ESCAPE" with
  | some escapeWord => return .likeEscaped left words pattern escapeWord (← operand r)
  | none => return .like left words pattern

/-- What follows `in`: one expression, a query, or a list that may be empty. -/
def inTest (r : Rules) (left : Expr) (words : String) : Parser Expr := do
  if !(← atPunctuator "(") then return .inExpr left words (← operand r)
  else
    match ← nestedQuery? r with
    | some query => return .inQuery left words query
    | none =>
      let next ← peek
      if ["SELECT", "WITH"].any next.isKeyword then
        return .inQuery left words (← parenthesizedQuery r)
      let _ ← advance
      if ← eatPunctuator ")" then return .inValues left words []
      let values ← r.expressions
      expectPunctuator ")"
      return .inValues left words values

def betweenTest (r : Rules) (left : Expr) (words : String) : Parser Expr := do
  let low ← r.expression .comparison
  let andWord ← expectKeyword "AND"
  let high ← r.expression .comparison
  return .between left words low andWord high

def memberTest (r : Rules) (left : Expr) (words : List String) : Parser Expr := do
  let ofWord ← eatKeyword "OF"
  return .member left (" ".intercalate (words ++ ofWord.toList)) (← r.expression .comparison)

/-- Goes on after `left` with the current operator, which binds as `precedence` says. -/
def extend (r : Rules) (left : Expr) (precedence : Precedence) : Parser Expr := do
  let t ← current
  if t.kind == .operator || t.isKeyword "AND" || t.isKeyword "OR" then
    let op ← advance
    return .binary left op (← r.expression precedence)
  else if t.isKeyword "IS" then isTest r left
  else
    let notWord ← eatKeyword "NOT"
    let t ← current
    let words := notWord.toList ++ [← advance]
    let joined := " ".intercalate words
    if eqIgnoringCase t.literal "LIKE" then likeTest r left joined
    else if eqIgnoringCase t.literal "IN" then inTest r left joined
    else if eqIgnoringCase t.literal "BETWEEN" then betweenTest r left joined
    else if eqIgnoringCase t.literal "MEMBER" then memberTest r left words
    else noAlternative

/-- Goes on after `left` for as long as operators bind closer than `precedence`. -/
def extendWhile (r : Rules) (precedence : Precedence) (left : Expr) : Nat → Parser Expr
  | 0 => return left
  | n + 1 => do
    let next ← nextPrecedence
    if next.rank ≤ precedence.rank then return left
    else extendWhile r precedence (← extend r left next) n

def expression (r : Rules) (precedence : Precedence) : Parser Expr := do
  let left ← operand r
  bounded (extendWhile r precedence left)

end Jpql.Grammar
