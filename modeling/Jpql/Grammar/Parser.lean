import Jpql.Statement
import Jpql.Token

/-! Parsers over lists of tokens. The list holds the tokens up to the end of the text; the token of
the end itself belongs to the setting, and is what a parser sees when the list is empty. -/

namespace Jpql.Grammar

/-- Two opening parentheses in a row start either a query or an expression. A fast parse gives up
there, a backtracking one tries the query first. -/
inductive Mode where
  | fast | backtracking
  deriving DecidableEq, Repr

structure Setting where
  dialect : Dialect
  mode : Mode
  eof : Token

inductive Rejection where
  | expected (what : String)
  | noAlternative
  deriving DecidableEq, Repr

inductive Failure where
  /-- A fast parse met two opening parentheses. -/
  | undecided
  | rejected (place : Token) (cause : Rejection)
  deriving DecidableEq, Repr

def Parser (α : Type) : Type := Setting → List Token → Except Failure (α × List Token)

namespace Parser

variable {α β : Type}

instance : Monad Parser where
  pure a := fun _ ts => .ok (a, ts)
  bind p f := fun s ts =>
    match p s ts with
    | .ok (a, rest) => f a s rest
    | .error e => .error e

theorem bind_eq (p : Parser α) (f : α → Parser β) (s : Setting) (ts : List Token) :
    (p >>= f) s ts = match p s ts with
      | .ok (a, rest) => f a s rest
      | .error e => .error e := rfl

instance : Inhabited (Parser α) := ⟨fun _ _ => .error .undecided⟩

/-- Runs a parser, and stays in place if it fails. -/
def attempt (p : Parser α) : Parser (Option α) := fun s ts =>
  match p s ts with
  | .ok (a, rest) => .ok (some a, rest)
  | .error _ => .ok (none, ts)

/-- Runs a loop that takes a token in each round: it ends after as many rounds as tokens are left.
-/
def bounded (p : Nat → Parser α) : Parser α := fun s ts => p ts.length s ts

end Parser

open Jpql.Grammar.Parser

variable {α : Type}

/-! ### Looking -/

def setting : Parser Setting := fun s ts => .ok (s, ts)

def dialect : Parser Dialect := do return (← setting).dialect

/-- The token `n` places ahead. -/
def peekAt (n : Nat) : Parser Token := fun s ts => .ok (ts[n]?.getD s.eof, ts)

def current : Parser Token := peekAt 0

def peek : Parser Token := peekAt 1

def atEnd : Parser Bool := fun _ ts => .ok (ts.isEmpty, ts)

def atKeyword (keyword : String) : Parser Bool := do return (← current).isKeyword keyword

def atAnyKeyword (keywords : List String) : Parser Bool := do
  let t ← current
  return keywords.any t.isKeyword

def atWord (word : String) : Parser Bool := do return (← current).isWord word

def atPunctuator (p : String) : Parser Bool := do return (← current).isPunctuator p

def nextIsOpenParen : Parser Bool := do return (← peek).isPunctuator "("

/-! ### Failing -/

def reject (cause : Rejection) : Parser α := fun s ts =>
  .error (.rejected (ts.headD s.eof) cause)

def mismatched (expected : String) : Parser α := reject (.expected expected)

def noAlternative : Parser α := reject .noAlternative

def undecided : Parser α := fun _ _ => .error .undecided

/-! ### Taking tokens -/

/-- Takes the current token, unless the text is at its end. -/
def advance : Parser String := fun s ts => .ok ((ts.headD s.eof).literal, ts.tail)

def eatIf (found : Bool) : Parser (Option String) := do
  if found then return some (← advance) else return none

def eatKeyword (keyword : String) : Parser (Option String) := do eatIf (← atKeyword keyword)

def eatWord (word : String) : Parser (Option String) := do eatIf (← atWord word)

def eatPunctuator (p : String) : Parser Bool := do return (← eatIf (← atPunctuator p)).isSome

/-- Takes the first of the keywords that is there. -/
def eatAnyKeyword : List String → Parser (Option String)
  | [] => return none
  | k :: ks => do
    match ← eatKeyword k with
    | some w => return some w
    | none => eatAnyKeyword ks

def eatAnyWord : List String → Parser (Option String)
  | [] => return none
  | k :: ks => do
    match ← eatWord k with
    | some w => return some w
    | none => eatAnyWord ks

def orMismatched (expected : String) : Option String → Parser String
  | some w => return w
  | none => mismatched expected

def expectKeyword (keyword : String) : Parser String := do
  orMismatched keyword (← eatKeyword keyword)

def expectWord (word : String) : Parser String := do orMismatched word (← eatWord word)

def expectPunctuator (p : String) : Parser Unit := do
  if ← eatPunctuator p then return else mismatched ("'" ++ p ++ "'")

/-- Two keywords in a row, as one text. -/
def expectPair (first second : String) : Parser String := do
  let a ← expectKeyword first
  let b ← expectKeyword second
  return a ++ " " ++ b

/-- A name, which may be a reserved word. -/
def expectName : Parser String := do
  if (← current).isAnyWord then advance else mismatched "identifier"

/-! ### Repeating -/

def commaTail (item : Parser α) : Nat → Parser (List α)
  | 0 => return []
  | n + 1 => do
    if ← eatPunctuator "," then
      let a ← item
      return a :: (← commaTail item n)
    else return []

/-- At least one item, with commas between them. -/
def commaList (item : Parser α) : Parser (List α) := do
  let first ← item
  return first :: (← bounded (commaTail item))

/-- Items for as long as a test holds. -/
def itemsWhile (test : Parser Bool) (item : Parser α) : Nat → Parser (List α)
  | 0 => return []
  | n + 1 => do
    if ← test then
      let a ← item
      return a :: (← itemsWhile test item n)
    else return []

def manyWhile (test : Parser Bool) (item : Parser α) : Parser (List α) :=
  bounded (itemsWhile test item)

/-- A point with a word behind it. -/
def atPathStep : Parser Bool := do
  return (← current).isPunctuator "." && (← peek).isAnyWord

/-- The words behind the points that follow. -/
def pathSteps : Parser (List String) := manyWhile atPathStep do
  let _ ← advance
  advance

/-- A name of words with points between them. -/
def qualifiedName : Parser String := do
  let first ← expectName
  return ".".intercalate (first :: (← pathSteps))

end Jpql.Grammar
