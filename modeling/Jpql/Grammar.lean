import Jpql.Error
import Jpql.Grammar.Clause
import Jpql.Token.Lexer

/-! The grammar as a whole. Each level of nesting takes at least one token, so rules that are
unfolded once more than there are tokens never reach the bottom. A query is parsed fast; only where
that is undecided it is parsed again with backtracking. -/

namespace Jpql.Grammar

/-- The rules, unfolded to a depth. -/
def rules : Nat → Rules
  | 0 => ⟨fun _ => noAlternative, noAlternative⟩
  | n + 1 => ⟨expression (rules n), selectStatement (rules n)⟩

/-- Parses a list of tokens whose last is the end of the text. -/
def parseTokens (tokens : List Token) (dialect : Dialect) (mode : Mode) :
    Except Failure Statement :=
  let eof := tokens.getLast?.getD ⟨.eof, "", {}⟩
  (statement (rules (tokens.length + 1)) ⟨dialect, mode, eof⟩ tokens.dropLast).map (·.1)

/-! ### Messages -/

/-- The lines of a text; a carriage return in front of a line break belongs to the break. -/
def linesOf (cs : List Char) : List (List Char) :=
  match cs with
  | [] => [[]]
  | '\r' :: '\n' :: rest => [] :: linesOf rest
  | c :: rest =>
    if c == '\n' then [] :: linesOf rest
    else
      match linesOf rest with
      | [] => [[c]]
      | line :: lines => (c :: line) :: lines

/-- The line of a place in the text, with a star at the place. -/
def markedLine (query : String) (p : Position) : String :=
  let line := (linesOf query.toList)[p.line - 1]?.getD []
  String.ofList (line.take p.column ++ '*' :: line.drop p.column)

def Rejection.reason (query : String) (place : Token) : Rejection → String
  | .expected what =>
    "At " ++ place.position.render ++ " and token '" ++ place.render ++ "', mismatched input '" ++
      place.render ++ "' expecting " ++ what
  | .noAlternative =>
    "At " ++ place.position.render ++ " and token '" ++ place.render ++
      "', no viable alternative at input '" ++ markedLine query place.position ++ "'"

/-- The error of a failed parse; what stays undecided counts as rejected at its first token. -/
def Failure.toError (query : String) (dialect : Dialect) (first : Token) : Failure → GrammarError
  | .rejected place cause => ⟨cause.reason query place, dialect, query⟩
  | .undecided => ⟨Rejection.noAlternative.reason query first, dialect, query⟩

end Grammar

/-- Parses a query text. -/
def parse (query : String) (dialect : Dialect) : Except GrammarError Statement :=
  let tokens := tokenize query
  let outcome := match Grammar.parseTokens tokens dialect .fast with
    | .error .undecided => Grammar.parseTokens tokens dialect .backtracking
    | outcome => outcome
  outcome.mapError (·.toError query dialect (tokens.headD ⟨.eof, "", {}⟩))

end Jpql
