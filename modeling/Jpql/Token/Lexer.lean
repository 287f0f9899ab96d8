import Jpql.Text.Blank
import Jpql.Text.Word
import Jpql.Token

/-! From text to tokens. Blanks and comments are skipped, and every other character belongs to
exactly one token: each scanner cuts a text in two and never loses a character. -/

namespace Jpql.Lexer

def isIdentifierStart (c : Char) : Bool := Text.isAlphabetic c || c == '_' || c == '$'

def isIdentifierPart (c : Char) : Bool := Text.isAlphanumeric c || c == '_' || c == '$'

/-! ### Between tokens -/

inductive Gap where
  | blank | lineComment | blockComment
  deriving DecidableEq, Repr

/-- The part of a text before the next token, and the text from there. -/
def skip : Gap → List Char → List Char × List Char
  | _, [] => ([], [])
  | .blank, '-' :: '-' :: cs =>
    let (gap, rest) := skip .lineComment cs
    ('-' :: '-' :: gap, rest)
  | .blank, '/' :: '*' :: cs =>
    let (gap, rest) := skip .blockComment cs
    ('/' :: '*' :: gap, rest)
  | .blank, c :: cs =>
    if Text.isBlank c then
      let (gap, rest) := skip .blank cs
      (c :: gap, rest)
    else ([], c :: cs)
  | .lineComment, c :: cs =>
    let (gap, rest) := skip (if c == '\n' then .blank else .lineComment) cs
    (c :: gap, rest)
  | .blockComment, '*' :: '/' :: cs =>
    let (gap, rest) := skip .blank cs
    ('*' :: '/' :: gap, rest)
  | .blockComment, c :: cs =>
    let (gap, rest) := skip .blockComment cs
    (c :: gap, rest)

/-! ### Tokens -/

/-- What follows an opening quote, through the closing one; a doubled quote does not close. -/
def quotedBody (quote : Char) : List Char → List Char × List Char
  | [] => ([], [])
  | [c] => ([c], [])
  | c :: d :: cs =>
    if c == quote then
      if d == quote then
        let (body, rest) := quotedBody quote cs
        (c :: d :: body, rest)
      else ([c], d :: cs)
    else
      let (body, rest) := quotedBody quote (d :: cs)
      (c :: body, rest)

def digits (cs : List Char) : List Char × List Char :=
  (cs.takeWhile Char.isDigit, cs.dropWhile Char.isDigit)

/-- A point with at least one digit behind it. -/
def fraction (cs : List Char) : List Char × List Char :=
  match cs with
  | '.' :: d :: rest =>
    if d.isDigit then
      let (ds, rest) := digits (d :: rest)
      ('.' :: ds, rest)
    else ([], cs)
  | _ => ([], cs)

/-- An exponent: `e`, and either a sign, which needs no digit behind it, or a digit. -/
def exponent (cs : List Char) : List Char × List Char :=
  match cs with
  | e :: c :: rest =>
    if e == 'e' || e == 'E' then
      if c == '+' || c == '-' then
        let (ds, rest) := digits rest
        (e :: c :: ds, rest)
      else if c.isDigit then
        let (ds, rest) := digits (c :: rest)
        (e :: ds, rest)
      else ([], cs)
    else ([], cs)
  | _ => ([], cs)

def isNumberSuffix (c : Char) : Bool := c ∈ ['l', 'L', 'd', 'D', 'f', 'F', 'b', 'B', 'i', 'I']

/-- A number; a fraction, an exponent or any suffix but `l` makes it a decimal one. -/
def number (cs : List Char) : TokenKind × List Char × List Char :=
  let (whole, cs) := digits cs
  let (frac, cs) := fraction cs
  let (exp, cs) := exponent cs
  let suffix := cs.takeWhile isNumberSuffix
  let isInteger := frac.isEmpty && exp.isEmpty && suffix.all fun c => c == 'l' || c == 'L'
  (if isInteger then .integer else .decimal, whole ++ frac ++ exp ++ suffix,
    cs.dropWhile isNumberSuffix)

def isPunctuator (c : Char) : Bool :=
  c ∈ ['(', ')', ',', '.', '\x7b', '\x7d', '[', ']', ';']

def isOperator (c : Char) : Bool := c ∈ ['=', '<', '>', '+', '-', '*', '/', '%']

def isOperatorPair (c d : Char) : Bool :=
  (c, d) ∈ [('<', '>'), ('!', '='), ('^', '='), ('<', '='), ('>', '='), ('|', '|')]

def startsWith (p : Char → Bool) : List Char → Bool
  | c :: _ => p c
  | [] => false

/-- The kind and the characters of the token that starts with `c`, and the text behind it. -/
def scan (c : Char) (cs : List Char) : TokenKind × List Char × List Char :=
  if c == '\'' then
    let (body, rest) := quotedBody c cs
    (.string, c :: body, rest)
  else if c == '"' || c.toNat == 0x60 then
    let (body, rest) := quotedBody c cs
    (.identifier, c :: body, rest)
  else if c == '?' then
    let (ds, rest) := digits cs
    (.parameter, c :: ds, rest)
  else if c == ':' && startsWith isIdentifierStart cs then
    (.parameter, c :: cs.takeWhile isIdentifierPart, cs.dropWhile isIdentifierPart)
  else if c.isDigit || (c == '.' && startsWith Char.isDigit cs) then number (c :: cs)
  else if isIdentifierStart c then
    let word := c :: cs.takeWhile isIdentifierPart
    (if isReserved (String.ofList word) then .keyword else .identifier, word,
      cs.dropWhile isIdentifierPart)
  else if isPunctuator c then (.punctuator, [c], cs)
  else
    match cs with
    | d :: rest =>
      if isOperatorPair c d then (.operator, [c, d], rest)
      else (if isOperator c then .operator else .illegal, [c], cs)
    | [] => (if isOperator c then .operator else .illegal, [c], [])

/-- The tokens of a text that starts at `p`, of which at most `fuel` are read; since a token has at
least one character, no text has more tokens than characters. -/
def tokensFrom (fuel : Nat) (p : Position) (cs : List Char) : List Token :=
  let (gap, rest) := skip .blank cs
  let p := p.advance gap
  match fuel, rest with
  | fuel + 1, c :: cs =>
    let (kind, literal, rest) := scan c cs
    ⟨kind, String.ofList literal, p⟩ :: tokensFrom fuel (p.advance literal) rest
  | _, _ => [⟨.eof, "", p⟩]

end Lexer

/-- All tokens of a text, the last of which is its end. -/
def tokenize (text : String) : List Token := Lexer.tokensFrom text.length {} text.toList

end Jpql
