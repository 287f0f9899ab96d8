import Jpql.Text.Blank
import Jpql.Text.Numeral
import Jpql.Text.Search
import Jpql.Text.Separator
import Jpql.Text.Word

/-! Parameter markers in query texts: `?`, `?1` and `:name`, with the word `like` or `in` and the
wildcards around them, and value expressions such as `:#{…}`. What stands in quotes is no marker. -/

namespace Jpql.Markers

/-! ### Quotes -/

def isQuote (c : Char) : Bool := c == '\'' || c == '"'

/-- The open quote behind `c`. -/
def quoteAfter (opened : Option Char) (c : Char) : Option Char :=
  match opened with
  | none => if isQuote c then some c else none
  | some q => if c == q then none else some q

def quoteAfterAll (opened : Option Char) (cs : List Char) : Option Char :=
  cs.foldl quoteAfter opened

/-! ### Labels -/

/-- The positions in use. As long as they are the numbers from one on, the next one is known. -/
structure Labels where
  used : List Nat
  sequential : Bool
  deriving DecidableEq, Repr

namespace Labels

def insert (n : Nat) (used : List Nat) : List Nat := if n ∈ used then used else n :: used

@[simp] theorem mem_insert {n k : Nat} {used : List Nat} :
    k ∈ insert n used ↔ k = n ∨ k ∈ used := by
  unfold insert
  split <;> grind

def ofUsed (used : List Nat) : Labels :=
  ⟨used, (List.range used.length).all fun i => (i + 1) ∈ used⟩

/-- The least positive number that is not in the list. -/
def firstFree (used : List Nat) : Nat :=
  (((List.range (used.length + 1)).map (· + 1)).find? (· ∉ used)).getD (used.length + 1)

/-- A label that is not in use yet, from then on in use. -/
def allocate (l : Labels) : Nat × Labels :=
  let n := if l.sequential then l.used.length + 1 else firstFree l.used
  (n, { l with used := insert n l.used })

end Labels

/-- Whether a marker that ends in digits would go on with the character. -/
def continuesMarker (c : Char) : Bool := c == '#' || Text.isAlphanumeric c || c == '_'

/-- Positions are bounded so that they fit a machine word. -/
def maxPosition : Nat := 0x10000000000000000

/-- The number that digits stand for, if all are ASCII digits. -/
def position? (digits : List Char) : Option Nat :=
  if !digits.isEmpty && digits.all Char.isDigit then
    let n := digits.foldl (fun n c => 10 * n + (c.toNat - '0'.toNat)) 0
    if n < maxPosition then some n else none
  else none

/-- The position of a marker whose `?` stands in front of `cs`. -/
def positionIn? (cs : List Char) : Option Nat :=
  if (cs.dropWhile Text.isDecimalDigit).head?.any continuesMarker then none
  else position? (cs.takeWhile Text.isDecimalDigit)

/-- The positions that a text uses, also in quotes. -/
def positions : List Char → List Nat
  | [] => []
  | c :: cs =>
    if c == '?' then
      match positionIn? cs with
      | some n => Labels.insert n (positions cs)
      | none => positions cs
    else positions cs

/-! ### Value expressions -/

/-- Cuts a text at the brace that closes it; `depth` braces are open inside. -/
def cutAtBrace? : (depth : Nat) → List Char → Option (List Char × List Char)
  | _, [] => none
  | depth, c :: cs =>
    if c == '\x7b' then (cutAtBrace? (depth + 1) cs).map fun (inner, rest) => (c :: inner, rest)
    else if c == '\x7d' then
      match depth with
      | 0 => some ([], cs)
      | depth + 1 => (cutAtBrace? depth cs).map fun (inner, rest) => (c :: inner, rest)
    else (cutAtBrace? depth cs).map fun (inner, rest) => (c :: inner, rest)

/-- The text behind `:#` or `?#` and an opening brace. -/
def expressionStart? (cs : List Char) : Option (List Char) :=
  (Text.stripFront? [':', '#', '\x7b'] cs).or (Text.stripFront? ['?', '#', '\x7b'] cs)

/-- A text with its value expressions replaced by markers, the expressions by their markers' names,
and the labels still free. -/
structure Substituted where
  text : List Char := []
  expressions : List (String × String) := []
  labels : Labels

namespace Substituted

def expression? (s : Substituted) (name : String) : Option String := s.expressions.lookup name

/-- Adds a marker for an expression, numbered or with a reserved name. -/
def push (s : Substituted) (byIndex : Bool) (expression : String) : Substituted :=
  if byIndex then
    let (n, labels) := s.labels.allocate
    { text := s.text ++ '?' :: (toString n).toList
      expressions := s.expressions ++ [(toString n, expression)], labels }
  else
    let name := "__$synthetic$__" ++ toString (s.expressions.length + 1)
    { s with
      text := s.text ++ ':' :: name.toList, expressions := s.expressions ++ [(name, expression)] }

end Substituted

/-- Replaces the value expressions outside quotes, up to the first that is not closed. No text has
more of them than characters, which is what `fuel` starts with. -/
def substituteFrom (byIndex : Bool) :
    (fuel : Nat) → Option Char → Substituted → List Char → Substituted
  | 0, _, s, cs => { s with text := s.text ++ cs }
  | _ + 1, _, s, [] => s
  | fuel + 1, opened, s, c :: cs =>
    match if opened.isSome then none else expressionStart? (c :: cs) with
    | some body =>
      match cutAtBrace? 0 body with
      | some (inner, rest) =>
        let taken := (c :: cs).take ((c :: cs).length - rest.length)
        substituteFrom byIndex fuel (quoteAfterAll opened taken)
          (s.push byIndex (Text.trim (String.ofList inner))) rest
      | none => { s with text := s.text ++ c :: cs }
    | none =>
      substituteFrom byIndex fuel (quoteAfter opened c) { s with text := s.text ++ [c] } cs

def substitute (byIndex : Bool) (labels : Labels) (cs : List Char) : Substituted :=
  substituteFrom byIndex cs.length none { labels } cs

/-! ### Markers -/

inductive Marker where
  | unnumbered
  | numbered (n : Nat)
  | named (name : String)
  deriving DecidableEq, Repr

/-- A marker with what stands around it. -/
structure Occurrence where
  /-- `like` or `in` as it is spelled, or nothing. -/
  keyword : String
  /-- The marker with the wildcards on its sides. -/
  decorated : String
  marker : Marker
  deriving DecidableEq, Repr

inductive Piece where
  | text (cs : List Char)
  | occurrence (o : Occurrence)
  deriving DecidableEq, Repr

def isNameChar (c : Char) : Bool :=
  !Text.isSeparator c && (!Text.isAscii c || c.isAlphanum || c == '$' || c == '.' || c == '_')

/-- The character if it stands at the front, and the text behind it. -/
def optionalChar (w : Char) (cs : List Char) : List Char × List Char :=
  match cs with
  | c :: rest => if c == w then ([c], rest) else ([], cs)
  | [] => ([], [])

/-- `like` or `in` with a blank behind it. -/
def optionalKeyword (cs : List Char) : List Char × List Char :=
  ((Text.stripFolded? "like ".toList cs).or (Text.stripFolded? "in ".toList cs)).getD ([], cs)

/-- The marker at the front of a text, its characters, and the text behind it. A name does not count
behind a colon or a backslash, nor a number in front of a letter. -/
def marker? (before : Option Char) : List Char → Option (Marker × List Char × List Char)
  | '?' :: cs =>
    let digits := cs.takeWhile Text.isDecimalDigit
    let rest := cs.dropWhile Text.isDecimalDigit
    if rest.head?.any continuesMarker then none
    else if digits.isEmpty then some (.unnumbered, ['?'], rest)
    else (position? digits).map fun n => (.numbered n, '?' :: digits, rest)
  | ':' :: cs =>
    let name := cs.takeWhile isNameChar
    if name.isEmpty || before.any (fun c => c == ':' || c == '\\') then none
    else some (.named (String.ofList name), ':' :: name, cs.dropWhile isNameChar)
  | _ => none

/-- An occurrence at the front of a text, what stands in front of it, a parenthesis behind it, and
the text behind that. `before` is the character before the text. -/
def occurrence? (before : Option Char) (cs : List Char) :
    Option (List Char × Occurrence × List Char × List Char) := do
  let (keyword, cs) := optionalKeyword cs
  let (blank, cs) := optionalChar ' ' cs
  let (opening, cs) := optionalChar '(' cs
  let (percent, cs) := optionalChar '%' cs
  let lead := keyword ++ blank ++ opening
  let word := Text.trim (String.ofList keyword)
  let (marker, spelled, cs) ← marker? ((lead ++ percent).getLast?.or before) cs
  let (percent', cs) := optionalChar '%' cs
  let (closing, cs) := optionalChar ')' cs
  return (lead, ⟨word, String.ofList (percent ++ spelled ++ percent'), marker⟩, closing, cs)

/-- Cuts a text into occurrences of markers and what stands between them; an occurrence in quotes is
text. No text has more pieces than characters, which is what `fuel` starts with. -/
def piecesFrom : (fuel : Nat) → (opened before : Option Char) → List Char → List Piece
  | _, _, _, [] => []
  | 0, _, _, cs => [.text cs]
  | fuel + 1, opened, before, c :: cs =>
    match occurrence? before (c :: cs) with
    | some (lead, o, closing, rest) =>
      let taken := (c :: cs).take ((c :: cs).length - rest.length)
      let pieces := piecesFrom fuel (quoteAfterAll opened taken) (taken.getLast?.or before) rest
      if opened.isSome then .text taken :: pieces
      else .text lead :: .occurrence o :: .text closing :: pieces
    | none => .text [c] :: piecesFrom fuel (quoteAfter opened c) (some c) cs

def pieces (cs : List Char) : List Piece := piecesFrom cs.length none none cs

end Jpql.Markers
