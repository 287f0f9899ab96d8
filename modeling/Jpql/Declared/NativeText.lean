import Jpql.Statement.Printer
import Jpql.Statement.Sorted
import Jpql.Text.Word

/-! Query texts that no grammar describes. They are taken apart by their top-level words, which are
those outside quotes and parentheses: the first `select`, the `from` behind it, the last
`order by`, and the clauses that stand behind an order. All positions count characters. -/

namespace Jpql.NativeText

/-! ### Top-level words -/

structure Word where
  start : Nat
  stop : Nat
  text : List Char
  depth : Nat
  deriving DecidableEq, Repr

def isWordChar (c : Char) : Bool := Text.isAlphanumeric c || c == '_' || c == '$'

def isQuote (c : Char) : Bool := c == '\'' || c == '"' || c.toNat == 0x60

/-- What the scan knows about the text before it. -/
structure Scan where
  index : Nat := 0
  depth : Nat := 0
  quote : Option Char := none
  /-- The characters of an unfinished word, the last first. -/
  word : List Char := []

namespace Scan

def finished (s : Scan) : List Word :=
  if s.word.isEmpty then [] else [⟨s.index - s.word.length, s.index, s.word.reverse, s.depth⟩]

def next (s : Scan) : Scan := { s with index := s.index + 1 }

/-- The state behind a character that belongs to no word. -/
def separator (s : Scan) (c : Char) : Scan :=
  let s := { s.next with word := [] }
  if isQuote c then { s with quote := some c }
  else if c == '(' then { s with depth := s.depth + 1 }
  else if c == ')' then { s with depth := s.depth - 1 }
  else s

end Scan

def wordsFrom (s : Scan) : List Char → List Word
  | [] => s.finished
  | c :: cs =>
    match s.quote with
    | some q => wordsFrom { s.next with quote := if c == q then none else some q } cs
    | none =>
      if isWordChar c then wordsFrom { s.next with word := c :: s.word } cs
      else s.finished ++ wordsFrom (s.separator c) cs

def topWords (cs : List Char) : List Word := (wordsFrom {} cs).filter (·.depth == 0)

def Word.is (w : Word) (keyword : String) : Bool := eqIgnoringCase (String.ofList w.text) keyword

/-! ### Patterns

Each pattern gives what it captures and the text behind its match. -/

/-- The text behind a word, read without regard to case. -/
def keyword? (word : String) (cs : List Char) : Option (List Char) :=
  (Text.stripFolded? word.toList cs).map (·.2)

/-- At least one character of a kind. -/
def some1? (p : Char → Bool) (cs : List Char) : Option (List Char × List Char) :=
  let run := cs.takeWhile p
  if run.isEmpty then none else some (run, cs.dropWhile p)

def blanks? (cs : List Char) : Option (List Char) := (some1? Text.isBlank cs).map (·.2)

def isNamePart (c : Char) : Bool := Text.isWord c || c == '$'

def isPathPart (c : Char) : Bool := isNamePart c || c == '.'

def isTablePart (c : Char) : Bool :=
  isPathPart c || c.toNat == 0x60 || c == '"' || c == '[' || c == ']'

def name? (cs : List Char) : Option (List Char × List Char) := some1? isNamePart cs

/-- `as`, blanks and a name. -/
def asName? (cs : List Char) : Option (List Char × List Char) := do
  name? (← blanks? (← keyword? "as" cs))

/-- A name, with or without `as` in front. -/
def optionalAsName? (cs : List Char) : Option (List Char × List Char) :=
  (asName? cs).or (name? cs)

/-- `from`, a table and the alias of the table. -/
def fromAlias? (cs : List Char) : Option (List Char) := do
  let (_, rest) ← some1? isTablePart (← blanks? (← keyword? "from" cs))
  return (← optionalAsName? (← blanks? rest)).1

/-- A path and its alias. -/
def joined? (cs : List Char) : Option (List Char × List Char) := do
  let (_, rest) ← some1? isPathPart cs
  optionalAsName? (← blanks? rest)

/-- `join`, a path and its alias; `fetch` may stand in front of the path. -/
def joinAlias? (cs : List Char) : Option (List Char × List Char) := do
  let target ← blanks? (← keyword? "join" cs)
  (((keyword? "fetch" target).bind blanks?).bind joined?).or (joined? target)

/-- All captures of a pattern at word boundaries, from left to right and without overlap. -/
def captures (pattern : List Char → Option (List Char × List Char)) :
    Nat → Option Char → List Char → List (List Char)
  | 0, _, _ => []
  | _ + 1, _, [] => []
  | fuel + 1, before, c :: cs =>
    let found := if before.any Text.isWord then none else pattern (c :: cs)
    match found with
    | some (captured, rest) => captured :: captures pattern fuel captured.getLast? rest
    | none => captures pattern fuel (some c) cs

def allCaptures (pattern : List Char → Option (List Char × List Char)) (cs : List Char) :
    List (List Char) :=
  captures pattern cs.length none cs

end NativeText

open NativeText

/-! ### The text -/

structure NativeText where
  query : List Char
  /-- Where the word `select` starts and stops. -/
  select : Option (Nat × Nat)
  distinct : Bool
  from? : Option Nat
  /-- Where the order clause starts and stops. -/
  order : Option (Nat × Nat)
  /-- Where the clauses behind an order start. -/
  tail : Option Nat
  alias? : Option String
  projection : String

namespace NativeText

/-- Words behind a table that are no alias. -/
def notAliases : List String :=
  ["on", "where", "having", "order", "group", "join", "natural", "left", "right", "inner", "cross",
    "full", "set", "union", "fetch", "outer", "window", "limit", "offset", "with", "for"]

def tailWords : List String := ["limit", "offset", "fetch", "for"]

/-- The words from the first that satisfies a test. -/
def fromFirst (p : Word → Bool) (words : List Word) : List Word := words.dropWhile (!p ·)

/-- The words from the last `order by`. -/
def fromLastOrderBy : List Word → Option (List Word)
  | [] => none
  | w :: ws =>
    match fromLastOrderBy ws with
    | some found => some found
    | none => if w.is "order" && ws.head?.any (·.is "by") then some (w :: ws) else none

def slice (cs : List Char) (start stop : Nat) : List Char := (cs.take stop).drop start

def trimmed (cs : List Char) : String := Text.trim (String.ofList cs)

def ofString (text : String) : NativeText :=
  let query := text.toList
  let words := topWords query
  let fromSelect := fromFirst (·.is "select") words
  let select := fromSelect.head?
  let distinctWord := fromSelect[1]?.filter (·.is "distinct")
  let fromFrom := fromFirst (·.is "from") (if select.isSome then fromSelect else words)
  let from? := fromFrom.head?.map Word.start
  let fromOrder := fromLastOrderBy words
  let behind := fromOrder.getD (if from?.isSome then fromFrom else words)
  let tail := (behind.find? fun w => tailWords.any w.is).map Word.start
  let order := (fromOrder.bind List.head?).map fun w => (w.start, tail.getD query.length)
  let projection := match select, from? with
    | some s, some f => trimmed (slice query (distinctWord.getD s).stop f)
    | _, _ => ""
  let alias? := (from?.bind fun f => (fromAlias? (query.drop f)).map String.ofList).filter fun a =>
    !notAliases.any (eqIgnoringCase a)
  { query, select := select.map fun w => (w.start, w.stop), distinct := distinctWord.isSome,
    from?, order, tail, alias?, projection }

/-- The front of a text read without regard to ASCII case. -/
def startsWithWord (word text : String) : Bool :=
  (Text.stripFront? word.toList (text.toList.map Char.toLower)).isSome

def hasConstructor (t : NativeText) : Bool := startsWithWord "new " t.projection

def knownAliases (t : NativeText) : List String :=
  (allCaptures asName? t.projection.toList ++
    (t.from?.map fun f => allCaptures joinAlias? (t.query.drop f)).getD []).map String.ofList

/-- The text with a sort put behind the orders it has, in front of the clauses that follow. -/
def sorted (t : NativeText) (sort : Sorting) : Result String := do
  if !sort.isSorted then return String.ofList t.query
  sort.orders.forM Order.check
  let known := t.knownAliases
  let items := sort.orders.map fun o => o.toItem t.alias? known
  let split := t.tail.getD t.query.length
  let head := QueryToken.plain (Text.trimEnd (String.ofList (t.query.take split)))
  let tail := trimmed (t.query.drop split)
  let front :=
    if t.order.isSome then Rendering.ofTokens [head, .comma]
    else Rendering.spaced [.ofToken head, .ofToken .orderBy]
  let sorted := front.addExpression (Rendering.commaSeparated (orderRenderings items))
  return (if tail.isEmpty then sorted else sorted.addExpression (Rendering.text tail)).render

def withoutOrder (t : NativeText) : String :=
  match t.order with
  | some (start, stop) =>
    let head := Text.trimEnd (String.ofList (t.query.take start))
    let tail := trimmed (t.query.drop stop)
    if tail.isEmpty then head else head ++ " " ++ tail
  | none => Text.trimEnd (String.ofList t.query)

/-- What is counted: the projection if it is one column or expression, else the rows. -/
def countArgument (t : NativeText) : String :=
  let list := t.projection
  let single := !list.isEmpty && !list.toList.contains ',' && list != "*" &&
    (Text.stripEnd? ".*".toList list.toList).isNone && !t.hasConstructor
  if single then (if t.distinct then "distinct " ++ list else list)
  else if t.hasConstructor then t.alias?.getD "*"
  else "*"

/-- What is left of a text behind its first `bytes` bytes of UTF-8; nothing if a character straddles
that place. -/
def dropBytes : Nat → List Char → List Char
  | 0, cs => cs
  | _, [] => []
  | bytes, c :: cs => if c.utf8Size ≤ bytes then dropBytes (bytes - c.utf8Size) cs else []

def counting (t : NativeText) (projection : Option String) : Result String :=
  match t.select, t.from? with
  | some (start, stop), some f =>
    if projection.isNone && startsWithWord "count(" t.projection then .ok t.withoutOrder
    else
      let bytes := (String.ofList (t.query.take f)).utf8ByteSize
      let body := trimmed (dropBytes bytes t.withoutOrder.toList)
      let prologue := trimmed (t.query.take start)
      .ok (Rendering.spaced <|
        (if prologue.isEmpty then [] else [Rendering.text prologue]) ++
        [Rendering.word (String.ofList (slice t.query start stop)),
          Rendering.call "count" (Rendering.text (projection.getD t.countArgument)),
          Rendering.text body]).render
  | _, _ => .error (.invalidQuery (.countNotDerivable (String.ofList t.query)))

end NativeText

end Jpql
