import Jpql.MethodName.Part
import Jpql.Sorting

/-! Query methods whose names say what they look for, such as
`findDistinctTop3ByNameAndAgeOrderById`. A name has a subject up to its first `By`, then conditions
joined by `And` and `Or`, of which `And` binds closer, then an order behind `OrderBy`. A joining
keyword counts only in front of a capital. -/

namespace Jpql

structure MethodName where
  distinct : Bool := false
  isCount : Bool := false
  isExists : Bool := false
  isDelete : Bool := false
  /-- The number in `First` or `Top`. -/
  limit : Option Nat := none
  /-- Alternatives, each a list of conditions that hold together. -/
  alternatives : List (List MethodName.Part) := []
  sort : Sorting := .unsorted
  deriving DecidableEq, Repr

namespace MethodName

def parts (m : MethodName) : List Part := m.alternatives.flatten

def hasPredicate (m : MethodName) : Bool := !m.alternatives.isEmpty

def isLimiting (m : MethodName) : Bool := m.limit.isSome

/-! ### The subject -/

def findingVerbs : List (List Char) :=
  ["find", "read", "get", "query", "search", "stream"].map String.toList

def verbs : List (List Char) :=
  findingVerbs ++ ["count", "exists", "delete", "remove"].map String.toList

/-- The text behind the first of the words that stands at the front. -/
def stripAny? (words : List (List Char)) (cs : List Char) : Option (List Char) :=
  words.findSome? fun w => Text.stripFront? w cs

/-- The text behind the next `By` on the line. -/
def behindBy? : List Char → Option (List Char)
  | [] => none
  | c :: cs =>
    match Text.stripFront? ['B', 'y'] (c :: cs) with
    | some rest => some rest
    | none => if c == '\n' then none else behindBy? cs

/-- The text behind `By`, which stands at once or behind words that start with a capital. -/
def behindWords? (cs : List Char) : Option (List Char) :=
  match Text.stripFront? ['B', 'y'] cs, cs with
  | some rest, _ => some rest
  | none, c :: rest => if Text.isUpperLetter c then behindBy? rest else none
  | none, [] => none

/-- Cuts a name behind its subject; a name without a subject consists of conditions only. -/
def cutSubject (name : List Char) : List Char × List Char :=
  match (stripAny? verbs name).bind behindWords? with
  | some rest => (name.take (name.length - rest.length), rest)
  | none => ([], name)

def maxLimit : Nat := 0x10000000000000000

/-- The number that digits stand for; one if there are none or the number is not representable. -/
def limitOf (digits : List Char) : Nat :=
  if !digits.isEmpty && digits.all Char.isDigit then
    let n := digits.foldl (fun n c => 10 * n + (c.toNat - '0'.toNat)) 0
    if n < maxLimit then n else 1
  else 1

/-- The limit that `First` or `Top` in a subject states. -/
def limit? (subject : List Char) : Option Nat := do
  let afterVerb ← stripAny? findingVerbs subject
  let afterDistinct := (Text.stripFront? "Distinct".toList afterVerb).getD afterVerb
  let afterWord ← stripAny? ["First".toList, "Top".toList] afterDistinct
  let _ ← behindWords? (afterWord.dropWhile Text.isDecimalDigit)
  return limitOf (afterWord.takeWhile Text.isDecimalDigit)

/-! ### Conditions and order -/

/-- Whether a keyword may stand in front of the text. -/
def isBoundary : List Char → Bool
  | c :: _ => Text.isUpper c || !Text.isAscii c
  | [] => false

/-- Puts characters in front of the first piece. -/
def prependTo (front : List Char) : List (List Char) → List (List Char)
  | [] => [front]
  | piece :: rest => (front ++ piece) :: rest

/-- The pieces of a text between the occurrences of a keyword, written as its first letter and the
others, that stand in front of a boundary. -/
def splitKeyword (k : Char) (ks : List Char) : List Char → List (List Char)
  | [] => [[]]
  | c :: cs =>
    match _h : if c == k then Text.stripFront? ks cs else none with
    | some rest =>
      if isBoundary rest then [] :: splitKeyword k ks rest
      else prependTo (k :: ks) (splitKeyword k ks rest)
    | none => prependTo [c] (splitKeyword k ks cs)
termination_by cs => cs.length
decreasing_by
  all_goals first
    | (split at _h
       · have := Text.length_le_of_stripFront? _h
         simp only [List.length_cons]; omega
       · cases _h)
    | simp

def splitOr (cs : List Char) : List (List Char) := (splitKeyword 'O' ['r'] cs).filter (!·.isEmpty)

def splitAnd (cs : List Char) : List (List Char) :=
  (splitKeyword 'A' ['n', 'd'] cs).filter (!·.isEmpty)

/-- The pieces of an order clause, cut before each capital behind `Asc` or `Desc`; `block` holds the
characters of the current piece in reverse. -/
def directionBlocks (block : List Char) : List Char → List (List Char)
  | [] => [block.reverse]
  | c :: cs =>
    let endsIn (word : String) := (Text.stripFront? word.toList block).isSome
    let ended := endsIn "csA" || endsIn "cseD"
    if Text.isUpper c && ended then block.reverse :: directionBlocks [c] cs
    else directionBlocks (c :: block) cs

/-- The property of a block and the direction that ends it. -/
def cutDirection (block : List Char) : List Char × Direction :=
  match Text.stripEnd? "Asc".toList block, Text.stripEnd? "Desc".toList block with
  | some property, _ => (property, .asc)
  | none, some property => (property, .desc)
  | none, none => (block, .asc)

def orderOfBlock (m : Metamodel) (owner : ManagedType) (block : List Char) : Result Order := do
  let (property, direction) := cutDirection block
  if property.isEmpty then throw (.invalidQuery (.orderWithoutProperty (String.ofList block)))
  let path ← PropertyPath.ofSource m owner (String.ofList property)
  return { property := path.toDotPath, direction }

def parseSort (m : Metamodel) (owner : ManagedType) (clause : List Char) : Result Sorting := do
  return ⟨← (directionBlocks [] clause).mapM (orderOfBlock m owner)⟩

def allIgnoreCaseWords : List (List Char) := ["AllIgnoringCase".toList, "AllIgnoreCase".toList]

/-- Reads the name of a query method of `owner`. -/
def parse (m : Metamodel) (owner : ManagedType) (name : String) : Result MethodName := do
  let (subject, predicate) := cutSubject name.toList
  let (predicate, allIgnoreCase) := match Text.cutFirst? allIgnoreCaseWords predicate with
    | some (before, rest) => (before ++ rest, true)
    | none => (predicate, false)
  let (conditions, order) ← match splitKeyword 'O' "rderBy".toList predicate with
    | [] => pure ([], none)
    | [conditions] => pure (conditions, none)
    | [conditions, order] => pure (conditions, some order)
    | _ => throw (.invalidQuery .repeatedOrderBy)
  let alternatives ← (splitOr conditions).mapM fun alternative =>
    (splitAnd alternative).mapM fun part => Part.parse m owner allIgnoreCase (String.ofList part)
  let sort ← match order with
    | some clause => parseSort m owner clause
    | none => pure .unsorted
  return {
    distinct := Text.contains "Distinct".toList subject
    isCount := (Text.stripFront? "count".toList subject).isSome
    isExists := (Text.stripFront? "exists".toList subject).isSome
    isDelete := (stripAny? ["delete".toList, "remove".toList] subject).isSome
    limit := limit? subject
    alternatives, sort }

end MethodName

end Jpql
