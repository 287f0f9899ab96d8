import Jpql.Json
import Jpql.Text.Search
import Jpql.Uuid

/-! Reading JSON texts. A reader takes what it reads off the front of a text and gives it together
with the text behind it. A number without point and exponent is an integer if it fits 64 bits; every
other number is a float, and so is `-0`, which no integer stands for. -/

namespace Jpql.Json

def isBlank (c : Char) : Bool := c == ' ' || c == '\t' || c == '\n' || c == '\r'

def skipBlanks (cs : List Char) : List Char := cs.dropWhile isBlank

/-! ### Numbers -/

/-- A number as it is written. -/
structure Numeral where
  negative : Bool
  whole : List Char
  fraction : List Char := []
  exponent : Option Int := none
  deriving DecidableEq, Repr

def digitValue (c : Char) : Nat := c.toNat - '0'.toNat

/-- Appends digits to `n` as long as the number fits 64 bits. Gives the number and how many digits
are left out. -/
def appendDigits (n : Nat) : List Char → Nat × Nat
  | [] => (n, 0)
  | d :: ds =>
    let next := 10 * n + digitValue d
    if next < 0x10000000000000000 then appendDigits next ds else (n, ds.length + 1)

/-- The largest power of ten that is a float. -/
def maxPower : Nat := 308

def powerOfTen (n : Nat) : Float := Float.ofScientific 1 false n

/-- `x / 10 ^ n`, by the largest power of ten first. -/
def shiftDown (x : Float) (n : Nat) : Float :=
  if n ≤ maxPower then x / powerOfTen n
  else if x == 0 then x
  else shiftDown (x / powerOfTen maxPower) (n - maxPower)
termination_by n
decreasing_by
  simp only [maxPower] at *
  omega

/-- The float `n * 10 ^ e`, where `n` is rounded before it is scaled; none if it is too large. -/
def scaled? (n : Nat) (e : Int) : Option Float :=
  let x := Float.ofNat n
  if e < 0 then some (shiftDown x e.natAbs)
  else if e.natAbs ≤ maxPower then
    let y := x * powerOfTen e.natAbs
    if y.isInf then none else some y
  else if n == 0 then some x
  else none

namespace Numeral

def isInteger (n : Numeral) : Bool := n.fraction.isEmpty && n.exponent.isNone

/-- Digits beyond 64 bits count as zeros. -/
def float? (n : Numeral) : Option Float :=
  let (m, zeros) := appendDigits 0 n.whole
  let (m, left) := appendDigits m n.fraction
  let places := n.fraction.length - left
  (scaled? m (n.exponent.getD 0 + zeros - places)).map fun x => if n.negative then -x else x

def value? (n : Numeral) : Option Json :=
  let (m, left) := appendDigits 0 n.whole
  let fits := left == 0 && (!n.negative || (0 < m && m ≤ 0x8000000000000000))
  if n.isInteger && fits then some (.int (if n.negative then -(m : Int) else m))
  else n.float?.map .float

end Numeral

/-- At least one digit. -/
def digits? (cs : List Char) : Option (List Char × List Char) :=
  let run := cs.takeWhile Char.isDigit
  if run.isEmpty then none else some (run, cs.dropWhile Char.isDigit)

/-- Digits of an integer part, which has no zeros in front. -/
def whole? (cs : List Char) : Option (List Char × List Char) := do
  let (ds, rest) ← digits? cs
  guard (ds.head? != some '0' || ds.length == 1)
  return (ds, rest)

def fraction? : List Char → Option (List Char × List Char)
  | '.' :: cs => digits? cs
  | cs => some ([], cs)

def sign : List Char → Bool × List Char
  | '-' :: cs => (true, cs)
  | '+' :: cs => (false, cs)
  | cs => (false, cs)

def exponent? : List Char → Option (Option Int × List Char)
  | [] => some (none, [])
  | c :: cs =>
    if c == 'e' || c == 'E' then do
      let (negative, cs) := sign cs
      let (ds, rest) ← digits? cs
      let n : Int := ds.foldl (fun n d => 10 * n + digitValue d) 0
      return (some (if negative then -n else n), rest)
    else some (none, c :: cs)

def numeral? (cs : List Char) : Option (Numeral × List Char) := do
  let negative := cs.head? == some '-'
  let (whole, cs) ← whole? (if negative then cs.tail else cs)
  let (fraction, cs) ← fraction? cs
  let (exponent, cs) ← exponent? cs
  return (⟨negative, whole, fraction, exponent⟩, cs)

/-! ### Strings -/

/-- A unit of sixteen bits in four hexadecimal digits. -/
def unit? : List Char → Option (Nat × List Char)
  | a :: b :: c :: d :: cs => do
    let values ← [a, b, c, d].mapM Uuid.hexDigit?
    return (values.foldl (fun n v => 16 * n + v) 0, cs)
  | _ => none

/-- The second unit of a pair that stands for a character beyond sixteen bits. -/
def lowUnit? (cs : List Char) : Option (Nat × List Char) := do
  let (low, rest) ← unit? (← Text.stripFront? ['\\', 'u'] cs)
  guard (0xDC00 ≤ low ∧ low < 0xE000)
  return (low, rest)

/-- The character that is written in units. Half a pair stands for nothing. -/
def unitChar? (cs : List Char) : Option (Char × List Char) := do
  let (n, rest) ← unit? cs
  if n < 0xD800 || 0xE000 ≤ n then return (Char.ofNat n, rest)
  guard (n < 0xDC00)
  let (low, rest) ← lowUnit? rest
  return (Char.ofNat (0x10000 + (n - 0xD800) * 0x400 + (low - 0xDC00)), rest)

/-- The character that a letter behind a backslash stands for. -/
def letterEscapes : List (Char × Char) :=
  [('"', '"'), ('\\', '\\'), ('/', '/'), ('b', '\x08'), ('f', '\x0c'), ('n', '\n'), ('r', '\r'),
    ('t', '\t')]

def escape? : List Char → Option (Char × List Char)
  | [] => none
  | c :: cs => if c == 'u' then unitChar? cs else (letterEscapes.lookup c).map (·, cs)

/-- The characters up to the closing quote. No text has more of them than characters, which `fuel`
counts. -/
def stringTail? : (fuel : Nat) → List Char → Option (List Char × List Char)
  | 0, _ => none
  | _ + 1, [] => none
  | fuel + 1, c :: cs =>
    if c == '"' then some ([], cs)
    else if c.toNat < 32 then none
    else do
      let (d, cs) ← if c == '\\' then escape? cs else some (c, cs)
      let (ds, cs) ← stringTail? fuel cs
      return (d :: ds, cs)

/-! ### Values -/

/-- Sets a field. Fields stand in the order of their names. -/
def putField (name : String) (j : Json) : List (String × Json) → List (String × Json)
  | [] => [(name, j)]
  | (k, i) :: fields =>
    if name < k then (name, j) :: (k, i) :: fields
    else if name == k then (name, j) :: fields
    else (k, i) :: putField name j fields

/-- Of fields of one name the last counts. -/
def ofFields (fields : List (String × Json)) : Json :=
  .obj (fields.foldl (fun acc (k, j) => putField k j acc) [])

/-- A value that is neither a string nor made of other values. -/
def atom? (cs : List Char) : Option (Json × List Char) :=
  let word (w : String) (j : Json) := (Text.stripFront? w.toList cs).map (j, ·)
  ((word "null" .null).or (word "true" (.bool true))).or (word "false" (.bool false)) |>.or do
    let (n, cs) ← numeral? cs
    return (← n.value?, cs)

mutual

/-- At each character at most two readers start, so twice the length of a text is enough `fuel`. -/
def value? : (fuel : Nat) → List Char → Option (Json × List Char)
  | 0, _ => none
  | fuel + 1, cs =>
    match skipBlanks cs with
    | '"' :: cs => (stringTail? fuel cs).map fun (s, cs) => (.str (String.ofList s), cs)
    | '[' :: cs =>
      match skipBlanks cs with
      | ']' :: cs => some (.arr [], cs)
      | cs => (elements? fuel cs).map fun (items, cs) => (.arr items, cs)
    | '\x7b' :: cs =>
      match skipBlanks cs with
      | '\x7d' :: cs => some (.obj [], cs)
      | cs => (members? fuel cs).map fun (fields, cs) => (ofFields fields, cs)
    | cs => atom? cs

/-- Values with commas between them, up to the closing bracket. -/
def elements? : (fuel : Nat) → List Char → Option (List Json × List Char)
  | 0, _ => none
  | fuel + 1, cs => do
    let (j, cs) ← value? fuel cs
    match skipBlanks cs with
    | ',' :: cs => (elements? fuel cs).map fun (items, cs) => (j :: items, cs)
    | ']' :: cs => some ([j], cs)
    | _ => none

/-- Named values with commas between them, up to the closing brace. -/
def members? : (fuel : Nat) → List Char → Option (List (String × Json) × List Char)
  | 0, _ => none
  | fuel + 1, cs => do
    let (name, cs) ← stringTail? fuel (← Text.stripFront? ['"'] (skipBlanks cs))
    let (j, cs) ← value? fuel (← Text.stripFront? [':'] (skipBlanks cs))
    let field := (String.ofList name, j)
    match skipBlanks cs with
    | ',' :: cs => (members? fuel cs).map fun (fields, cs) => (field :: fields, cs)
    | '\x7d' :: cs => some ([field], cs)
    | _ => none

end

/-- The value of a text that holds nothing behind it. -/
def ofString? (text : String) : Option Json := do
  let cs := text.toList
  let (j, rest) ← value? (2 * cs.length + 1) cs
  guard (skipBlanks rest).isEmpty
  return j

end Jpql.Json
