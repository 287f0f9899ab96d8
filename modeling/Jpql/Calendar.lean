import Jpql.Text.Blank

/-! Dates, times of day and local timestamps, with their fixed text forms: `2020-02-29`, `12:34:56`
with a fraction of three, six or nine digits where one is needed, and the two joined by a blank or
by `T`. Only days and times that exist are values of these types. Reading is more generous than
writing: numbers may stand behind blanks and lack zeros in front. -/

namespace Jpql

/-- `n` in decimal with zeros in front up to `width` digits. -/
def padded (width n : Nat) : String :=
  let digits := Nat.repr n
  String.ofList (List.replicate (width - digits.length) '0') ++ digits

namespace Calendar

def isLeapYear (year : Int) : Bool := year % 4 == 0 && (year % 100 != 0 || year % 400 == 0)

def daysInMonth (year : Int) : Nat → Nat
  | 1 | 3 | 5 | 7 | 8 | 10 | 12 => 31
  | 4 | 6 | 9 | 11 => 30
  | 2 => if isLeapYear year then 29 else 28
  | _ => 0

/-- The years that the calendar covers. -/
def covers (year : Int) : Bool := -262143 ≤ year && year ≤ 262142

end Calendar

structure Date where
  year : Int
  month : Nat
  day : Nat
  exists_day : Calendar.covers year ∧ 1 ≤ day ∧ day ≤ Calendar.daysInMonth year month
  deriving DecidableEq

namespace Date

def of? (year : Int) (month day : Nat) : Option Date :=
  if h : Calendar.covers year ∧ 1 ≤ day ∧ day ≤ Calendar.daysInMonth year month then
    some ⟨year, month, day, h⟩
  else none

/-- Years outside 0 to 9999 carry a sign. -/
def render (d : Date) : String :=
  let year :=
    if 0 ≤ d.year ∧ d.year ≤ 9999 then padded 4 d.year.toNat
    else (if d.year < 0 then "-" else "+") ++ padded 4 d.year.natAbs
  year ++ "-" ++ padded 2 d.month ++ "-" ++ padded 2 d.day

end Date

/-- A time of day. Any minute may have a leap second. -/
structure ClockTime where
  hour : Nat
  minute : Nat
  second : Nat
  nanos : Nat
  in_day : hour < 24 ∧ minute < 60 ∧ second ≤ 60 ∧ nanos < 1000000000
  deriving DecidableEq

namespace ClockTime

def of? (hour minute second nanos : Nat) : Option ClockTime :=
  if h : hour < 24 ∧ minute < 60 ∧ second ≤ 60 ∧ nanos < 1000000000 then
    some ⟨hour, minute, second, nanos, h⟩
  else none

/-- The fraction of a second in the fewest of three, six or nine digits that are exact. -/
def fraction (nanos : Nat) : String :=
  if nanos == 0 then ""
  else if nanos % 1000000 == 0 then "." ++ padded 3 (nanos / 1000000)
  else if nanos % 1000 == 0 then "." ++ padded 6 (nanos / 1000)
  else "." ++ padded 9 nanos

def render (t : ClockTime) : String :=
  padded 2 t.hour ++ ":" ++ padded 2 t.minute ++ ":" ++ padded 2 t.second ++ fraction t.nanos

end ClockTime

structure Timestamp where
  date : Date
  time : ClockTime
  deriving DecidableEq

namespace Timestamp

def renderWith (separator : String) (t : Timestamp) : String :=
  t.date.render ++ separator ++ t.time.render

def render (t : Timestamp) : String := t.renderWith " "

end Timestamp

/-! ### Reading the text forms -/

namespace Calendar

/-- A step that takes characters off the front of a text. -/
abbrev Reader (α : Type) := StateT (List Char) Option α

def blanks : Reader Unit := modify (·.dropWhile Text.isBlank)

def mark (c : Char) : Reader Unit
  | d :: cs => if d == c then some ((), cs) else none
  | [] => none

/-- A run of digits, cut off at `width`; at least one. Gives its value and its length. -/
def digits (width : Nat) : Reader (Nat × Nat)
  | cs =>
    let ds := (cs.take width).takeWhile Char.isDigit
    if ds.isEmpty then none
    else
      some ((ds.foldl (fun n c => 10 * n + (c.toNat - '0'.toNat)) 0, ds.length), cs.drop ds.length)

/-- One or two digits behind blanks. -/
def number : Reader Nat := do
  blanks
  return (← digits 2).1

/-- Up to four digits, or any number of them behind a sign. -/
def year : Reader Int := do
  blanks
  match ← get with
  | '-' :: cs => set cs; return -(← digits cs.length).1
  | '+' :: cs => set cs; return (← digits cs.length).1
  | _ => return (← digits 4).1

def date : Reader Date := do
  let y ← year
  blanks; mark '-'
  let m ← number
  blanks; mark '-'
  let d ← number
  Date.of? y m d

/-- The nanoseconds of a fraction; digits beyond the ninth are left out of account. -/
def fraction : Reader Nat := do
  match ← get with
  | '.' :: cs =>
    set cs
    let (n, places) ← digits 9
    modify (·.dropWhile Char.isDigit)
    return n * Nat.pow 10 (9 - places)
  | _ => return 0

def seconds : Reader (Nat × Nat) := do
  blanks; mark ':'
  let s ← number
  return (s, ← fraction)

def hourAndMinute : Reader (Nat × Nat) := do
  let h ← number
  blanks; mark ':'
  return (h, ← number)

/-- A time of day, which may lack its seconds. -/
def time : Reader ClockTime := do
  let (h, m) ← hourAndMinute
  let (s, nanos) ← seconds <|> pure (0, 0)
  ClockTime.of? h m s nanos

def timestamp : Reader Timestamp := do
  let d ← date
  blanks; mark 'T'
  let (h, m) ← hourAndMinute
  let (s, nanos) ← seconds
  return ⟨d, ← ClockTime.of? h m s nanos⟩

/-- Reads a whole text; blanks may follow. -/
def read? {α : Type} (r : Reader α) (s : String) : Option α :=
  match r s.toList with
  | some (a, rest) => if rest.all Text.isBlank then some a else none
  | none => none

end Calendar

def Date.ofString? (s : String) : Option Date := Calendar.read? Calendar.date s

def ClockTime.ofString? (s : String) : Option ClockTime := Calendar.read? Calendar.time s

/-- Reads a timestamp whose date and time are joined by `T`. -/
def Timestamp.ofString? (s : String) : Option Timestamp := Calendar.read? Calendar.timestamp s

end Jpql
