import Jpql.Calendar
import Jpql.Number.FloatText

/-! JSON values. Integers and floats are kept apart, as their texts are: a float always has a point.
-/

namespace Jpql

inductive Json where
  | null
  | bool (b : Bool)
  | int (n : Int)
  | float (x : Float)
  | str (s : String)
  | arr (items : List Json)
  | obj (fields : List (String × Json))

namespace Json

instance : Inhabited Json := ⟨.null⟩

def hexDigits (n : Nat) : List Char :=
  let ds := Nat.toDigits 16 n
  List.replicate (4 - ds.length) '0' ++ ds

def escapedChar (c : Char) : List Char :=
  if c == '"' then ['\\', '"']
  else if c == '\\' then ['\\', '\\']
  else if c.toNat < 32 then '\\' :: 'u' :: hexDigits c.toNat
  else [c]

def renderString (s : String) : String :=
  String.ofList ('"' :: s.toList.flatMap escapedChar ++ ['"'])

mutual

def render : Json → String
  | .null => "null"
  | .bool b => if b then "true" else "false"
  | .int n => toString n
  | .float x => if x.isFinite then Number.withPoint x else "null"
  | .str s => renderString s
  | .arr items => "[" ++ ",".intercalate (renderItems items) ++ "]"
  | .obj fields => "\x7b" ++ ",".intercalate (renderFields fields) ++ "\x7d"

def renderItems : List Json → List String
  | [] => []
  | j :: js => render j :: renderItems js

def renderFields : List (String × Json) → List String
  | [] => []
  | (k, j) :: fields => (renderString k ++ ":" ++ render j) :: renderFields fields

end

/-- A list of values. -/
def list {α : Type} (f : α → Json) (items : List α) : Json := .arr (items.map f)

/-- A value or null. -/
def option {α : Type} (f : α → Json) : Option α → Json
  | some a => f a
  | none => .null

def nat (n : Nat) : Json := .int n

/-! ### Reading -/

def bool? : Json → Option Bool
  | .bool b => some b
  | _ => none

def str? : Json → Option String
  | .str s => some s
  | _ => none

/-- An integer of 64 bits. -/
def int64? : Json → Option Int
  | .int n => if -0x8000000000000000 ≤ n ∧ n < 0x8000000000000000 then some n else none
  | _ => none

/-- A natural number of 64 bits. -/
def nat64? : Json → Option Nat
  | .int n => if 0 ≤ n ∧ n < 0x10000000000000000 then some n.toNat else none
  | _ => none

def float? : Json → Option Float
  | .int n => some (Float.ofInt n)
  | .float x => some x
  | _ => none

def items? : Json → Option (List Json)
  | .arr items => some items
  | _ => none

/-- The fields of a record with these names, in this order: taken by name from an object, where
fields of other names are ignored and absent ones are left open, or all of them from an array. -/
def record? (names : List String) : Json → Option (List (Option Json))
  | .obj fields => some (names.map fun n => fields.lookup n)
  | .arr items => if items.length == names.length then some (items.map some) else none
  | _ => none

/-- A choice among named variants: the name alone, or the name with what belongs to it. -/
def variant? : Json → Option (String × Option Json)
  | .str name => some (name, none)
  | .obj [(name, payload)] => some (name, some payload)
  | _ => none

/-- A choice among variants to which nothing belongs. -/
def choice? {α : Type} (variants : List (String × α)) (j : Json) : Option α :=
  match variant? j with
  | some (name, none) | some (name, some .null) => variants.lookup name
  | _ => none

/-- An optional field, which may be null. -/
def optional? {α : Type} (f : Json → Option α) : Option Json → Option (Option α)
  | none | some .null => some none
  | some j => (f j).map some

end Json

end Jpql
