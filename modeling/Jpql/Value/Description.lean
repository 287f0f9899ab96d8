import Jpql.Value
import Jpql.Text.Printable

/-! Descriptions of values for error messages: the value's kind and its content in constructor form,
as in `Int(5)` or `Text("a\n")`. Texts are quoted, with escapes for the quote, the backslash,
control characters and whatever cannot be shown as it is. -/

namespace Jpql

/-- A character inside a quoted text. -/
def quotedChar (c : Char) : List Char :=
  if c == '"' then ['\\', '"']
  else if c == '\\' then ['\\', '\\']
  else if c == '\n' then ['\\', 'n']
  else if c == '\r' then ['\\', 'r']
  else if c == '\t' then ['\\', 't']
  else if c.toNat == 0 then ['\\', '0']
  else if Text.isPrintable c then [c]
  else ['\\', 'u', '\x7b'] ++ Nat.toDigits 16 c.toNat ++ ['\x7d']

def quoted (s : String) : String :=
  String.ofList ('"' :: s.toList.flatMap quotedChar ++ ['"'])

/-- A record in constructor form. -/
def describeFields (name : String) (fields : List (String × String)) : String :=
  name ++ " \x7b " ++ ", ".intercalate (fields.map fun f => f.1 ++ ": " ++ f.2) ++ " \x7d"

def ScoreKind.describe : ScoreKind → String
  | .score => "Score"
  | .similarity => "Similarity"

namespace Value

mutual

def describe : Value → String
  | .null => "Null"
  | .bool b => "Bool(" ++ (if b then "true" else "false") ++ ")"
  | .int n => "Int(" ++ toString n ++ ")"
  | .float x => "Float(" ++ Number.tagged x ++ ")"
  | .text s => "Text(" ++ quoted s ++ ")"
  | .date d => "Date(" ++ d.render ++ ")"
  | .time t => "Time(" ++ t.render ++ ")"
  | .timestamp t => "Timestamp(" ++ t.renderWith "T" ++ ")"
  | .uuid u => "Uuid(" ++ u.render ++ ")"
  | .array items => "Array([" ++ ", ".intercalate (describeAll items) ++ "])"
  | .list items => "List([" ++ ", ".intercalate (describeAll items) ++ "])"
  | .range lower upper =>
    "Range(" ++ describeFields "Range"
      [("lower", describeBound lower), ("upper", describeBound upper)] ++ ")"
  | .score s =>
    "Score(" ++ describeFields "Score"
      [("value", Number.tagged s.value), ("function", s.function.name),
        ("kind", s.kind.describe)] ++ ")"
  | .object name => "Object(" ++ quoted name ++ ")"

def describeAll : List Value → List String
  | [] => []
  | v :: vs => describe v :: describeAll vs

def describeBound : Bound → String
  | .unbounded inclusive =>
    describeFields "Bound"
      [("value", "None"), ("inclusive", if inclusive then "true" else "false")]
  | .bounded inclusive v =>
    describeFields "Bound"
      [("value", "Some(" ++ describe v ++ ")"),
        ("inclusive", if inclusive then "true" else "false")]

end

end Value

end Jpql
