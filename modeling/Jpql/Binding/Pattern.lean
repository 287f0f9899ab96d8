import Jpql.Value

/-! Patterns of `like` comparisons: where a parameter's text is padded with the wildcard `%`, and
how wildcards inside a text are taken literally. -/

namespace Jpql

/-- The character that makes the next one literal. -/
structure EscapeCharacter where
  value : Char := '\\'
  deriving DecidableEq, Repr

namespace EscapeCharacter

instance : Inhabited EscapeCharacter := ⟨{}⟩

def escapeChars (e : EscapeCharacter) (cs : List Char) : List Char :=
  cs.flatMap fun c => if c == '%' || c == '_' || c == e.value then [e.value, c] else [c]

/-- Puts the escape character before every wildcard and before itself. -/
def escape (e : EscapeCharacter) (s : String) : String := String.ofList (e.escapeChars s.toList)

end EscapeCharacter

inductive LikeType where
  | like | startingWith | endingWith | containing
  deriving DecidableEq, Repr

namespace LikeType

/-- Read off the wildcards around a marker, as in `%:name%`. -/
def ofExpression (expression : String) : LikeType :=
  let cs := expression.toList
  match cs.head? == some '%', decide (1 < cs.length) && cs.getLast? == some '%' with
  | true, true => .containing
  | true, false => .endingWith
  | false, true => .startingWith
  | false, false => .like

def name : LikeType → String
  | .like => "LIKE"
  | .startingWith => "STARTING_WITH"
  | .endingWith => "ENDING_WITH"
  | .containing => "CONTAINING"

/-- Pads the text of a value with wildcards; null stays null. -/
def prepare (t : LikeType) (v : Value) : Value :=
  if v.isNull then v
  else
    match t with
    | .like => v
    | .startingWith => .text (v.render ++ "%")
    | .endingWith => .text ("%" ++ v.render)
    | .containing => .text ("%" ++ v.render ++ "%")

end LikeType

end Jpql
