/-! Streams of query tokens and the text they stand for. A token marked as an expression asks for a
blank between it and its neighbour; a plain token carries its own blanks. Streams nest: inside
`inline` an expression loses its claim to a blank, inside `expression` anything gains one. -/

namespace Jpql

structure QueryToken where
  value : String
  isExpression : Bool := false
  deriving DecidableEq, Repr

namespace QueryToken

def plain (value : String) : QueryToken := ⟨value, false⟩

def expression (value : String) : QueryToken := ⟨value, true⟩

/-- A plain token with a blank on both sides. -/
def ventilated (value : String) : QueryToken := plain (" " ++ value ++ " ")

def comma := plain ", "
def space := plain " "
def dot := plain "."
def equals := plain " = "
def openParen := plain "("
def closeParen := plain ")"
def lowerFunc := plain "lower("
def countFunc := plain "count("
def selectCount := plain "select count("
def doublePipe := plain " || "
def doubleUnderscore := plain "__"
def orderBy := expression "order by"
def asWord := expression "AS"
def asc := expression "asc"
def desc := expression "desc"
def notWord := expression "NOT"
def nulls := expression "NULLS"
def first := expression "FIRST"
def last := expression "LAST"

end QueryToken

inductive Rendering where
  | empty
  | tokens (tokens : List QueryToken)
  | composite (parts : List Rendering)
  | inline (inner : Rendering)
  | expression (inner : Rendering)

namespace Rendering

instance : Inhabited Rendering := ⟨.empty⟩

def ofTokens : List QueryToken → Rendering
  | [] => .empty
  | ts => .tokens ts

def ofToken (t : QueryToken) : Rendering := .tokens [t]

def toInline : Rendering → Rendering
  | .empty => .empty
  | .inline r => .inline r
  | r => .inline r

def toExpression : Rendering → Rendering
  | .empty => .empty
  | .expression r => .expression r
  | r => .expression r

/-- One stream after the other; an empty one has no effect. -/
def append : Rendering → Rendering → Rendering
  | .empty, r => r
  | r, .empty => r
  | .tokens a, .tokens b => .tokens (a ++ b)
  | .composite parts, r => .composite (parts ++ [r])
  | r, s => .composite [r, s]

mutual

def isExpression : Rendering → Bool
  | .empty | .inline _ => false
  | .tokens ts => ts.getLast?.any (·.isExpression)
  | .composite parts => lastIsExpression parts
  | .expression _ => true

/-- Whether the last stream of the list is an expression. -/
def lastIsExpression : List Rendering → Bool
  | [] => false
  | r :: rest => if rest.isEmpty then isExpression r else lastIsExpression rest

end

mutual

def isEmpty : Rendering → Bool
  | .empty => true
  | .tokens ts => ts.isEmpty
  | .composite parts => allEmpty parts
  | .inline r | .expression r => isEmpty r

def allEmpty : List Rendering → Bool
  | [] => true
  | r :: rest => isEmpty r && allEmpty rest

end

mutual

/-- All tokens in order, with the nesting forgotten. -/
def toTokens : Rendering → List QueryToken
  | .empty => []
  | .tokens ts => ts
  | .composite parts => allTokens parts
  | .inline r | .expression r => toTokens r

def allTokens : List Rendering → List QueryToken
  | [] => []
  | r :: rest => toTokens r ++ allTokens rest

end

theorem allTokens_append (rs ss : List Rendering) :
    allTokens (rs ++ ss) = allTokens rs ++ allTokens ss := by
  induction rs with
  | nil => simp [allTokens]
  | cons r rs ih => simp [allTokens, ih]

mutual

theorem isEmpty_iff : (r : Rendering) → (r.isEmpty = true ↔ r.toTokens = [])
  | .empty => by simp [isEmpty, toTokens]
  | .tokens ts => by simp [isEmpty, toTokens]
  | .composite parts => by simpa [isEmpty, toTokens] using allEmpty_iff parts
  | .inline r => by simpa [isEmpty, toTokens] using isEmpty_iff r
  | .expression r => by simpa [isEmpty, toTokens] using isEmpty_iff r

theorem allEmpty_iff : (rs : List Rendering) → (allEmpty rs = true ↔ allTokens rs = [])
  | [] => by simp [allEmpty, allTokens]
  | r :: rest => by simp [allEmpty, allTokens, isEmpty_iff r, allEmpty_iff rest]

end

@[simp] theorem toTokens_toInline (r : Rendering) : r.toInline.toTokens = r.toTokens := by
  cases r <;> simp [toInline, toTokens]

@[simp] theorem toTokens_toExpression (r : Rendering) : r.toExpression.toTokens = r.toTokens := by
  cases r <;> simp [toExpression, toTokens]

@[simp] theorem toTokens_append (r s : Rendering) :
    (r.append s).toTokens = r.toTokens ++ s.toTokens := by
  cases r <;> cases s <;> simp [append, toTokens, allTokens, allTokens_append]

def endsWithSpace (s : String) : Bool := s.toList.getLast? == some ' '

/-- Writes tokens behind `out`; `wants` says whether the token before asks for a blank. -/
def renderTokens (out : String) (wants : Bool) : List QueryToken → String
  | [] => out
  | t :: rest =>
    let gap := if wants && !out.isEmpty && !endsWithSpace out then " " else ""
    renderTokens (out ++ gap ++ t.value) t.isExpression rest

mutual

def renderInto (out : String) : Rendering → String
  | .empty => out
  | .tokens ts => renderTokens out false ts
  | .composite parts => renderParts out none parts
  | .inline r | .expression r => renderInto out r

/-- Writes streams behind `out`. `last` says of the non-empty stream before whether it was an
expression; a blank goes between two streams of which at least one is. -/
def renderParts (out : String) (last : Option Bool) : List Rendering → String
  | [] => out
  | r :: rest =>
    if isEmpty r then renderParts out last rest
    else
      let wanted := match last with
        | some wasExpression => wasExpression || isExpression r
        | none => false
      let gap := if wanted && !endsWithSpace out then " " else ""
      renderParts (renderInto (out ++ gap) r) (some (isExpression r)) rest

end

def render (r : Rendering) : String := renderInto "" r

/-! ### Building -/

/-- Appends a stream unless it is empty. -/
def add (r other : Rendering) : Rendering := if other.isEmpty then r else r.append other

@[simp] theorem toTokens_add (r other : Rendering) :
    (r.add other).toTokens = r.toTokens ++ other.toTokens := by
  unfold add
  split
  next h => simp [(isEmpty_iff other).1 h]
  next => exact toTokens_append r other

def addToken (r : Rendering) (t : QueryToken) : Rendering := r.add (ofToken t)

/-- Appends a stream that claims no blank at its end. -/
def addInline (r other : Rendering) : Rendering :=
  r.add (if other.isExpression then other.toInline else other)

/-- Appends a stream that claims a blank at its end. -/
def addExpression (r other : Rendering) : Rendering :=
  r.add (if other.isExpression then other else other.toExpression)

@[simp] theorem toTokens_addInline (r other : Rendering) :
    (r.addInline other).toTokens = r.toTokens ++ other.toTokens := by
  unfold addInline
  split <;> simp

@[simp] theorem toTokens_addExpression (r other : Rendering) :
    (r.addExpression other).toTokens = r.toTokens ++ other.toTokens := by
  unfold addExpression
  split <;> simp

def joinWith (post : Rendering → Rendering) (separator : QueryToken) (items : List Rendering) :
    Rendering :=
  items.foldl (fun acc item =>
    (if acc.isEmpty then acc else acc.addToken separator).add (post item)) .empty

/-- The streams in order with a separator between them, each inline. -/
def concat (items : List Rendering) (separator : QueryToken) : Rendering :=
  joinWith toInline separator items

/-- The streams in order with a separator between them, each as an expression. -/
def concatExpressions (items : List Rendering) (separator : QueryToken) : Rendering :=
  joinWith toExpression separator items

end Rendering

end Jpql
