import Jpql.MethodName

/-! What the name of a finding method can say, apart from how it is spelled. A description has a verb,
may ask for distinct results and limit their number, lists alternatives of conditions and an order.
It is spelled by writing all of this down in a row, with nothing but capitals between the words. -/

namespace Jpql.MethodName

/-! ### Attributes as words -/

/-- A lower-case letter or a digit. -/
def isPlain (c : Char) : Bool := c.isLower || c.isDigit

/-- Lower-case letters and digits, of which the first is a letter. -/
def isPlainWord : List Char → Bool
  | c :: cs => c.isLower && cs.all isPlain
  | [] => false

def capitalize : List Char → List Char
  | c :: cs => c.toUpper :: cs
  | [] => []

/-- The keywords of all operators. -/
def keywordTexts : List String := Operator.all.flatMap Operator.keywords

/-- The words that a method name reads as its own. -/
def reserved : List String := ["And", "Or", "All", "Asc", "Desc"] ++ keywordTexts

/-- An attribute whose name can stand as a word in a method name. -/
structure Noun (owner : ManagedType) where
  member : Attribute
  found : owner.attribute? member.name = some member
  plain : isPlainWord member.name.toList = true
  unreserved : capitalize member.name.toList ∉ reserved.map String.toList

variable {owner : ManagedType}

namespace Noun

def text (n : Noun owner) : List Char := capitalize n.member.name.toList

/-- The property that the noun names. -/
def path (n : Noun owner) : PropertyPath := ⟨[⟨owner.name, n.member⟩], by simp⟩

end Noun

/-! ### Conditions -/

/-- An operator with one of its keywords. -/
structure Keyword where
  operator : Operator
  text : String
  announces : text ∈ operator.keywords

structure Condition (owner : ManagedType) where
  noun : Noun owner
  keyword : Option Keyword
  ignoreCase : Bool

namespace Condition

def operator (c : Condition owner) : Operator :=
  match c.keyword with
  | some k => k.operator
  | none => .simpleProperty

def keywordText (c : Condition owner) : String :=
  match c.keyword with
  | some k => k.text
  | none => ""

def ignoreCaseText (c : Condition owner) : String := if c.ignoreCase then "IgnoreCase" else ""

def text (c : Condition owner) : List Char :=
  c.noun.text ++ (c.keywordText.toList ++ c.ignoreCaseText.toList)

def part (c : Condition owner) : Part :=
  { source := String.ofList c.text
    operator := c.operator
    property := c.noun.path
    ignoreCase := if c.ignoreCase then .always else .never }

end Condition

/-- Conditions that hold together. -/
structure Alternative (owner : ManagedType) where
  conditions : List (Condition owner)
  nonempty : conditions ≠ []

def Alternative.text (a : Alternative owner) : List Char :=
  "And".toList.intercalate (a.conditions.map Condition.text)

/-! ### The subject -/

/-- A number in decimal digits, which may start with zeros. -/
structure Numeral where
  zeros : Nat
  value : Nat
  small : value < maxLimit

def Numeral.text (n : Numeral) : List Char := List.replicate n.zeros '0' ++ Nat.toDigits 10 n.value

inductive LimitWord where
  | first | top

def LimitWord.text : LimitWord → String
  | .first => "First"
  | .top => "Top"

structure Limit where
  word : LimitWord
  numeral : Option Numeral

namespace Limit

def digits (l : Limit) : List Char :=
  match l.numeral with
  | some n => n.text
  | none => []

def value (l : Limit) : Nat :=
  match l.numeral with
  | some n => n.value
  | none => 1

end Limit

/-! ### The whole -/

def directionText : Direction → String
  | .asc => "Asc"
  | .desc => "Desc"

/-- The text of an order: its property, then its direction. -/
def orderText (o : Noun owner × Direction) : List Char := o.1.text ++ (directionText o.2).toList

def order (o : Noun owner × Direction) : Order := { property := o.1.member.name, direction := o.2 }

structure Description (owner : ManagedType) where
  verb : List Char
  finds : verb ∈ findingVerbs
  distinct : Bool
  limit : Option Limit
  alternatives : List (Alternative owner)
  orders : List (Noun owner × Direction)

namespace Description

variable (d : Description owner)

def distinctText : String := if d.distinct then "Distinct" else ""

def limitText : List Char :=
  match d.limit with
  | some l => l.word.text.toList ++ l.digits
  | none => []

def subject : List Char := d.verb ++ (d.distinctText.toList ++ (d.limitText ++ "By".toList))

def conditions : List Char := "Or".toList.intercalate (d.alternatives.map Alternative.text)

def clause : List Char := d.orders.flatMap orderText

/-- What stands behind the subject. -/
def predicate : List Char :=
  if d.orders.isEmpty then d.conditions else d.conditions ++ ("OrderBy".toList ++ d.clause)

/-- The name that spells the description. -/
def text : String := String.ofList (d.subject ++ d.predicate)

/-- What reading the name should find. -/
def method : MethodName :=
  { distinct := d.distinct
    limit := d.limit.map Limit.value
    alternatives := d.alternatives.map fun a => a.conditions.map Condition.part
    sort := ⟨d.orders.map order⟩ }

end Description

end Jpql.MethodName
