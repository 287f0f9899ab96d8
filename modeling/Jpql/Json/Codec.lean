import Jpql.Json
import Jpql.Scroll
import Jpql.Sorting

/-! The JSON form of values, types, sorts and scroll positions. Records are objects, and are also
read from arrays; a variant is an object with its name as the only key, or just its name if nothing
belongs to it. -/

namespace Jpql

open Json

/-! ### Values -/

def ScoringFunction.variants : List (String × ScoringFunction) :=
  [.unspecified, .euclidean, .cosine, .dot, .innerProduct, .taxicab, .hamming].map
    fun f => (f.name, f)

def ScoreKind.variants : List (String × ScoreKind) :=
  [("Score", .score), ("Similarity", .similarity)]

def ScoreKind.name : ScoreKind → String
  | .score => "Score"
  | .similarity => "Similarity"

def Score.toJson (s : Score) : Json :=
  .obj [("value", .float s.value), ("function", .str s.function.name), ("kind", .str s.kind.name)]

def Score.ofJson? (j : Json) : Option Score :=
  match record? ["value", "function", "kind"] j with
  | some [some value, some function, some kind] => do
    return ⟨← float? value, ← choice? ScoringFunction.variants function,
      ← choice? ScoreKind.variants kind⟩
  | _ => none

namespace Value

mutual

def toJson : Value → Json
  | .null => .str "Null"
  | .bool b => .obj [("Bool", .bool b)]
  | .int n => .obj [("Int", .int n)]
  | .float x => .obj [("Float", .float x)]
  | .text s => .obj [("Text", .str s)]
  | .date d => .obj [("Date", .str d.render)]
  | .time t => .obj [("Time", .str t.render)]
  | .timestamp t => .obj [("Timestamp", .str (t.renderWith "T"))]
  | .uuid u => .obj [("Uuid", .str u.render)]
  | .array items => .obj [("Array", .arr (allToJson items))]
  | .list items => .obj [("List", .arr (allToJson items))]
  | .range lower upper =>
    .obj [("Range", .obj [("lower", boundToJson lower), ("upper", boundToJson upper)])]
  | .score s => .obj [("Score", s.toJson)]
  | .object name => .obj [("Object", .str name)]

def allToJson : List Value → List Json
  | [] => []
  | v :: vs => toJson v :: allToJson vs

def boundToJson : Bound → Json
  | .unbounded inclusive => .obj [("value", .null), ("inclusive", .bool inclusive)]
  | .bounded inclusive v => .obj [("value", toJson v), ("inclusive", .bool inclusive)]

end

/-- One end of a range, from its value if there is one. -/
def bound (value : Option Value) (inclusive : Bool) : Bound :=
  match value with
  | some v => .bounded inclusive v
  | none => .unbounded inclusive

mutual

def ofJson? : Json → Option Value
  | .str "Null" => some .null
  | .obj [(name, payload)] => ofVariant? name payload
  | _ => none

def ofVariant? (name : String) : Json → Option Value
  | .arr items =>
    if name == "Array" then (allOfJson? items).map .array
    else if name == "List" then (allOfJson? items).map .list
    else if name == "Score" then (Score.ofJson? (.arr items)).map .score
    else if name == "Range" then
      match items with
      | [lower, upper] => do return .range (← boundOfJson? lower) (← boundOfJson? upper)
      | _ => none
    else none
  | .obj fields =>
    if name == "Score" then (Score.ofJson? (.obj fields)).map .score
    else if name == "Range" then do
      return .range (← boundField? "lower" fields) (← boundField? "upper" fields)
    else none
  | j =>
    match name with
    | "Null" => match j with
      | .null => some .null
      | _ => none
    | "Bool" => (bool? j).map .bool
    | "Int" => (int64? j).map .int
    | "Float" => (float? j).map .float
    | "Text" => (str? j).map .text
    | "Date" => ((str? j).bind Date.ofString?).map .date
    | "Time" => ((str? j).bind ClockTime.ofString?).map .time
    | "Timestamp" => ((str? j).bind Timestamp.ofString?).map .timestamp
    | "Uuid" => ((str? j).bind Uuid.ofString?).map .uuid
    | "Object" => (str? j).map .object
    | _ => none

def allOfJson? : List Json → Option (List Value)
  | [] => some []
  | j :: js => do return (← ofJson? j) :: (← allOfJson? js)

def boundOfJson? : Json → Option Bound
  | .obj fields => do
    let inclusive ← (fields.lookup "inclusive").bind bool?
    return bound (← valueField? fields) inclusive
  | .arr [value, inclusive] => do return bound (← nullable? value) (← bool? inclusive)
  | _ => none

def nullable? : Json → Option (Option Value)
  | .null => some none
  | .str s => (ofJson? (.str s)).map some
  | .obj [(name, payload)] => (ofVariant? name payload).map some
  | _ => none

def valueField? : List (String × Json) → Option (Option Value)
  | [] => some none
  | (k, j) :: fields => if k == "value" then nullable? j else valueField? fields

def boundField? (name : String) : List (String × Json) → Option Bound
  | [] => none
  | (k, j) :: fields => if k == name then boundOfJson? j else boundField? name fields

end

end Value

/-! ### Types -/

namespace ValueType

/-- The types without an element or a name. -/
def variants : List (String × ValueType) :=
  [("String", .string), ("Integer", .integer), ("Long", .long), ("Double", .double),
    ("Boolean", .boolean), ("Date", .date), ("Time", .time), ("Timestamp", .timestamp),
    ("Uuid", .uuid), ("Score", .score)]

/-- The name of a type's variant. -/
def variantName : ValueType → String
  | .string => "String"
  | .integer => "Integer"
  | .long => "Long"
  | .double => "Double"
  | .boolean => "Boolean"
  | .date => "Date"
  | .time => "Time"
  | .timestamp => "Timestamp"
  | .uuid => "Uuid"
  | .score => "Score"
  | .collection _ => "Collection"
  | .array _ => "Array"
  | .range _ => "Range"
  | .named _ => "Named"

def toJson : ValueType → Json
  | .collection e => .obj [("Collection", e.toJson)]
  | .array e => .obj [("Array", e.toJson)]
  | .range e => .obj [("Range", e.toJson)]
  | .named n => .obj [("Named", .str n)]
  | t => .str t.variantName

def ofJson? : Json → Option ValueType
  | .str s => variants.lookup s
  | .obj [(name, payload)] =>
    match name with
    | "Collection" => (ofJson? payload).map .collection
    | "Array" => (ofJson? payload).map .array
    | "Range" => (ofJson? payload).map .range
    | "Named" => (str? payload).map .named
    | _ => choice? variants (.obj [(name, payload)])
  | _ => none

end ValueType

/-! ### Sorts -/

def Direction.variants : List (String × Direction) := [("Asc", .asc), ("Desc", .desc)]

def NullHandling.variants : List (String × NullHandling) :=
  [("Native", .native), ("NullsFirst", .first), ("NullsLast", .last)]

def Direction.variantName : Direction → String
  | .asc => "Asc"
  | .desc => "Desc"

def NullHandling.variantName : NullHandling → String
  | .native => "Native"
  | .first => "NullsFirst"
  | .last => "NullsLast"

namespace Order

def toJson (o : Order) : Json :=
  .obj [("property", .str o.property), ("direction", .str o.direction.variantName),
    ("ignore_case", .bool o.ignoreCase), ("null_handling", .str o.nulls.variantName),
    ("unsafe_expr", .bool o.rawExpression)]

def ofJson? (j : Json) : Option Order :=
  match record? ["property", "direction", "ignore_case", "null_handling", "unsafe_expr"] j with
  | some [some property, some direction, some ignoreCase, some nulls, some raw] => do
    return {
      property := ← str? property, direction := ← choice? Direction.variants direction
      ignoreCase := ← bool? ignoreCase, nulls := ← choice? NullHandling.variants nulls
      rawExpression := ← bool? raw }
  | _ => none

end Order

namespace Sorting

def toJson (s : Sorting) : Json := .obj [("orders", list Order.toJson s.orders)]

def ofJson? (j : Json) : Option Sorting :=
  match record? ["orders"] j with
  | some [some orders] => do return ⟨← (← items? orders).mapM Order.ofJson?⟩
  | _ => none

end Sorting

/-! ### Scroll positions -/

def ScrollDirection.variants : List (String × ScrollDirection) :=
  [("Forward", .forward), ("Backward", .backward)]

namespace Cursor

def toJson (c : Cursor) : Json :=
  .obj [("keys", list (fun (k, v) => .arr [.str k, v.toJson]) c.keys),
    ("direction", .str c.direction.name)]

def keyOfJson? : Json → Option (String × Value)
  | .arr [k, v] => do return (← str? k, ← Value.ofJson? v)
  | _ => none

/-- Reads a cursor; its keys are taken as they come, also if one is repeated. -/
def ofJson? (j : Json) : Option Cursor :=
  match record? ["keys", "direction"] j with
  | some [some keys, some direction] => do
    return ⟨← (← items? keys).mapM keyOfJson?, ← choice? ScrollDirection.variants direction⟩
  | _ => none

end Cursor

namespace ScrollPosition

def toJson : ScrollPosition → Json
  | .offset last => .obj [("Offset", .obj [("offset", option nat last)])]
  | .keyset c => .obj [("Keyset", c.toJson)]

def offsetOfJson? (j : Json) : Option ScrollPosition :=
  match record? ["offset"] j with
  | some [last] => (optional? nat64? last).map .offset
  | _ => none

def ofJson? (j : Json) : Option ScrollPosition :=
  match variant? j with
  | some ("Offset", some payload) => offsetOfJson? payload
  | some ("Keyset", some payload) => (Cursor.ofJson? payload).map .keyset
  | _ => none

end ScrollPosition

end Jpql
