import Jpql.Binding
import Jpql.Declared.Markers

/-! Extraction of parameter bindings from a declared query. Every occurrence of a marker is assigned
a query parameter. Occurrences of one argument share a parameter when they prepare its value alike;
otherwise the later one gets a parameter of its own. Wildcards beside a marker move into the
binding, so the extracted text has plain markers only. -/

namespace Jpql

open Markers

structure ExtractedQuery where
  query : String
  isNative : Bool
  bindings : List ParameterBinding
  /-- Whether markers without a number or name occur. -/
  usesUnnumbered : Bool
  mentionsPageable : Bool
  hasNamedParameter : Bool

namespace ExtractedQuery

/-- What has been assigned so far. -/
structure Progress where
  text : List Char := []
  bindings : List ParameterBinding := []
  /-- The bindings of method arguments, in the order of their registration. -/
  registered : List ParameterBinding := []
  labels : Labels
  unnumbered : Bool := false
  identified : Bool := false

/-- Adds a binding unless it is present; two different bindings must not address one parameter. -/
def addBinding (binding : ParameterBinding) (bindings : List ParameterBinding) :
    Result (List ParameterBinding) :=
  match bindings.find? fun b => b.bindsTo binding && !(b == binding) with
  | some existing => .error (.binding (.conflict existing.render binding.render))
  | none => .ok (if bindings.any (· == binding) then bindings else bindings ++ [binding])

/-- The first of `base`, `base_1`, `base_2`, … that is not in the list. -/
def freshName (base : String) (names : List String) : String :=
  let candidates := base :: (List.range names.length).map fun i => base ++ "_" ++ toString (i + 1)
  (candidates.find? (· ∉ names)).getD (base ++ "_" ++ toString (names.length + 1))

namespace Progress

/-- The registered bindings of an argument. -/
def ofArgument (p : Progress) (argument : BindingIdentifier) : List ParameterBinding :=
  p.registered.filter (·.origin == .argument argument)

/-- A parameter beside the one that the argument has already. -/
def freshIdentifier (p : Progress) : BindingIdentifier → BindingIdentifier × Progress
  | .named name => (.named (freshName name (p.registered.filterMap (·.name?))), p)
  | _ =>
    let (n, labels) := p.labels.allocate
    (.indexed n, { p with labels })

def register (p : Progress) (binding : ParameterBinding) : Result Progress := do
  let bindings ← addBinding binding p.bindings
  return { p with bindings, registered := p.registered ++ [binding] }

/-- The parameter for an occurrence of a method argument. -/
def assignArgument (p : Progress) (argument : BindingIdentifier) (kind : BindingKind) :
    Result (BindingIdentifier × Progress) := do
  let binding : ParameterBinding := { identifier := argument, origin := .argument argument, kind }
  match p.ofArgument argument with
  | [] => return (argument, ← p.register binding)
  | existing =>
    match existing.find? (·.isCompatibleWith binding) with
    | some b => return (b.identifier, p)
    | none =>
      let (identifier, p) := p.freshIdentifier argument
      return (identifier, ← p.register { binding with identifier })

/-- The parameter for an occurrence of a value expression. -/
def assignExpression (p : Progress) (identifier : BindingIdentifier) (expression : String)
    (kind : BindingKind) : Result (BindingIdentifier × Progress) := do
  let bindings ← addBinding { identifier, origin := .expression expression, kind } p.bindings
  return (identifier, { p with bindings })

end Progress

/-- `like` with the wildcards beside the marker, `in`, or neither. -/
def kindOf (o : Occurrence) : BindingKind :=
  let keyword := o.keyword.toList.map Char.toLower
  if keyword == "like".toList then .like (.ofExpression o.decorated)
  else if keyword == "in".toList then .inList
  else .basic

/-- The marker of a parameter in the extracted text. -/
def markerText (numbered : Bool) : BindingIdentifier → String
  | .named name | .namedAndIndexed name _ => ":" ++ name
  | .indexed n => if numbered then "?" ++ toString n else "?"

/-- The argument that a marker stands for, under which an expression may have been substituted; an
unnumbered marker stands for the argument of the next free label. -/
def argumentOf (p : Progress) : Marker → BindingIdentifier × Option String × Progress
  | .named name => (.named name, some name, { p with identified := true })
  | .numbered n => (.indexed n, some (toString n), { p with identified := true })
  | .unnumbered =>
    let (n, labels) := p.labels.allocate
    (.indexed n, none, { p with labels, unnumbered := true })

def step (s : Substituted) (p : Progress) : Piece → Result Progress
  | .text cs => .ok { p with text := p.text ++ cs }
  | .occurrence o => do
    let (argument, key, p) := argumentOf p o.marker
    if p.identified && p.unnumbered then throw (.invalidQuery .mixedMarkers)
    let (target, p) ← match key.bind s.expression? with
      | some expression => p.assignExpression argument expression (kindOf o)
      | none => p.assignArgument argument (kindOf o)
    return { p with text := p.text ++ (markerText (!p.unnumbered) target).toList }

/-- Extracts the bindings of a query and passes them through `adapt`. -/
def extract (query : String) (isNative : Bool)
    (adapt : List ParameterBinding → List ParameterBinding) : Result ExtractedQuery := do
  let cs := query.toList
  let labels := Labels.ofUsed (positions cs)
  let byIndex := !labels.used.isEmpty || Text.contains ['?', '#', '\x7b'] cs
  let s := substitute byIndex labels cs
  let p ← (pieces s.text).foldlM (step s) { labels := s.labels }
  let bindings := adapt p.bindings
  return {
    query := String.ofList p.text, isNative, bindings
    usesUnnumbered := p.unnumbered
    mentionsPageable := Text.contains "#pageable".toList cs
    hasNamedParameter := bindings.any fun b => b.name?.isSome && b.origin.isArgument }

def parse (query : String) (isNative : Bool) : Result ExtractedQuery := extract query isNative id

/-- Puts a binding in the place of those that address its parameter but prepare values otherwise. -/
def carryOver (derived : List ParameterBinding) (known : ParameterBinding) :
    List ParameterBinding :=
  let kept := derived.filter fun b => !(known.bindsTo b && !known.isCompatibleWith b)
  if kept.length == derived.length then derived else kept ++ [known]

/-- Extracts the bindings of another text for the same arguments. -/
def withText (q : ExtractedQuery) (text : String) : Result ExtractedQuery :=
  extract text q.isNative fun derived => q.bindings.foldl carryOver derived

end ExtractedQuery

end Jpql
