import Jpql.Error
import Jpql.Metamodel
import Jpql.Text.Case
import Jpql.Text.CaseMapping
import Jpql.Text.Numeral

/-! Paths of attributes through a metamodel, and their resolution from the spelling in method names.
A source such as `AddressZipCode` is first tried as one attribute; as long as that fails, its last
capitalised word is moved behind the cut, so that the longest resolving first piece wins. Of two
failures the one that got further is reported. `_` and `.` force a cut. -/

namespace Jpql

structure PathSegment where
  owner : String
  member : Attribute
  deriving DecidableEq, Repr

def PathSegment.name (s : PathSegment) : String := s.member.name

structure PropertyPath where
  segments : List PathSegment
  nonempty : segments ≠ []
  deriving DecidableEq, Repr

namespace PropertyPath

def ofSegments? (segments : List PathSegment) : Option PropertyPath :=
  if h : segments ≠ [] then some ⟨segments, h⟩ else none

def head (p : PropertyPath) : PathSegment := p.segments.head p.nonempty

def leaf (p : PropertyPath) : PathSegment := p.segments.getLast p.nonempty

def toDotPath (p : PropertyPath) : String := ".".intercalate (p.segments.map PathSegment.name)

def isCollection (p : PropertyPath) : Bool := p.leaf.member.kind.isCollection

def leafType (p : PropertyPath) : ValueType := p.leaf.member.targetType

def declaredType (p : PropertyPath) : ValueType := p.leaf.member.valueType

/-! ### Resolution -/

/-- A failed resolution and the number of segments in front of the failure. -/
structure Failure where
  depth : Nat
  error : QueryError

def maxDepth : Nat := 1000

/-- The attribute name a source spells: its first letter in lower case, unless it starts with two
capitals as acronyms do. -/
def decapitalize : List Char → List Char
  | c :: d :: cs =>
    if Text.isUpper c && Text.isUpper d then c :: d :: cs else Text.lowerOf c ++ d :: cs
  | [c] => Text.lowerOf c
  | [] => []

/-- The managed type that an attribute leads to. -/
def targetKey (a : Attribute) : String := a.targetType.name

def segment (m : Metamodel) (owner : String) (depth : Nat) (source : List Char) :
    Except Failure PathSegment :=
  let name := String.ofList (decapitalize source)
  match (m.managedType? owner).bind (·.attribute? name) with
  | some a => .ok ⟨owner, a⟩
  | none => .error ⟨depth, .propertyNotFound name (simpleName owner)⟩

/-- A letter or digit inside a word, behind its capital. -/
def isWordTail (c : Char) : Bool := !Text.isUpper c && (Text.isLower c || Text.isNumeric c)

/-- Cuts a source before its last capitalised word. -/
def splitLastWord? (source : List Char) : Option (List Char × List Char) :=
  match source.reverse.dropWhile isWordTail with
  | c :: rest =>
    if Text.isUpper c then
      some (rest.reverse, c :: (source.reverse.takeWhile isWordTail).reverse)
    else none
  | [] => none

theorem append_of_splitLastWord? {source front word : List Char}
    (h : splitLastWord? source = some (front, word)) : front ++ word = source ∧ word ≠ [] := by
  unfold splitLastWord? at h
  split at h
  next c rest hd =>
    split at h
    next =>
      obtain ⟨rfl, rfl⟩ := Prod.mk.inj (Option.some.inj h)
      have hsource := List.takeWhile_append_dropWhile (p := isWordTail) (l := source.reverse)
      rw [hd] at hsource
      have := congrArg List.reverse hsource
      simp only [List.reverse_append, List.reverse_cons, List.reverse_reverse] at this
      exact ⟨by simpa using this, by simp⟩
    next => cases h
  next => cases h

theorem length_lt_of_splitLastWord? {source front word : List Char}
    (h : splitLastWord? source = some (front, word)) :
    front.length < source.length ∧ front.length + word.length = source.length := by
  obtain ⟨rfl, hw⟩ := append_of_splitLastWord? h
  have := List.length_pos_iff.2 hw
  simp [this]

/-- Resolves `source` to one attribute of `owner` and `tail` to attributes behind it, or else cuts
`source` short and prepends what is cut off to `tail`. -/
def resolve (m : Metamodel) (owner : String) (depth : Nat) (source tail : List Char) :
    Except Failure (List PathSegment) :=
  if maxDepth < depth then .error ⟨depth, .invalidQuery (.pathTooDeep maxDepth)⟩
  else
    let direct : Except Failure (List PathSegment) :=
      match segment m owner depth source with
      | .error f => .error f
      | .ok s =>
        if tail.isEmpty || source.isEmpty then .ok [s]
        else (resolve m (targetKey s.member) (depth + 1) tail []).map (s :: ·)
    match direct with
    | .ok segments => .ok segments
    | .error failure =>
      match _hs : splitLastWord? source with
      | none => .error failure
      | some (front, word) =>
        if front.isEmpty then .error failure
        else
          match resolve m owner depth front (word ++ tail) with
          | .ok segments => .ok segments
          | .error other => .error (if failure.depth < other.depth then other else failure)
termination_by (source.length + tail.length, source.length)
decreasing_by
  · have : 0 < source.length := by
      rcases source with _ | _ <;> simp_all
    simp only [List.length_nil]
    exact Prod.Lex.left _ _ (by omega)
  · have := length_lt_of_splitLastWord? _hs
    simp only [List.length_append]
    rw [show front.length + (word.length + tail.length) = source.length + tail.length by omega]
    exact Prod.Lex.right _ this.1

/-- The pieces of a source between the forced cuts. -/
def pieces : List Char → List (List Char)
  | [] => []
  | c :: cs =>
    if c == '_' || c == '.' then [] :: pieces cs
    else
      match pieces cs with
      | [] => [[c]]
      | piece :: rest => (c :: piece) :: rest

/-- Resolves piece after piece, each from the type that the pieces before it lead to. -/
def resolvePieces (m : Metamodel) (owner : String) (resolved : List PathSegment) :
    List (List Char) → Result (List PathSegment)
  | [] => .ok resolved
  | piece :: rest =>
    let from' := (resolved.getLast?.map fun s => targetKey s.member).getD owner
    match resolve m from' resolved.length piece [] with
    | .ok segments => resolvePieces m owner (resolved ++ segments) rest
    | .error failure => .error failure.error

def ofSource (m : Metamodel) (owner : ManagedType) (source : String) : Result PropertyPath := do
  let segments ← resolvePieces m owner.name [] ((pieces source.toList).filter (!·.isEmpty))
  match ofSegments? segments with
  | some p => .ok p
  | none => .error (.propertyNotFound source owner.simpleName)

end PropertyPath

end Jpql
