import Jpql.Derived.SelectQuery
import Jpql.PropertyPath

/-! Turning property paths into joins. An association inside a path is joined, with an outer join
where it or one before it may be missing. An association at the end of a path is joined only where
its absence would otherwise lose rows. -/

namespace Jpql.Derived

/-- Whether an association has to be joined by an outer join. The flags say that the path is used
outside the predicate, that the association is its last segment, and that an association before
it was joined so. -/
def requiresOuterJoin (a : Attribute) (forSelection isLeaf outerBefore : Bool) : Bool :=
  if !a.kind.isAssociation then false
  else
    let inverseOneToOne := a.kind == .oneToOne && a.owner?.isSome
    let ofOne := !a.kind.isCollection && !inverseOneToOne
    if isLeaf && !forSelection && ofOne && !outerBefore then false
    else outerBefore || a.optional

/-- How far a path has been followed: the origin reached, the names behind it that need no join, and
whether the last join was an outer one. -/
structure Walk where
  query : SelectQuery
  origin : Origin := .root
  pending : List String := []
  outer : Bool := false

/-- Whether the segments behind an association are just the identifier of its target, which is then
known without a join. -/
def endsInId (a : Attribute) (rest : List PathSegment) : Bool :=
  a.kind.isToOne && rest.length == 1 && rest.all (·.member.isId)

def follow (forSelection optimize : Bool) : Walk → List PathSegment → Walk
  | w, [] => w
  | w, s :: rest =>
    let pending := w.pending ++ [s.name]
    let last := rest.isEmpty || (optimize && endsInId s.member rest)
    let outer := requiresOuterJoin s.member forSelection last w.outer
    if !s.member.kind.isAssociation || (!outer && last) then
      follow forSelection optimize { w with pending } rest
    else
      let (origin, query) :=
        w.query.join (if outer then .left else .inner) w.origin (".".intercalate pending)
      follow forSelection optimize { query, origin, outer } rest

/-- The expression of a path, and the query with the joins it needs. With `optimize` the identifier
of an associated entity is read from the foreign key. -/
def resolvePath (q : SelectQuery) (p : PropertyPath) (forSelection optimize : Bool) :
    PathExpression × SelectQuery :=
  let w := follow forSelection optimize { query := q } p.segments
  (⟨w.origin, ".".intercalate w.pending, p.leaf.name⟩, w.query)

/-- The expression of a path that is not joined at all. -/
def implicitPath (p : PropertyPath) : PathExpression := ⟨.root, p.toDotPath, p.leaf.name⟩

end Jpql.Derived
