import Jpql.Proofs.Derived.Bound

/-! What a query means to a database. The text of a predicate is read as any text is: `AND` binds
closer than `OR`, and only parentheses group. Paths are read from the root entity, wherever joins
divide them. -/

namespace Jpql.Derived

/-! ### Reading predicates -/

/-- Alternatives of facts: those of one alternative hold together. -/
def anyHolds (alternatives : List (List Bool)) : Bool := alternatives.any (·.all id)

/-- Alternatives with `AND` between them, which only joins those next to it. -/
def glue : List (List Bool) → List (List Bool) → List (List Bool)
  | [], ys => ys
  | [x], [] => [x]
  | [x], y :: ys => (x ++ y) :: ys
  | x :: xs, ys => x :: glue xs ys

namespace Predicate

/-- The alternatives that the text of a predicate states, where `holds` decides conditions. -/
def reading (holds : Predicate → Bool) : Predicate → List (List Bool)
  | .or left right => left.reading holds ++ right.reading holds
  | .and left right => glue (left.reading holds) (right.reading holds)
  | .nested inner => [[anyHolds (inner.reading holds)]]
  | p => [[holds p]]

def evaluate (holds : Predicate → Bool) (p : Predicate) : Bool := anyHolds (p.reading holds)

/-- The predicate is a condition, with neither connectives nor parentheses. -/
def IsCondition : Predicate → Prop
  | .and .. | .or .. | .nested _ => False
  | _ => True

variable {holds : Predicate → Bool}

theorem reading_condition {p : Predicate} (h : p.IsCondition) : p.reading holds = [[holds p]] := by
  cases p <;> first | rfl | exact h.elim

/-- A predicate in parentheses reads as one fact. -/
theorem reading_parenthesized (p : Predicate) :
    p.parenthesized.reading holds = [[p.evaluate holds]] := by
  cases p <;> simp [parenthesized, reading, evaluate, anyHolds]

@[simp] theorem evaluate_parenthesized (p : Predicate) :
    p.parenthesized.evaluate holds = p.evaluate holds := by
  rw [evaluate, reading_parenthesized]
  simp [anyHolds]

theorem evaluate_and_parenthesized (p p' : Predicate) :
    (Predicate.and p.parenthesized p'.parenthesized).evaluate holds =
      (p.evaluate holds && p'.evaluate holds) := by
  simp [evaluate, reading, reading_parenthesized, glue, anyHolds]

@[simp] theorem evaluate_or (p p' : Predicate) :
    (Predicate.or p p').evaluate holds = (p.evaluate holds || p'.evaluate holds) := by
  simp [evaluate, reading, anyHolds]

theorem evaluate_foldl_or (p : Predicate) (ps : List Predicate) :
    (ps.foldl .or p).evaluate holds = (p :: ps).any (·.evaluate holds) := by
  induction ps generalizing p with
  | nil => simp
  | cons p' ps ih => simp [ih, Bool.or_assoc]

theorem reading_foldl_and {p : Predicate} {facts : List Bool} (hp : p.reading holds = [facts])
    {ps : List Predicate} (hps : ∀ p ∈ ps, p.IsCondition) :
    (ps.foldl .and p).reading holds = [facts ++ ps.map holds] := by
  induction ps generalizing p facts with
  | nil => simpa using hp
  | cons p' ps ih =>
    obtain ⟨hp', hps⟩ := List.forall_mem_cons.1 hps
    have hand : (Predicate.and p p').reading holds = [facts ++ [holds p']] := by
      rw [reading, hp, reading_condition hp']
      rfl
    rw [List.foldl_cons, ih hand hps]
    simp

theorem evaluate_joinPredicates_or {ps : List Predicate} {p : Predicate}
    (h : joinPredicates .or ps = some p) : p.evaluate holds = ps.any (·.evaluate holds) := by
  cases ps with
  | nil => cases h
  | cons p' ps =>
    obtain rfl := Option.some.inj h
    exact evaluate_foldl_or p' ps

/-- Conditions joined by `AND` hold together. -/
theorem evaluate_joinPredicates_and {ps : List Predicate} (hps : ∀ p ∈ ps, p.IsCondition)
    {p : Predicate} (h : joinPredicates .and ps = some p) : p.evaluate holds = ps.all holds := by
  cases ps with
  | nil => cases h
  | cons p' ps =>
    obtain rfl := Option.some.inj h
    obtain ⟨hp', hps⟩ := List.forall_mem_cons.1 hps
    rw [evaluate, reading_foldl_and (reading_condition hp') hps]
    simp [anyHolds]

end Predicate

open MethodName Predicate

/-- Conditions count only if there are any. -/
def holdsOrNone (holds : Predicate → Bool) (o : Option Predicate) : Bool :=
  o.elim true (·.evaluate holds)

variable {holds : Predicate → Bool}

theorem holdsOrNone_alternatives {pss : List (List Predicate)}
    (hps : ∀ p ∈ pss.flatten, p.IsCondition) (hne : ∀ ps ∈ pss, ps ≠ []) :
    holdsOrNone holds (joinPredicates .or ((pss.map (joinPredicates .and)).filterMap id)) =
      (pss.isEmpty || pss.any (·.all holds)) := by
  have hall : ((pss.map (joinPredicates .and)).filterMap id).map (·.evaluate holds) =
      pss.map (·.all holds) := by
    induction pss with
    | nil => rfl
    | cons ps pss ih =>
      rw [List.flatten_cons, List.forall_mem_append] at hps
      obtain ⟨hfirst, hrest⟩ := List.forall_mem_cons.1 hne
      have hrest := ih hps.2 hrest
      rcases hjoin : joinPredicates .and ps with _ | p
      · cases ps with
        | nil => exact absurd rfl hfirst
        | cons => cases hjoin
      · simp [hjoin, evaluate_joinPredicates_and hps.1 hjoin, ← hrest]
  rcases hor : joinPredicates .or ((pss.map (joinPredicates .and)).filterMap id) with _ | p
  · have hnone : (pss.map (joinPredicates .and)).filterMap id = [] := by
      cases hlist : (pss.map (joinPredicates .and)).filterMap id with
      | nil => rfl
      | cons p ps =>
        rw [hlist] at hor
        cases hor
    rw [hnone] at hall
    have hempty : pss = [] := by simpa using hall.symm
    simp [holdsOrNone, hempty]
  · have hsome : pss ≠ [] := by
      rintro rfl
      cases hor
    change p.evaluate holds = _
    rw [evaluate_joinPredicates_or hor]
    have hany : ∀ (ps : List Predicate), ps.any (·.evaluate holds) =
        (ps.map (·.evaluate holds)).any id := by simp
    rw [hany, hall]
    simp [hsome]

theorem evaluate_keysetAnd {ps : List Predicate} (hps : ∀ p ∈ ps, p.IsCondition) (hne : ps ≠ []) :
    (KeysetDraft.and ps).evaluate holds = ps.all holds := by
  rcases hjoin : joinPredicates .and ps with _ | p
  · cases ps with
    | nil => exact absurd rfl hne
    | cons => cases hjoin
  · rw [KeysetDraft.and, hjoin]
    exact evaluate_joinPredicates_and hps hjoin

theorem holdsOrNone_cursorPredicate {rows : List (List Predicate)}
    (hps : ∀ p ∈ rows.flatten, p.IsCondition) (hne : ∀ row ∈ rows, row ≠ []) :
    holdsOrNone holds (cursorPredicate rows) = (rows.isEmpty || rows.any (·.all holds)) := by
  unfold cursorPredicate
  split
  next h => simp [holdsOrNone, h]
  next h =>
    rcases hor : joinPredicates .or ((rows.map KeysetDraft.and).map parenthesized) with _ | p
    · cases rows with
      | nil => exact absurd rfl h
      | cons => cases hor
    have hrow : ∀ row ∈ rows, (KeysetDraft.and row).parenthesized.evaluate holds =
        row.all holds := by
      intro row hrow
      rw [evaluate_parenthesized]
      exact evaluate_keysetAnd (fun p hp => hps p (List.mem_flatten_of_mem hrow hp)) (hne row hrow)
    change (KeysetDraft.or (rows.map KeysetDraft.and)).evaluate holds = _
    rw [KeysetDraft.or, hor]
    change p.evaluate holds = _
    rw [evaluate_joinPredicates_or hor, Bool.eq_false_iff.2 h, Bool.false_or, List.map_map,
      List.any_map]
    rw [Bool.eq_iff_iff, List.any_eq_true, List.any_eq_true]
    refine exists_congr fun row => and_congr_right fun hmem => ?_
    rw [Function.comp_apply, Function.comp_apply, hrow row hmem]

theorem holdsOrNone_together (o o' : Option Predicate) :
    holdsOrNone holds (together o o') = (holdsOrNone holds o && holdsOrNone holds o') := by
  rcases o with _ | p <;> rcases o' with _ | p'
  · rfl
  · rfl
  · exact (Bool.and_true _).symm
  · exact evaluate_and_parenthesized p p'

/-! ### Paths from the root entity -/

/-- The property that a path from the root entity leads to. -/
def property (path : String) : Expression := .path ⟨.root, path, ""⟩

/-- The expression on properties of the root entity, given where the joins lead. -/
def Expression.rooted (paths : List String) : Expression → Expression
  | .path e => property (joined (originPath paths e.origin) e.path)
  | .function name e => .function name (e.rooted paths)
  | e => e

/-- The predicate on properties of the root entity, given where the joins lead. -/
def Predicate.rooted (paths : List String) : Predicate → Predicate
  | .compare left operator right => .compare (left.rooted paths) operator (right.rooted paths)
  | .like left negated right escape =>
    .like (left.rooted paths) negated (right.rooted paths) escape
  | .between tested lower upper =>
    .between (tested.rooted paths) (lower.rooted paths) (upper.rooted paths)
  | .inList tested negated values => .inList (tested.rooted paths) negated (values.rooted paths)
  | .memberOf value negated collection =>
    .memberOf (value.rooted paths) negated (collection.rooted paths)
  | .is tested test => .is (tested.rooted paths) test
  | .and left right => .and (left.rooted paths) (right.rooted paths)
  | .or left right => .or (left.rooted paths) (right.rooted paths)
  | .nested inner => .nested (inner.rooted paths)

@[simp] theorem parameters_rootedExpression (paths : List String) (e : Expression) :
    (e.rooted paths).parameters = e.parameters := by
  induction e with
  | function name e ih => exact ih
  | path | parameter | literal => rfl

@[simp] theorem parameters_rooted (paths : List String) (p : Predicate) :
    (p.rooted paths).parameters = p.parameters := by
  induction p with
  | and left right ihl ihr => exact congrArg₂ (· ++ ·) ihl ihr
  | or left right ihl ihr => exact congrArg₂ (· ++ ·) ihl ihr
  | nested inner ih => exact ih
  | _ => simp [Predicate.rooted, Predicate.parameters]

variable {query : SelectQuery}

theorem SelectQuery.Leads.rooted {e : PathExpression} {p : PropertyPath} (h : query.Leads e p) :
    (Expression.path e).rooted (joinPaths query.joins) = property p.toDotPath := by
  rw [Expression.rooted, h.dotPath]

theorem rooted_implicitPath (p : PropertyPath) :
    (Expression.path (implicitPath p)).rooted [] = property p.toDotPath := by
  simp [Expression.rooted, implicitPath, originPath, joined]

variable {options : Options} {source : OperandSource}

theorem rooted_folded (part : Part) (paths : List String) (e : Expression) :
    (folded options part e).rooted paths = folded options part (e.rooted paths) := by
  unfold folded
  split <;> rfl

/-- Wherever joins divide the path of a condition, it reads the property of the condition. -/
theorem rooted_predicateOn? {part : Part} {e : PathExpression} {k : Nat} {p : Predicate}
    (he : query.Leads e part.property) (hp : predicateOn? options source part e k = some p) :
    (predicateOn? options source part (implicitPath part.property) k).map (·.rooted []) =
      some (p.rooted (joinPaths query.joins)) := by
  have hpath := he.rooted
  have himplicit := rooted_implicitPath part.property
  cases hop : part.operator with
  | between | isNull | isNotNull | true | false | isEmpty | isNotEmpty | after | greaterThan
  | greaterThanEqual | before | lessThan | lessThanEqual | like | notLike | «in» | notIn =>
    simp only [predicateOn?, hop, Option.some.injEq] at hp
    subst hp
    simp [predicateOn?, hop, Predicate.rooted, rooted_folded, hpath, himplicit]
    try simp [Expression.rooted]
  | near | within | regex | «exists» => simp [predicateOn?, hop] at hp
  | startingWith | endingWith | containing | notContaining =>
    simp only [predicateOn?, hop, Option.some.injEq] at hp
    subst hp
    cases hc : part.property.isCollection <;>
      simp [predicateOn?, hop, hc, Predicate.rooted, rooted_folded, hpath, himplicit] <;>
      try simp [Expression.rooted]
  | simpleProperty | negatingSimpleProperty =>
    simp only [predicateOn?, hop, Option.some.injEq] at hp
    subst hp
    cases hnull : source.isNullAt k <;>
      simp [predicateOn?, hop, hnull, Predicate.rooted, rooted_folded, hpath, himplicit]
    simp [Expression.rooted]

theorem isCondition_predicateOn? {part : Part} {e : PathExpression} {k : Nat} {p : Predicate}
    (hp : predicateOn? options source part e k = some p) : p.IsCondition := by
  cases hop : part.operator with
  | between | isNull | isNotNull | true | false | isEmpty | isNotEmpty | after | greaterThan
  | greaterThanEqual | before | lessThan | lessThanEqual | like | notLike | «in» | notIn =>
    simp only [predicateOn?, hop, Option.some.injEq] at hp
    subst hp
    trivial
  | near | within | regex | «exists» => simp [predicateOn?, hop] at hp
  | startingWith | endingWith | containing | notContaining | simpleProperty
  | negatingSimpleProperty =>
    simp only [predicateOn?, hop, Option.some.injEq] at hp
    subst hp
    split <;> trivial

theorem Conditions.isCondition {k : Nat} {parts : List Part} {ps : List Predicate}
    (h : Conditions options source query k parts ps) : ∀ p ∈ ps, p.IsCondition := by
  induction h with
  | nil k => simp
  | cons _ hp _ ih => exact List.forall_mem_cons.2 ⟨isCondition_predicateOn? hp, ih⟩

theorem CursorAtoms.isCondition {m : Metamodel} {entity : ManagedType} {cursor : Cursor} {k : Nat}
    {comparisons : List (Order × Bool)} {ps : List Predicate} {bs : List ParameterBinding}
    (h : CursorAtoms m entity cursor query k comparisons ps bs) : ∀ p ∈ ps, p.IsCondition := by
  induction h with
  | nil k => simp
  | null _ _ _ _ ih => exact List.forall_mem_cons.2 ⟨trivial, ih⟩
  | value _ _ _ _ _ ih => exact List.forall_mem_cons.2 ⟨trivial, ih⟩

end Jpql.Derived
