import Jpql.Proofs.Derived.Keyset
import Jpql.Proofs.Derived.Markers

/-! How parameters are numbered. Bindings have consecutive positions. A predicate mentions those of
its bindings from left to right, except for null tests, which leave gaps. -/

namespace Jpql.Derived

open MethodName
open Text (markersIn)

/-- The bindings have the positions behind `k`, one after the other. -/
inductive Numbered : Nat → List ParameterBinding → Prop
  | nil (k : Nat) : Numbered k []
  | cons {k : Nat} {b : ParameterBinding} {bs : List ParameterBinding}
      (hb : b.identifier = .indexed (k + 1)) (hbs : Numbered (k + 1) bs) : Numbered k (b :: bs)

/-- The positions of the bindings that are no null tests. -/
def boundPositions (bs : List ParameterBinding) : List Nat :=
  (bs.filter (!·.isNullTest)).filterMap (·.position?)

@[simp] theorem boundPositions_nil : boundPositions [] = [] := rfl

@[simp] theorem boundPositions_append (bs bs' : List ParameterBinding) :
    boundPositions (bs ++ bs') = boundPositions bs ++ boundPositions bs' := by
  simp [boundPositions]

theorem mem_boundPositions {bs : List ParameterBinding} {n : Nat} :
    n ∈ boundPositions bs ↔ ∃ b ∈ bs, b.isNullTest = false ∧ b.position? = some n := by
  simp [boundPositions, and_assoc]

theorem boundPositions_cons {k : Nat} {b : ParameterBinding} (hb : b.identifier = .indexed (k + 1))
    (bs : List ParameterBinding) :
    boundPositions (b :: bs) = (if b.isNullTest then [] else [k + 1]) ++ boundPositions bs := by
  cases hnull : b.isNullTest <;>
    simp [boundPositions, hnull, ParameterBinding.position?, hb, BindingIdentifier.position?]

namespace Numbered

variable {k : Nat} {bs bs' : List ParameterBinding}

theorem append (h : Numbered k bs) (h' : Numbered (k + bs.length) bs') :
    Numbered k (bs ++ bs') := by
  induction h with
  | nil k => exact h'
  | cons hb _ ih =>
    refine .cons hb (ih ?_)
    rwa [Nat.add_assoc, Nat.add_comm 1]

theorem getElem? (h : Numbered k bs) {i : Nat} {b : ParameterBinding} (hi : bs[i]? = some b) :
    b.identifier = .indexed (k + i + 1) := by
  induction h generalizing i with
  | nil k => simp at hi
  | cons hb _ ih =>
    rcases i with _ | i
    · obtain rfl := Option.some.inj hi
      exact hb
    · rw [ih hi, Nat.add_assoc _ 1, Nat.add_comm 1]

theorem lower (h : Numbered k bs) : ∀ n ∈ boundPositions bs, k < n := by
  intro n hn
  obtain ⟨b, hb, -, hposition⟩ := mem_boundPositions.1 hn
  obtain ⟨i, hi⟩ := List.mem_iff_getElem?.1 hb
  rw [ParameterBinding.position?, h.getElem? hi] at hposition
  obtain rfl := Option.some.inj hposition
  omega

/-- Positions ascend, so none comes twice. -/
theorem ascending (h : Numbered k bs) : (boundPositions bs).Pairwise (· < ·) := by
  induction h with
  | nil k => exact .nil
  | cons hb hbs ih =>
    rw [boundPositions_cons hb]
    split
    · exact ih
    · exact List.pairwise_cons.2 ⟨hbs.lower, ih⟩

end Numbered

/-! ### Conditions -/

variable {options : Options} {source : OperandSource}

@[simp] theorem parameters_folded (part : Part) (e : Expression) :
    (folded options part e).parameters = e.parameters := by
  unfold folded
  split <;> rfl

theorem Binds.identifier {part : Part} {k : Nat} {b : ParameterBinding}
    (h : Binds source part k b) : b.identifier = .indexed (k + 1) := by
  obtain ⟨p, -, rfl⟩ := h
  rfl

theorem BindsAll.numbered {k : Nat} {parts : List Part}
    {bs : List ParameterBinding} (h : BindsAll source k parts bs) : Numbered k bs := by
  induction parts generalizing k bs with
  | nil =>
    cases h
    exact .nil k
  | cons part parts ih =>
    obtain _ | ⟨hb, hrest⟩ := h
    exact .cons hb.identifier (ih hrest)

/-- The parameters in the predicate of a condition are those that it binds. -/
theorem parameters_predicateOn? {part : Part} {e : PathExpression} {k : Nat} {p : Predicate}
    {bs : List ParameterBinding} (hp : predicateOn? options source part e k = some p)
    (hbs : BindsAll source k (List.replicate part.arguments part) bs) :
    p.parameters = boundPositions bs := by
  have none (harguments : part.arguments = 0) (hparameters : p.parameters = []) :
      p.parameters = boundPositions bs := by
    rw [harguments] at hbs
    cases hbs
    exact hparameters
  have one (harguments : part.arguments = 1) (hparameters : p.parameters =
      if (part.operator == .simpleProperty || part.operator == .negatingSimpleProperty) &&
        source.isNullAt k || part.operator == .isNull then [] else [k + 1]) :
      p.parameters = boundPositions bs := by
    rw [harguments] at hbs
    obtain _ | ⟨hb, hrest⟩ := hbs
    cases hrest
    rw [boundPositions_cons hb.identifier, hb.isNullTest, boundPositions_nil, List.append_nil]
    exact hparameters
  cases hop : part.operator with
  | between =>
    have harguments : part.arguments = 2 := by rw [Part.arguments, hop]; rfl
    rw [harguments] at hbs
    obtain _ | ⟨hb, _ | ⟨hb', hrest⟩⟩ := hbs
    cases hrest
    rw [boundPositions_cons hb.identifier, boundPositions_cons hb'.identifier, hb.isNullTest, hb'.isNullTest]
    simp only [predicateOn?, hop, Option.some.injEq] at hp
    subst hp
    simp [Predicate.parameters, Expression.parameters, hop]
  | isNull | isNotNull | true | false | isEmpty | isNotEmpty =>
    refine none (by rw [Part.arguments, hop]; rfl) ?_
    simp only [predicateOn?, hop, Option.some.injEq] at hp
    subst hp
    rfl
  | near | within | regex | «exists» => simp [predicateOn?, hop] at hp
  | after | greaterThan | greaterThanEqual | before | lessThan | lessThanEqual | like | notLike
  | «in» | notIn =>
    refine one (by rw [Part.arguments, hop]; rfl) ?_
    simp only [predicateOn?, hop, Option.some.injEq] at hp
    subst hp
    simp [Predicate.parameters, Expression.parameters, hop]
  | startingWith | endingWith | containing | notContaining =>
    refine one (by rw [Part.arguments, hop]; rfl) ?_
    simp only [predicateOn?, hop, Option.some.injEq] at hp
    subst hp
    split <;> simp [Predicate.parameters, Expression.parameters, hop]
  | simpleProperty | negatingSimpleProperty =>
    refine one (by rw [Part.arguments, hop]; rfl) ?_
    simp only [predicateOn?, hop, Option.some.injEq] at hp
    subst hp
    cases source.isNullAt k <;> simp [Predicate.parameters, Expression.parameters, hop]

theorem Conditions.parameters {q : SelectQuery} {k : Nat} {parts : List Part}
    {ps : List Predicate} {bs : List ParameterBinding}
    (h : Conditions options source q k parts ps) (hbs : BindsAll source k (operandsOf parts) bs) :
    ps.flatMap Predicate.parameters = boundPositions bs := by
  induction h generalizing bs with
  | nil k =>
    cases hbs
    rfl
  | @cons k part e p parts ps _ hp _ ih =>
    obtain ⟨bs₁, bs₂, rfl, h₁, h₂⟩ := hbs.exists_append
    rw [List.length_replicate] at h₂
    rw [List.flatMap_cons, parameters_predicateOn? hp h₁, ih h₂, boundPositions_append]

/-! ### Cursors -/

variable {m : Metamodel} {entity : ManagedType} {cursor : Cursor}

theorem CursorAtoms.numbered {q : SelectQuery} {k : Nat} {comparisons : List (Order × Bool)}
    {ps : List Predicate} {bs : List ParameterBinding}
    (h : CursorAtoms m entity cursor q k comparisons ps bs) : Numbered k bs := by
  induction h with
  | nil k => exact .nil k
  | null _ _ _ _ ih => exact ih
  | value _ _ _ _ _ ih => exact .cons rfl ih

theorem CursorAtoms.parameters {q : SelectQuery} {k : Nat} {comparisons : List (Order × Bool)}
    {ps : List Predicate} {bs : List ParameterBinding}
    (h : CursorAtoms m entity cursor q k comparisons ps bs) :
    ps.flatMap Predicate.parameters = boundPositions bs := by
  induction h with
  | nil k => rfl
  | null _ _ _ _ ih => simpa [Predicate.parameters, Expression.parameters] using ih
  | value _ _ _ _ _ ih =>
    rw [boundPositions_cons rfl, List.flatMap_cons, ih]
    rfl

/-! ### Whole predicates -/

theorem parameters_foldl {op : Predicate → Predicate → Predicate}
    (hop : ∀ p p', (op p p').parameters = p.parameters ++ p'.parameters) (p : Predicate)
    (ps : List Predicate) :
    (ps.foldl op p).parameters = p.parameters ++ ps.flatMap Predicate.parameters := by
  induction ps generalizing p with
  | nil => simp
  | cons p' ps ih => rw [List.foldl_cons, ih, hop, List.flatMap_cons, List.append_assoc]

/-- The parameters of an optional predicate. -/
def parametersOf (o : Option Predicate) : List Nat := o.elim [] Predicate.parameters

theorem parametersOf_joinPredicates (op : Predicate → Predicate → Predicate)
    (hop : ∀ p p', (op p p').parameters = p.parameters ++ p'.parameters) (ps : List Predicate) :
    parametersOf (joinPredicates op ps) = ps.flatMap Predicate.parameters := by
  cases ps with
  | nil => rfl
  | cons p ps => exact parameters_foldl hop p ps

@[simp] theorem parameters_parenthesized (p : Predicate) :
    p.parenthesized.parameters = p.parameters := by
  cases p <;> rfl

/-- The parameters of alternatives are those of their conditions, in order. -/
theorem parametersOf_alternatives (pss : List (List Predicate)) :
    parametersOf (joinPredicates .or ((pss.map (joinPredicates .and)).filterMap id)) =
      pss.flatten.flatMap Predicate.parameters := by
  rw [parametersOf_joinPredicates Predicate.or fun _ _ => rfl]
  induction pss with
  | nil => rfl
  | cons ps pss ih =>
    have hps := parametersOf_joinPredicates Predicate.and (fun _ _ => rfl) ps
    rw [List.map_cons, List.flatten_cons, List.flatMap_append, ← ih, ← hps]
    cases joinPredicates .and ps <;> rfl

theorem parameters_keysetAnd (ps : List Predicate) :
    (KeysetDraft.and ps).parameters = ps.flatMap Predicate.parameters := by
  rw [← parametersOf_joinPredicates Predicate.and fun _ _ => rfl]
  unfold KeysetDraft.and
  cases joinPredicates .and ps <;> rfl

theorem parametersOf_cursorPredicate (rows : List (List Predicate)) :
    parametersOf (cursorPredicate rows) = rows.flatten.flatMap Predicate.parameters := by
  unfold cursorPredicate
  split
  next h =>
    obtain rfl := List.isEmpty_iff.1 h
    rfl
  next =>
    have hor := parametersOf_joinPredicates Predicate.or (fun _ _ => rfl)
      ((rows.map KeysetDraft.and).map Predicate.parenthesized)
    have hall : ((rows.map KeysetDraft.and).map Predicate.parenthesized).flatMap
        Predicate.parameters = rows.flatten.flatMap Predicate.parameters := by
      rw [← List.flatMap_id, List.flatMap_assoc]
      simp [List.flatMap_map, parameters_keysetAnd]
    rw [← hall, ← hor]
    unfold KeysetDraft.or parametersOf
    rcases joinPredicates .or _ <;> rfl

theorem parametersOf_together (o o' : Option Predicate) :
    parametersOf (together o o') = parametersOf o ++ parametersOf o' := by
  cases o <;> cases o' <;> simp [together, parametersOf, Predicate.parameters]

end Jpql.Derived
