import Jpql.Proofs.Derived.Numbering

/-! Queries whose names read as no marker. If the names of entities and attributes do not, then
neither does any name in a query that was created for a method: its paths consist of names of
attributes, and its aliases are lower-case letters or numbered. -/

namespace Jpql

open Text (markersIn markersOf)

/-- No name of an entity or an attribute reads as a marker. -/
structure Metamodel.Unmarked (m : Metamodel) : Prop where
  entityNames : ∀ t ∈ m.types, markersIn t.entityName = []
  attributes : ∀ t ∈ m.types, ∀ a ∈ t.attributes, markersIn a.name = []

theorem PropertyPath.IsAttribute.unmarked {m : Metamodel} (hm : m.Unmarked) {s : PathSegment}
    (hs : IsAttribute m s) : markersIn s.name = [] := by
  obtain ⟨-, t, ht, ha⟩ := hs
  exact hm.attributes t ht s.member ha

namespace Derived

open MethodName

/-! ### Names -/

theorem IsAlias.unmarked {name : String} (h : IsAlias name) : markersIn name = [] := by
  rcases h with ⟨c, rfl⟩ | ⟨n, rfl⟩
  · rw [markersIn, String.toList_ofList]
    exact Text.markersOf_lowerOf c
  · rw [markersIn, String.toList_append, Nat.toString_eq_repr, Nat.toList_repr]
    refine Text.markersOf_eq_nil fun hmem => ?_
    rcases List.mem_append.1 hmem with hword | hdigits
    · revert hword
      decide
    · have hdigit : '?'.isDigit = true :=
        Nat.isDigit_of_mem_toDigits (by decide) (by decide) hdigits
      revert hdigit
      decide

variable {m : Metamodel}

theorem OfAttributes.unmarked (hm : m.Unmarked) {path : String} (h : OfAttributes m path) :
    markersIn path = [] := by
  obtain ⟨segments, hsegments, rfl⟩ := h
  refine Text.markersIn_dotted fun n hn => ?_
  obtain ⟨s, hs, rfl⟩ := List.mem_map.1 hn
  exact (hsegments s hs).unmarked hm

theorem SelectQuery.Leads.unmarked (hm : m.Unmarked) {q : SelectQuery} {e : PathExpression}
    {p : PropertyPath} (hp : ∀ s ∈ p.segments, PropertyPath.IsAttribute m s) (h : q.Leads e p) :
    markersIn e.path = [] ∧ markersIn e.name = [] := by
  obtain ⟨names, hsuffix, hpath⟩ := h.path
  constructor
  · rw [hpath]
    refine Text.markersIn_dotted fun n hn => ?_
    obtain ⟨s, hs, rfl⟩ := List.mem_map.1 (hsuffix.mem hn)
    exact (hp s hs).unmarked hm
  · rw [h.name]
    exact (hp _ (List.getLast_mem p.nonempty)).unmarked hm

theorem Reads.unmarked (hm : m.Unmarked) {q : SelectQuery} {e : PathExpression}
    (h : Reads m q e) : markersIn e.path = [] ∧ markersIn e.name = [] := by
  obtain ⟨p, hp, hleads⟩ := h
  exact hleads.unmarked hm hp

/-! ### Predicates -/

variable {options : Options} {source : OperandSource} {q : SelectQuery}

theorem markersIn_caseFunction (template : CaseTemplate) : markersIn template.function = [] := by
  cases template <;> decide

theorem unmarked_folded {part : Part} {e : Expression} (he : e.Unmarked) :
    (folded options part e).Unmarked := by
  unfold folded
  split
  · exact ⟨markersIn_caseFunction _, he⟩
  · exact he

theorem unmarked_predicateOn? {part : Part} {e : PathExpression} {k : Nat} {p : Predicate}
    (he : markersIn e.path = []) (hp : predicateOn? options source part e k = some p) :
    p.Unmarked := by
  have hpath : (Expression.path e).Unmarked := he
  have hoperand {n : Nat} : (Expression.parameter n).Unmarked := trivial
  have hsame : (folded options part (.path e)).Unmarked := unmarked_folded hpath
  have hvalue : (folded options part (.parameter (k + 1))).Unmarked := unmarked_folded hoperand
  cases hop : part.operator with
  | between =>
    simp only [predicateOn?, hop, Option.some.injEq] at hp
    subst hp
    exact ⟨hpath, hoperand, hoperand⟩
  | isNull | isNotNull | isEmpty | isNotEmpty =>
    simp only [predicateOn?, hop, Option.some.injEq] at hp
    subst hp
    exact ⟨hpath, by decide⟩
  | true | false =>
    simp only [predicateOn?, hop, Option.some.injEq] at hp
    subst hp
    exact ⟨hpath, by decide, show markersIn _ = [] by decide⟩
  | near | within | regex | «exists» => simp [predicateOn?, hop] at hp
  | after | greaterThan | greaterThanEqual | before | lessThan | lessThanEqual =>
    simp only [predicateOn?, hop, Option.some.injEq] at hp
    subst hp
    exact ⟨hpath, by decide, hoperand⟩
  | like | notLike =>
    simp only [predicateOn?, hop, Option.some.injEq] at hp
    subst hp
    exact ⟨hsame, hvalue⟩
  | «in» | notIn =>
    simp only [predicateOn?, hop, Option.some.injEq] at hp
    subst hp
    exact ⟨hsame, hoperand⟩
  | startingWith | endingWith | containing | notContaining =>
    simp only [predicateOn?, hop, Option.some.injEq] at hp
    subst hp
    split
    · exact ⟨hoperand, hpath⟩
    · exact ⟨hsame, hvalue⟩
  | simpleProperty | negatingSimpleProperty =>
    simp only [predicateOn?, hop, Option.some.injEq] at hp
    subst hp
    split
    · exact ⟨hpath, by decide⟩
    · exact ⟨hsame, by decide, hvalue⟩

theorem Conditions.unmarked (hm : m.Unmarked) {k : Nat} {parts : List Part} {ps : List Predicate}
    (h : Conditions options source q k parts ps) (hparts : OnAttributes m parts) :
    ∀ p ∈ ps, p.Unmarked := by
  induction h with
  | nil k => simp
  | cons hleads hp _ ih =>
    refine List.forall_mem_cons.2 ⟨?_, ih fun part hpart => hparts part (by simp [hpart])⟩
    exact unmarked_predicateOn? (hleads.unmarked hm (hparts _ (by simp))).1 hp

theorem CursorAtoms.unmarked (hm : m.Unmarked) {entity : ManagedType} {cursor : Cursor} {k : Nat}
    {comparisons : List (Order × Bool)} {ps : List Predicate} {bs : List ParameterBinding}
    (h : CursorAtoms m entity cursor q k comparisons ps bs) : ∀ p ∈ ps, p.Unmarked := by
  induction h with
  | nil k => simp
  | null _ hp he _ ih =>
    have hpath := (he.unmarked hm (PropertyPath.ofSource_isAttribute hp)).1
    exact List.forall_mem_cons.2 ⟨⟨hpath, by decide⟩, ih⟩
  | value _ _ hp he _ ih =>
    have hpath := (he.unmarked hm (PropertyPath.ofSource_isAttribute hp)).1
    refine List.forall_mem_cons.2 ⟨⟨hpath, ?_, trivial⟩, ih⟩
    unfold cursorOperator
    split
    · decide
    · split <;> decide

theorem unmarked_joinPredicates {op : Predicate → Predicate → Predicate}
    (hop : ∀ p p', (op p p').Unmarked ↔ p.Unmarked ∧ p'.Unmarked) {ps : List Predicate}
    (hps : ∀ p ∈ ps, p.Unmarked) {p : Predicate} (h : joinPredicates op ps = some p) :
    p.Unmarked := by
  cases ps with
  | nil => cases h
  | cons p' ps =>
    obtain rfl := Option.some.inj h
    obtain ⟨hp', hrest⟩ := List.forall_mem_cons.1 hps
    clear h hps
    induction ps generalizing p' with
    | nil => exact hp'
    | cons p'' ps ih =>
      obtain ⟨hp'', hrest⟩ := List.forall_mem_cons.1 hrest
      exact ih _ ((hop p' p'').2 ⟨hp', hp''⟩) hrest

theorem unmarked_parenthesized {p : Predicate} (h : p.Unmarked) : p.parenthesized.Unmarked := by
  cases p <;> exact h

theorem unmarked_alternatives {pss : List (List Predicate)} (h : ∀ p ∈ pss.flatten, p.Unmarked)
    {p : Predicate}
    (hp : joinPredicates .or ((pss.map (joinPredicates .and)).filterMap id) = some p) :
    p.Unmarked := by
  refine unmarked_joinPredicates (fun _ _ => Iff.rfl) (fun p' hp' => ?_) hp
  obtain ⟨o, ho, rfl⟩ := List.mem_filterMap.1 hp'
  obtain ⟨ps, hps, hand⟩ := List.mem_map.1 ho
  exact unmarked_joinPredicates (fun _ _ => Iff.rfl)
    (fun p'' hp'' => h p'' (List.mem_flatten_of_mem hps hp'')) hand

theorem unmarked_getD_tautology {o : Option Predicate} (h : ∀ p, o = some p → p.Unmarked) :
    (o.getD KeysetDraft.tautology).Unmarked := by
  cases o with
  | none => exact ⟨show markersIn _ = [] by decide, by decide⟩
  | some p => exact h p rfl

theorem unmarked_cursorPredicate {rows : List (List Predicate)}
    (h : ∀ p ∈ rows.flatten, p.Unmarked) {p : Predicate} (hp : cursorPredicate rows = some p) :
    p.Unmarked := by
  unfold cursorPredicate at hp
  split at hp
  next => cases hp
  next =>
    obtain rfl := Option.some.inj hp
    refine unmarked_getD_tautology fun p hp => ?_
    refine unmarked_joinPredicates (fun _ _ => Iff.rfl) (fun p' hp' => ?_) hp
    obtain ⟨p'', hp'', rfl⟩ := List.mem_map.1 hp'
    obtain ⟨row, hrow, rfl⟩ := List.mem_map.1 hp''
    refine unmarked_parenthesized (unmarked_getD_tautology fun p hp => ?_)
    exact unmarked_joinPredicates (fun _ _ => Iff.rfl)
      (fun p' hp' => h p' (List.mem_flatten_of_mem hrow hp')) hp

theorem unmarked_together {o o' : Option Predicate} (h : ∀ p, o = some p → p.Unmarked)
    (h' : ∀ p, o' = some p → p.Unmarked) {p : Predicate} (hp : together o o' = some p) :
    p.Unmarked := by
  rcases o with _ | p₁ <;> rcases o' with _ | p₂ <;> cases hp
  · exact h' _ rfl
  · exact h _ rfl
  · exact ⟨unmarked_parenthesized (h p₁ rfl), unmarked_parenthesized (h' p₂ rfl)⟩

/-! ### Queries -/

theorem Joined.unmarked (hm : m.Unmarked) {joins : List Join} (h : Joined m joins) :
    ∀ j ∈ joins, j.Unmarked :=
  fun j hj => ⟨(h.paths j hj).unmarked hm, (h.aliases j hj).unmarked⟩

theorem Selects.unmarked {c : Creator} (hm : c.metamodel.Unmarked) {s : Selection}
    (h : Selects c q s) : s.Unmarked := by
  cases s with
  | paths es => exact ⟨h.2.1, fun e he => (h.2.2 e he).unmarked hm⟩
  | entity | count => trivial
  | construct => exact h.elim

theorem SortsOn.unmarked {c : Creator} (hm : c.metamodel.Unmarked) {o : Order}
    {item : OrderExpression} (h : SortsOn c q o item) : item.expression.Unmarked := by
  obtain ⟨p, e, hp, hleads, hitem⟩ := h.expression
  have hpath := (hleads.unmarked hm (PropertyPath.ofSource_isAttribute hp)).1
  rw [hitem]
  split
  · exact ⟨markersIn_caseFunction _, hpath⟩
  · exact hpath

theorem SortsOn.parameters {c : Creator} {o : Order} {item : OrderExpression}
    (h : SortsOn c q o item) : item.expression.parameters = [] := by
  obtain ⟨p, e, -, -, hitem⟩ := h.expression
  rw [hitem]
  split <;> rfl

end Derived

end Jpql
