import Jpql.Proofs.Grammar.Insertion
import Jpql.Proofs.Rendering.Conveying
import Jpql.Proofs.Statement.Bare

/-! What a statement writes around its last branch. It stays when that branch is changed, so further
orders are further tokens at one place of the stream, and no sign meets another because of them. -/

namespace Jpql

open Rendering

/-- A stream with a place for another one in it. -/
structure Surroundings where
  around : Rendering → Rendering
  front : List QueryToken
  back : List QueryToken
  toTokens : ∀ r, (around r).toTokens = front ++ r.toTokens ++ back

namespace Surroundings

def nothing : Surroundings := ⟨id, [], [], fun r => by simp⟩

def parenthesized (s : Surroundings) : Surroundings where
  around r := Rendering.parenthesized (s.around r)
  front := .openParen :: s.front
  back := s.back ++ [.closeParen]
  toTokens r := by simp [s.toTokens]

def spaced (before : List Rendering) (s : Surroundings) (behind : List Rendering) : Surroundings where
  around r := Rendering.spaced (before ++ s.around r :: behind)
  front := before.flatMap Rendering.toTokens ++ s.front
  back := s.back ++ behind.flatMap Rendering.toTokens
  toTokens r := by simp [toTokens_spaced, s.toTokens]

end Surroundings

/-! ### The last branch -/

theorem operationRenderings_cons (o : SetOperation) (os : List SetOperation) :
    operationRenderings (o :: os) = word o.words :: o.term.rendering :: operationRenderings os := by
  cases o
  rw [operationRenderings]

mutual

theorem SelectStatement.exists_surroundings : (q : SelectStatement) → ∃ s : Surroundings,
    q.rendering = s.around q.lastSpec.rendering ∧
      ∀ f, (q.mapLastSpec f).rendering = s.around (f q.lastSpec).rendering
  | ⟨withWords, ctes, first, []⟩ => by
    obtain ⟨s, hs, hmap⟩ := first.exists_surroundings
    let before := if ctes.isEmpty then [] else
      [word withWords, commaSeparated (cteRenderings ctes)]
    refine ⟨s.spaced before [], ?_, fun f => ?_⟩
    · rw [SelectStatement.rendering, SelectStatement.lastSpec, lastOperationSpec, hs,
        operationRenderings]
      rfl
    · rw [SelectStatement.mapLastSpec, SelectStatement.rendering, SelectStatement.lastSpec,
        lastOperationSpec, hmap, operationRenderings]
      rfl
  | ⟨withWords, ctes, first, o :: os⟩ => by
    obtain ⟨front, s, hs, hmap⟩ :=
      exists_surroundings_of_operations first.lastSpec (o :: os) (List.cons_ne_nil _ _)
    let before := if ctes.isEmpty then [] else
      [word withWords, commaSeparated (cteRenderings ctes)]
    refine ⟨s.spaced (before ++ first.rendering :: front) [], ?_, fun f => ?_⟩
    · rw [SelectStatement.rendering, SelectStatement.lastSpec, hs]
      simp [Surroundings.spaced, before]
    · rw [SelectStatement.mapLastSpec, SelectStatement.rendering, SelectStatement.lastSpec, hmap]
      simp [Surroundings.spaced, before]

theorem QueryTerm.exists_surroundings : (t : QueryTerm) → ∃ s : Surroundings,
    t.rendering = s.around t.lastSpec.rendering ∧
      ∀ f, (t.mapLastSpec f).rendering = s.around (f t.lastSpec).rendering
  | .spec q => ⟨.nothing, by rw [QueryTerm.rendering, QueryTerm.lastSpec]; rfl, fun f => by
      rw [QueryTerm.mapLastSpec, QueryTerm.rendering, QueryTerm.lastSpec]; rfl⟩
  | .nested q => by
    obtain ⟨s, hs, hmap⟩ := q.exists_surroundings
    refine ⟨s.parenthesized, ?_, fun f => ?_⟩
    · rw [QueryTerm.rendering, QueryTerm.lastSpec, hs]
      rfl
    · rw [QueryTerm.mapLastSpec, QueryTerm.rendering, QueryTerm.lastSpec, hmap]
      rfl

theorem exists_surroundings_of_operations (q : QuerySpec) :
    (os : List SetOperation) → os ≠ [] → ∃ (front : List Rendering) (s : Surroundings),
      operationRenderings os = front ++ [s.around (lastOperationSpec q os).rendering] ∧
        ∀ f, operationRenderings (mapLastOperation f os) =
          front ++ [s.around (f (lastOperationSpec q os)).rendering]
  | [], h => absurd rfl h
  | [⟨words, term⟩], _ => by
    obtain ⟨s, hs, hmap⟩ := term.exists_surroundings
    refine ⟨[word words], s, ?_, fun f => ?_⟩
    · rw [operationRenderings_cons, operationRenderings, lastOperationSpec_cons, lastOperationSpec, hs]
      rfl
    · rw [mapLastOperation_singleton, operationRenderings_cons, operationRenderings,
        lastOperationSpec_cons, lastOperationSpec, hmap]
      rfl
  | o :: o' :: os, _ => by
    obtain ⟨front, s, hs, hmap⟩ :=
      exists_surroundings_of_operations o.term.lastSpec (o' :: os) (List.cons_ne_nil _ _)
    refine ⟨word o.words :: o.term.rendering :: front, s, ?_, fun f => ?_⟩
    · rw [operationRenderings_cons, lastOperationSpec_cons, hs]
      rfl
    · rw [mapLastOperation, operationRenderings_cons, lastOperationSpec_cons, hmap]
      rfl

end

/-! ### Further orders -/

namespace QuerySpec

theorem adding_rendering_congr (q : QuerySpec) {items items' : List OrderItem}
    (h : items.map OrderItem.rendering = items'.map OrderItem.rendering) :
    (q.adding items).rendering = (q.adding items').rendering := by
  have hempty : (q.orders ++ items).isEmpty = (q.orders ++ items').isEmpty := by
    have hlength : items.length = items'.length := by simpa using congrArg List.length h
    rw [Bool.eq_iff_iff, List.isEmpty_iff_length_eq_zero, List.isEmpty_iff_length_eq_zero]
    simp [hlength]
  rw [adding, adding, QuerySpec.rendering, QuerySpec.rendering, orderRenderings_eq,
    orderRenderings_eq, List.map_append, List.map_append, h, hempty]

/-- What further orders add to the tokens. -/
def addedTokens (q : QuerySpec) (i : OrderItem) (is : List OrderItem) : List QueryToken :=
  (if q.orders.isEmpty then .expression "order by" else .comma) ::
    (i.rendering.toTokens ++ is.flatMap fun i => .comma :: i.rendering.toTokens)

theorem toTokens_adding (q : QuerySpec) : ∃ front back, q.rendering.toTokens = front ++ back ∧
    ∀ i is, (q.adding (i :: is)).rendering.toTokens = front ++ (q.addedTokens i is ++ back) := by
  have hitem (i : OrderItem) : i.rendering.toTokens ≠ [] := by
    simp [OrderItem.rendering, toTokens_spaced, Expr.toTokens_rendering_ne_nil]
  have hlist (i : OrderItem) (is : List OrderItem) :
      (commaSeparated (orderRenderings (i :: is))).toTokens =
        i.rendering.toTokens ++ is.flatMap fun i => .comma :: i.rendering.toTokens := by
    rw [orderRenderings_eq, List.map_cons, toTokens_commaSeparated (hitem i), List.flatMap_map]
  rcases q with ⟨selectWord, distinct, items, fromWord, roots, filter, groupWords, groups,
    groupFilter, orderWords, orders, paging⟩
  let clauses := (if items.isEmpty then [] else [spaced (word selectWord :: optionalWord distinct ++
        [commaSeparated (itemRenderings items)])]) ++
      (if roots.isEmpty then [] else [spaced [word fromWord, commaSeparated (rootRenderings roots)]]) ++
      conditionRenderings filter ++
      (if groups.isEmpty then [] else [word groupWords, commaSeparated (exprRenderings groups)]) ++
      conditionRenderings groupFilter
  cases orders with
  | nil =>
    refine ⟨clauses.flatMap toTokens, (fragmentRenderings paging).flatMap toTokens, ?_, fun i is => ?_⟩
    · simp [QuerySpec.rendering, toTokens_spaced, clauses]
    · simp [adding, addedTokens, QuerySpec.rendering, toTokens_spaced, clauses, hlist]
  | cons o os =>
    refine ⟨clauses.flatMap toTokens ++ .expression orderWords ::
      (commaSeparated (orderRenderings (o :: os))).toTokens,
      (fragmentRenderings paging).flatMap toTokens, ?_, fun i is => ?_⟩
    · simp [QuerySpec.rendering, toTokens_spaced, clauses]
    · simp [adding, addedTokens, QuerySpec.rendering, toTokens_spaced, clauses, hlist]

end QuerySpec

/-! ### Signs -/

namespace Rendering

theorem signsApart_append_of {ts us : List QueryToken} (hts : ∀ t ∈ ts, t ≠ .plain "-")
    (hus : signsApart us = true) : signsApart (ts ++ us) = true := by
  induction ts with
  | nil => exact hus
  | cons t ts ih =>
    obtain ⟨ht, hts⟩ := List.forall_mem_cons.1 hts
    simp [signsApart, ht, ih hts]

/-- Tokens are put in that are no signs, and do not start as one. -/
theorem signsApart_insert {ins back : List QueryToken} (hins : ∀ t ∈ ins, t ≠ .plain "-") {c : Char}
    (hc : c ≠ '-') (hhead : (ins.flatMap (·.value.toList)).head? = some c) {front : List QueryToken}
    (h : signsApart (front ++ back) = true) :
    signsApart (front ++ (ins ++ back)) = true := by
  induction front with
  | nil =>
    rw [List.nil_append] at h ⊢
    exact signsApart_append_of hins h
  | cons t front ih =>
    rw [List.cons_append] at h ⊢
    obtain ⟨ht, h⟩ := Bool.and_eq_true_iff.1 h
    refine Bool.and_eq_true_iff.2 ⟨?_, ih h⟩
    rw [List.flatMap_append] at ht ⊢
    cases hfront : front.flatMap (·.value.toList) with
    | nil =>
      have hne : ins.flatMap (·.value.toList) ≠ [] := fun hnil => by simp [hnil] at hhead
      rw [List.nil_append, List.flatMap_append, List.head?_append_of_ne_nil _ hne, hhead]
      simp [hc]
    | cons d ds =>
      rw [hfront] at ht
      exact ht

end Rendering

namespace SelectStatement

/-- What is written of the further orders is all that counts. -/
theorem adding_rendering_congr (query : SelectStatement) {items items' : QuerySpec → List OrderItem}
    (h : (items query.lastSpec).map OrderItem.rendering =
      (items' query.lastSpec).map OrderItem.rendering) :
    (query.mapLastSpec fun q => q.adding (items q)).rendering =
      (query.mapLastSpec fun q => q.adding (items' q)).rendering := by
  obtain ⟨s, -, hmap⟩ := query.exists_surroundings
  rw [hmap, hmap, query.lastSpec.adding_rendering_congr h]

/-- Orders without a sign bring no signs together. -/
theorem signsApart_adding {query : SelectStatement} (h : signsApart query.rendering.toTokens = true)
    {items : QuerySpec → List OrderItem} (hne : items query.lastSpec ≠ [])
    (hitems : ∀ i ∈ items query.lastSpec, ∀ t ∈ i.rendering.toTokens, t ≠ .plain "-") :
    signsApart (query.mapLastSpec fun q => q.adding (items q)).rendering.toTokens = true := by
  obtain ⟨s, hs, hmap⟩ := query.exists_surroundings
  obtain ⟨front, back, hspec, hadding⟩ := query.lastSpec.toTokens_adding
  obtain ⟨i, is, his⟩ := List.exists_cons_of_ne_nil hne
  rw [hs, s.toTokens, hspec, List.append_assoc, List.append_assoc, ← List.append_assoc] at h
  rw [his] at hitems
  obtain ⟨hi, his'⟩ := List.forall_mem_cons.1 hitems
  rw [hmap, s.toTokens, his, hadding]
  let ins := query.lastSpec.addedTokens i is
  have hins : ∀ t ∈ ins, t ≠ .plain "-" := by
    refine List.forall_mem_cons.2 ⟨?_, List.forall_mem_append.2 ⟨hi, fun t ht => ?_⟩⟩
    · split <;> decide
    · obtain ⟨i, hmem, ht⟩ := List.mem_flatMap.1 ht
      rcases List.mem_cons.1 ht with rfl | ht
      · decide
      · exact his' i hmem t ht
  have hhead : ∃ c ≠ '-', (ins.flatMap (·.value.toList)).head? = some c := by
    simp only [ins, QuerySpec.addedTokens, List.flatMap_cons]
    split
    · exact ⟨'o', by decide, rfl⟩
    · exact ⟨',', by decide, rfl⟩
  obtain ⟨c, hc, hhead⟩ := hhead
  have hapart := signsApart_insert hins hc hhead h
  simpa [ins] using hapart

end SelectStatement

end Jpql
