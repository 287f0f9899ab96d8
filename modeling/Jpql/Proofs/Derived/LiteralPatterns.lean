import Jpql.Derived
import Jpql.Proofs.Derived.Condition
import Mathlib.Data.List.Infix

/-! Patterns that match a text literally. An argument of a pattern operator is bound with its
wildcards and its escape characters escaped, so what is left of the pattern are the characters of
the argument and the wildcards put around it. -/

namespace Jpql

open MethodName (Part)

/-! ### The patterns of `like` -/

inductive PatternItem where
  | literal (c : Char)
  /-- Stands for any one character. -/
  | anyCharacter
  /-- Stands for any number of characters. -/
  | anyText
  deriving DecidableEq, Repr

namespace PatternItem

/-- Whether the items stand for all of the text. Every split is tried behind `anyText`. -/
def fits : List PatternItem → List Char → Bool
  | [], cs => cs.isEmpty
  | .literal _ :: _, [] => false
  | .literal c :: items, d :: ds => c == d && fits items ds
  | .anyCharacter :: _, [] => false
  | .anyCharacter :: items, _ :: ds => fits items ds
  | .anyText :: items, cs => cs.tails.any (fits items)

theorem fits_literals {v : List Char} {items : List PatternItem} {cs : List Char} :
    fits (v.map .literal ++ items) cs = true ↔ ∃ ds, cs = v ++ ds ∧ fits items ds = true := by
  induction v generalizing cs with
  | nil => simp
  | cons c v ih =>
    cases cs with
    | nil => simp [fits]
    | cons d ds =>
      simp only [List.map_cons, List.cons_append, fits, Bool.and_eq_true, beq_iff_eq, ih,
        List.cons.injEq]
      constructor
      · rintro ⟨rfl, rest, rfl, hrest⟩
        exact ⟨rest, ⟨rfl, rfl⟩, hrest⟩
      · rintro ⟨rest, ⟨rfl, rfl⟩, hrest⟩
        exact ⟨rfl, rest, rfl, hrest⟩

theorem fits_anyText {items : List PatternItem} {cs : List Char} :
    fits (.anyText :: items) cs = true ↔ ∃ ds, ds <:+ cs ∧ fits items ds = true := by
  simp only [fits, List.any_eq_true, List.mem_tails]

theorem fits_all (cs : List Char) : fits [.anyText] cs = true :=
  fits_anyText.2 ⟨[], List.nil_suffix, rfl⟩

theorem fits_startingWith {v cs : List Char} :
    fits (v.map .literal ++ [PatternItem.anyText]) cs = true ↔ v <+: cs := by
  rw [fits_literals]
  constructor
  · rintro ⟨ds, rfl, -⟩
    exact List.prefix_append v ds
  · rintro ⟨ds, rfl⟩
    exact ⟨ds, rfl, fits_all ds⟩

theorem fits_endingWith {v cs : List Char} :
    fits (.anyText :: v.map .literal) cs = true ↔ v <:+ cs := by
  have hexact (ds : List Char) : fits (v.map .literal) ds = true ↔ ds = v := by
    rw [← List.append_nil (v.map _), fits_literals]
    simp [fits]
  rw [fits_anyText]
  constructor
  · rintro ⟨ds, hds, hv⟩
    exact (hexact ds).1 hv ▸ hds
  · intro hv
    exact ⟨v, hv, (hexact v).2 rfl⟩

theorem fits_containing {v cs : List Char} :
    fits (.anyText :: (v.map .literal ++ [.anyText])) cs = true ↔ v <:+: cs := by
  simp only [fits_anyText, fits_startingWith, List.infix_iff_prefix_suffix, and_comm]

end PatternItem

namespace EscapeCharacter

open PatternItem

/-- The items of a pattern. Only a wildcard or the escape character may follow the escape
character. -/
def items? (e : EscapeCharacter) : List Char → Option (List PatternItem)
  | [] => some []
  | c :: cs =>
    if c = e.value then
      match cs with
      | [] => none
      | d :: ds =>
        if d = '%' ∨ d = '_' ∨ d = e.value then (e.items? ds).map (.literal d :: ·) else none
    else if c = '%' then (e.items? cs).map (.anyText :: ·)
    else if c = '_' then (e.items? cs).map (.anyCharacter :: ·)
    else (e.items? cs).map (.literal c :: ·)

/-- Whether a text is like a pattern, if the pattern is one. -/
def like? (e : EscapeCharacter) (pattern text : String) : Option Bool :=
  (e.items? pattern.toList).map (fits · text.toList)

/-- A character that is no wildcard itself. -/
def IsPlain (e : EscapeCharacter) : Prop := e.value ≠ '%' ∧ e.value ≠ '_'

variable {e : EscapeCharacter}

theorem IsPlain.items?_percent (h : e.IsPlain) (cs : List Char) :
    e.items? ('%' :: cs) = (e.items? cs).map (.anyText :: ·) := by
  rw [items?.eq_def]
  simp only [h.1.symm, if_false, if_true]

/-- An escaped text reads as itself, also if it has escape characters. -/
theorem items?_escapeChars (v cs : List Char) :
    e.items? (e.escapeChars v ++ cs) = (e.items? cs).map (v.map .literal ++ ·) := by
  induction v with
  | nil => simp [escapeChars]
  | cons c v ih =>
    have hcons : e.escapeChars (c :: v) ++ cs =
        (if c == '%' || c == '_' || c == e.value then [e.value, c] else [c]) ++
          (e.escapeChars v ++ cs) := by
      simp [escapeChars]
    rw [hcons]
    split
    next hspecial =>
      have hfollows : c = '%' ∨ c = '_' ∨ c = e.value := by simpa [or_assoc] using hspecial
      simp only [List.cons_append, List.nil_append, items?, hfollows, if_true, ih, Option.map_map]
      rfl
    next hplain =>
      have hother : c ≠ '%' ∧ c ≠ '_' ∧ c ≠ e.value := by simpa [and_assoc] using hplain
      rw [List.singleton_append, items?.eq_def]
      simp only [hother, if_false, ih, Option.map_map]
      rfl

theorem items?_escape (s : String) (cs : List Char) :
    e.items? ((e.escape s).toList ++ cs) = (e.items? cs).map (s.toList.map .literal ++ ·) := by
  rw [escape, String.toList_ofList, items?_escapeChars]

theorem like?_startingWith (he : e.IsPlain) (v c : String) :
    e.like? (e.escape v ++ "%") c = some (decide (v.toList <+: c.toList)) := by
  have hitems : e.items? (e.escape v ++ "%").toList =
      some (v.toList.map .literal ++ [PatternItem.anyText]) := by
    rw [String.toList_append, items?_escape]
    change ((e.items? ('%' :: [])).map _) = _
    rw [he.items?_percent]
    rfl
  rw [like?, hitems, Option.map_some, Option.some_inj, Bool.eq_iff_iff, fits_startingWith,
    decide_eq_true_iff]

theorem like?_endingWith (he : e.IsPlain) (v c : String) :
    e.like? ("%" ++ e.escape v) c = some (decide (v.toList <:+ c.toList)) := by
  have hitems : e.items? ("%" ++ e.escape v).toList = some (.anyText :: v.toList.map .literal) := by
    have hescaped := items?_escape (e := e) v []
    rw [List.append_nil] at hescaped
    rw [String.toList_append]
    change e.items? ('%' :: (e.escape v).toList) = _
    rw [he.items?_percent, hescaped]
    simp [items?]
  rw [like?, hitems, Option.map_some, Option.some_inj, Bool.eq_iff_iff, fits_endingWith,
    decide_eq_true_iff]

theorem like?_containing (he : e.IsPlain) (v c : String) :
    e.like? ("%" ++ e.escape v ++ "%") c = some (decide (v.toList <:+: c.toList)) := by
  have hitems : e.items? ("%" ++ e.escape v ++ "%").toList =
      some (.anyText :: (v.toList.map .literal ++ [PatternItem.anyText])) := by
    rw [String.toList_append, String.toList_append]
    change e.items? ('%' :: ((e.escape v).toList ++ ['%'])) = _
    rw [he.items?_percent, items?_escape, he.items?_percent]
    rfl
  rw [like?, hitems, Option.map_some, Option.some_inj, Bool.eq_iff_iff, fits_containing,
    decide_eq_true_iff]

end EscapeCharacter

namespace Operand

open EscapeCharacter

/-- Texts that are no elements of a collection are bound as patterns. -/
theorem prepare_text {o : Operand} (hstring : o.valueType.isString = true)
    (hscalar : o.noWildcards = false) (v : String) :
    o.prepare (.text v) = .text (o.pattern v) := by
  simp [prepare, Value.isNull, hstring, hscalar]

/-- What is bound for a text matches literally: the column starts with it, ends with it or contains
it, whatever wildcards and escape characters it has. -/
theorem prepared_matches_literally {o : Operand} (hstring : o.valueType.isString = true)
    (hscalar : o.noWildcards = false) (he : o.escape.IsPlain) (v c : String) :
    (o.operator = .startingWith → ∃ p, o.prepare (.text v) = .text p ∧
      o.escape.like? p c = some (decide (v.toList <+: c.toList))) ∧
    (o.operator = .endingWith → ∃ p, o.prepare (.text v) = .text p ∧
      o.escape.like? p c = some (decide (v.toList <:+ c.toList))) ∧
    (o.operator = .containing ∨ o.operator = .notContaining → ∃ p, o.prepare (.text v) = .text p ∧
      o.escape.like? p c = some (decide (v.toList <:+: c.toList))) := by
  refine ⟨fun hop => ⟨_, prepare_text hstring hscalar v, ?_⟩,
    fun hop => ⟨_, prepare_text hstring hscalar v, ?_⟩,
    fun hop => ⟨_, prepare_text hstring hscalar v, ?_⟩⟩
  · simp only [pattern, hop, like?_startingWith he]
  · simp only [pattern, hop, like?_endingWith he]
  · rcases hop with hop | hop <;> simp only [pattern, hop, like?_containing he]

/-- A pattern operator whose escape character is an exclamation mark. -/
def exclaimed (operator : MethodName.Operator) : Operand :=
  { operator, valueType := .string, escape := ⟨'!'⟩ }

/-- Wildcards and escape characters in an argument match just themselves. -/
theorem prepared_matches_exclaimed :
    (∃ p, (exclaimed .startingWith).prepare (.text "5%!") = .text p ∧
      (⟨'!'⟩ : EscapeCharacter).like? p "5%! off" = some true) ∧
    (∃ p, (exclaimed .endingWith).prepare (.text "5%!") = .text p ∧
      (⟨'!'⟩ : EscapeCharacter).like? p "5%! off" = some false) ∧
    (∃ p, (exclaimed .notContaining).prepare (.text "5%!") = .text p ∧
      (⟨'!'⟩ : EscapeCharacter).like? p "only 50! off" = some false) := by
  have hplain : (⟨'!'⟩ : EscapeCharacter).IsPlain := ⟨by decide, by decide⟩
  have hmatches (operator : MethodName.Operator) (c : String) :=
    prepared_matches_literally (o := exclaimed operator) rfl rfl hplain "5%!" c
  refine ⟨(hmatches .startingWith "5%! off").1 rfl, ?_, ?_⟩
  · exact (hmatches .endingWith "5%! off").2.1 rfl
  · exact (hmatches .notContaining "only 50! off").2.2 (.inr rfl)

/-- The operators whose arguments become patterns. -/
def IsPattern (operator : MethodName.Operator) : Prop :=
  operator = .startingWith ∨ operator = .endingWith ∨ operator = .containing ∨
    operator = .notContaining

/-- What a pattern operator asks of a text. -/
def asks : MethodName.Operator → String → String → Bool
  | .startingWith, v, c => decide (v.toList <+: c.toList)
  | .endingWith, v, c => decide (v.toList <:+ c.toList)
  | _, v, c => decide (v.toList <:+: c.toList)

theorem like?_pattern {o : Operand} (he : o.escape.IsPlain) (hop : IsPattern o.operator)
    (v c : String) : o.escape.like? (o.pattern v) c = some (asks o.operator v c) := by
  rcases hop with hop | hop | hop | hop
  · simp only [pattern, asks, hop, like?_startingWith he]
  · simp only [pattern, asks, hop, like?_endingWith he]
  · simp only [pattern, asks, hop, like?_containing he]
  · simp only [pattern, asks, hop, like?_containing he]

end Operand

/-! ### Conditions -/

namespace Derived

open Operand (IsPattern asks)
open Step (bind_ok ite_bind_ok pure_ok lift_ok)

variable {options : Options} {source : OperandSource} {part : Part} {d d' : Draft} {p : Predicate}

theorem expected_pattern (hop : IsPattern part.operator)
    (hscalar : part.property.isCollection = false) : expected part = .text := by
  rcases hop with hop | hop | hop | hop <;> simp [expected, hop, hscalar]

/-- The argument of a pattern operator is bound with the escape character of the source. -/
theorem Binds.prepare_pattern (hop : IsPattern part.operator)
    (hscalar : part.property.isCollection = false) {k : Nat} {b : ParameterBinding}
    (h : Binds source part k b) :
    ∃ o : Operand, o.operator = part.operator ∧ o.escape = source.escape ∧
      ∀ v, b.prepare (.text v) = .text (o.pattern v) := by
  obtain ⟨parameter, -, rfl⟩ := h
  refine ⟨_, ?_, rfl, fun v => Operand.prepare_text ?_ hscalar v⟩
  · rcases hop with hop | hop | hop | hop <;> simp [hop]
  · rw [expected_pattern hop hscalar]
    rfl

theorem condition_pattern (hop : IsPattern part.operator)
    (hscalar : part.property.isCollection = false)
    (h : condition options source part d = .ok (p, d')) :
    ∃ (e : PathExpression) (b : ParameterBinding), p = .like (folded options part (.path e)) (part.operator == .notContaining)
        (folded options part (.parameter (d.bindings.length + 1))) source.escape.value ∧
      Binds source part d.bindings.length b ∧ d'.bindings = d.bindings ++ [b] := by
  unfold condition at h
  obtain ⟨path, d₁, hpath, h⟩ := ite_bind_ok.1 h
  obtain ⟨e, rfl, hbindings⟩ := conditionPath_ok hpath
  obtain ⟨same, d₂, hsame, h⟩ := bind_ok.1 h
  obtain ⟨hfold, rfl⟩ := lift_ok.1 hsame
  obtain rfl := ignoringCase_ok hfold
  have hpattern : pattern options source part (folded options part (.path e)) d₁ =
      .ok (p, d') := by
    rcases hop with hop | hop | hop | hop <;> simpa [hop, hscalar] using h
  obtain ⟨rfl, b, hb, rfl⟩ := pattern_ok (expected_pattern hop hscalar) hpattern
  have hnegated : (part.operator == .notLike || part.operator == .notContaining) =
      (part.operator == .notContaining) := by
    rcases hop with hop | hop | hop | hop <;> rw [hop] <;> rfl
  rw [hbindings] at hb ⊢
  exact ⟨e, b, by rw [hnegated], hb, rfl⟩

/-- The predicate of a pattern operator names the escape character that its argument is bound with,
so the argument matches literally. -/
theorem condition_matches_literally (he : source.escape.IsPlain) (hop : IsPattern part.operator)
    (hscalar : part.property.isCollection = false)
    (h : condition options source part d = .ok (p, d')) :
    ∃ (e : PathExpression) (b : ParameterBinding), p = .like (folded options part (.path e)) (part.operator == .notContaining)
        (folded options part (.parameter (d.bindings.length + 1))) source.escape.value ∧
      d'.bindings = d.bindings ++ [b] ∧
      ∀ v, ∃ text, b.prepare (.text v) = .text text ∧
        ∀ c, source.escape.like? text c = some (asks part.operator v c) := by
  obtain ⟨e, b, rfl, hb, hbindings⟩ := condition_pattern hop hscalar h
  obtain ⟨o, hoperator, hescape, hprepare⟩ := hb.prepare_pattern hop hscalar
  refine ⟨e, b, rfl, hbindings, fun v => ⟨_, hprepare v, fun c => ?_⟩⟩
  rw [← hoperator, ← hescape]
  exact Operand.like?_pattern (hescape ▸ he) (hoperator ▸ hop) v c

end Derived

end Jpql
