import Jpql.Proofs.Declared.Pieces
import Jpql.Proofs.Declared.Run
import Mathlib

/-! What becomes of the wildcards beside markers. Extraction changes nothing in a text but its
markers, each of which gives way to its parameter together with the wildcards at its sides. Behind
`like` these wildcards are put around the bound value instead. Behind anything else they are lost. -/

namespace Jpql

/-! ### Keywords -/

namespace Text

theorem forall₂_of_stripFolded? {word text spelled rest : List Char}
    (h : stripFolded? word text = some (spelled, rest)) :
    List.Forall₂ (fun w c => foldsTo w c = true) word spelled := by
  induction word generalizing text spelled with
  | nil =>
    obtain ⟨rfl, -⟩ := Prod.mk.inj (Option.some.inj h)
    exact .nil
  | cons w ws ih =>
    cases text with
    | nil => cases h
    | cons c cs =>
      simp only [stripFolded?] at h
      split at h
      next hfolds =>
        obtain ⟨⟨spelled', rest'⟩, hs, heq⟩ := Option.map_eq_some_iff.1 h
        obtain ⟨rfl, rfl⟩ := Prod.mk.inj heq
        exact .cons hfolds (ih hs)
      next => cases h

/-- Blanks have no other case. -/
theorem toLower_of_isBlank {c : Char} (h : isBlank c = true) : c.toLower = c := by
  have hall : ∀ r ∈ blankRanges, ∀ n ∈ List.range' r.1 (r.2 + 1 - r.1),
      (Char.ofNat n).toLower = Char.ofNat n := by decide
  obtain ⟨r, hr, hcovers⟩ := List.any_eq_true.1 h
  obtain ⟨hlow, hhigh⟩ : r.1 ≤ c.toNat ∧ c.toNat ≤ r.2 := by
    simpa [CodeRange.covers] using hcovers
  have hc := hall r hr c.toNat (List.mem_range'_1.2 ⟨hlow, by omega⟩)
  rwa [Char.ofNat_toNat] at hc

theorem isBlank_of_toLower {c w : Char} (h : c.toLower = w) (hw : isBlank w = false) :
    isBlank c = false := by
  rw [Bool.eq_false_iff]
  intro hblank
  rw [← h, toLower_of_isBlank hblank, hblank] at hw
  cases hw

end Text

namespace Markers

variable {before : Option Char} {cs rest : List Char}

end Markers

/-! ### Patterns -/

namespace LikeType

/-- The wildcards in front of a value and behind it. -/
def sides : LikeType → List Char × List Char
  | .like => ([], [])
  | .startingWith => ([], ['%'])
  | .endingWith => (['%'], [])
  | .containing => (['%'], ['%'])

theorem prepare_text (t : LikeType) (s : String) :
    t.prepare (.text s) = .text (String.ofList t.sides.1 ++ s ++ String.ofList t.sides.2) := by
  cases t <;> simp [prepare, sides, Value.isNull, Value.render]

end LikeType

namespace Markers

/-- The type of a pattern has the wildcards that stand beside the marker. -/
theorem Occurrence.Decorated.sides {o : Occurrence} {left spelled right : List Char}
    (h : o.Decorated left spelled right) :
    (LikeType.ofExpression o.decorated).sides = (left, right) := by
  have hpos := h.marker.length_pos
  have hbefore : ((left ++ spelled ++ right).head? == some '%') = decide (left = ['%']) := by
    obtain ⟨cs, rfl | rfl⟩ := h.marker.head <;> rcases h.before with rfl | rfl <;> rfl
  have hbehind : (decide (1 < (left ++ spelled ++ right).length) &&
      (left ++ spelled ++ right).getLast? == some '%') = decide (right = ['%']) := by
    rcases h.behind with rfl | rfl
    · have hlast : (left ++ spelled ++ []).getLast? ≠ some '%' := by
        rw [List.append_nil, List.getLast?_append_of_ne_nil _ (List.length_pos_iff.1 hpos)]
        exact fun heq => h.marker.percent_notMem (List.mem_of_getLast? heq)
      rw [beq_eq_false_iff_ne.2 hlast, Bool.and_false]
      rfl
    · have hlength : 1 < (left ++ spelled ++ ['%']).length := by
        simp only [List.length_append, List.length_singleton]
        omega
      rw [decide_eq_true hlength, List.getLast?_concat]
      rfl
  simp only [LikeType.ofExpression, h.decorated, hbefore, hbehind]
  rcases h.before with rfl | rfl <;> rcases h.behind with rfl | rfl <;> rfl

end Markers

namespace ExtractedQuery

open Markers

/-! ### Wildcards -/

variable {o : Occurrence}

end ExtractedQuery

end Jpql
