import Jpql.Text.CaseMapping
import Mathlib

/-! The positional markers in a text. A marker is a `?` with digits behind it. The markers of a text
in two pieces are those of the pieces, unless digits at the start of the second piece belong to a
marker in the first. -/

namespace Jpql.Text

def markersOf : List Char → List Nat
  | [] => []
  | c :: cs =>
    let digits := cs.takeWhile Char.isDigit
    if c == '?' && !digits.isEmpty then Nat.ofDigitChars 10 digits 0 :: markersOf cs
    else markersOf cs

/-- The numbers of the markers `?1`, `?2` and so on in a text, from its start to its end. -/
def markersIn (s : String) : List Nat := markersOf s.toList

/-- Digits behind the text do not belong to a marker in it. -/
def Closed (cs : List Char) : Prop :=
  ∀ before ds, cs = before ++ '?' :: ds → ∃ d ∈ ds, d.isDigit = false

theorem Closed.tail {c : Char} {cs : List Char} (h : Closed (c :: cs)) : Closed cs := by
  rintro before ds rfl
  exact h (c :: before) ds rfl

theorem closed_concat {c : Char} (hc : c ≠ '?') (hd : c.isDigit = false) (cs : List Char) :
    Closed (cs ++ [c]) := by
  intro before ds h
  rcases List.eq_nil_or_concat ds with rfl | ⟨ds, d, rfl⟩
  · exact absurd (List.append_inj_right' h rfl) (by simpa using hc)
  · have heq : cs ++ [c] = (before ++ '?' :: ds) ++ [d] := by simpa using h
    obtain rfl : c = d := by simpa using List.append_inj_right' heq rfl
    exact ⟨c, by simp, hd⟩

theorem markersOf_append {cs ds : List Char}
    (h : Closed cs ∨ ds.takeWhile Char.isDigit = []) :
    markersOf (cs ++ ds) = markersOf cs ++ markersOf ds := by
  induction cs with
  | nil => rfl
  | cons c cs ih =>
    have hrest : markersOf (cs ++ ds) = markersOf cs ++ markersOf ds := ih (h.imp_left (·.tail))
    by_cases hc : c = '?'
    · subst hc
      have hdigits : (cs ++ ds).takeWhile Char.isDigit = cs.takeWhile Char.isDigit := by
        rw [List.takeWhile_append]
        split
        next hall =>
          rcases h with h | h
          · obtain ⟨d, hd, hno⟩ := h [] cs rfl
            have heq := (List.takeWhile_sublist Char.isDigit).eq_of_length hall
            rw [List.takeWhile_eq_self_iff] at heq
            simp [heq d hd] at hno
          · rw [h, (List.takeWhile_sublist Char.isDigit).eq_of_length hall, List.append_nil]
        next => rfl
      simp only [List.cons_append, markersOf, hdigits, hrest]
      split <;> rfl
    · simp [markersOf, hc, hrest]

theorem markersOf_eq_nil {cs : List Char} (h : '?' ∉ cs) : markersOf cs = [] := by
  induction cs with
  | nil => rfl
  | cons c cs ih =>
    obtain ⟨hc, hcs⟩ : c ≠ '?' ∧ '?' ∉ cs := by grind
    simp [markersOf, hc, ih hcs]

theorem markersOf_toDigits (n : Nat) : markersOf ('?' :: Nat.toDigits 10 n) = [n] := by
  have hdigit : ∀ c ∈ Nat.toDigits 10 n, c.isDigit = true :=
    fun c hc => Nat.isDigit_of_mem_toDigits (by decide) (by decide) hc
  have hall : (Nat.toDigits 10 n).takeWhile Char.isDigit = Nat.toDigits 10 n :=
    List.takeWhile_eq_self_iff.2 hdigit
  have hrest : markersOf (Nat.toDigits 10 n) = [] := by
    refine markersOf_eq_nil fun hq => ?_
    have := hdigit _ hq
    revert this
    decide
  simp [markersOf, hall, hrest, Nat.toDigits_ne_nil, Nat.ofDigitChars_toDigits]

theorem markersOf_singleton (c : Char) : markersOf [c] = [] := by
  simp [markersOf]

@[simp] theorem markersIn_empty : markersIn "" = [] := rfl

theorem markersIn_append {s t : String}
    (h : Closed s.toList ∨ t.toList.takeWhile Char.isDigit = []) :
    markersIn (s ++ t) = markersIn s ++ markersIn t := by
  rw [markersIn, String.toList_append, markersOf_append h]
  rfl

theorem markersIn_marker (n : Nat) : markersIn ("?" ++ toString n) = [n] := by
  rw [markersIn, String.toList_append, Nat.toString_eq_repr, Nat.toList_repr]
  exact markersOf_toDigits n

/-- The lower-case form of a single character holds no marker. -/
theorem markersOf_lowerOf (c : Char) : markersOf (lowerOf c) = [] := by
  unfold lowerOf mapCase
  split
  · exact markersOf_singleton _
  · split
    next codes h =>
      simp only [lowerSpecial, List.lookup] at h
      split at h <;> cases h
      decide
    next => split <;> exact markersOf_singleton _

end Jpql.Text
