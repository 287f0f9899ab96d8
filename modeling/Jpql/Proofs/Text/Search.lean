import Jpql.Text.Search
import Mathlib

/-! What a search for fixed words finds, said of the text: a word is stripped from a text that has it
at that end, and a text is cut at the first place where one of the words stands. -/

namespace Jpql.Text

variable {word text front rest : List Char} {words : List (List Char)}

theorem stripFront?_append (word rest : List Char) :
    stripFront? word (word ++ rest) = some rest := by
  induction word with
  | nil => simp [stripFront?]
  | cons w word ih => simpa [stripFront?] using ih

theorem stripFront?_eq_some : stripFront? word text = some rest ↔ word ++ rest = text := by
  constructor
  · exact append_of_stripFront?
  · rintro rfl
    exact stripFront?_append word rest

theorem stripFront?_eq_none : stripFront? word text = none ↔ ¬ word <+: text := by
  rw [Option.eq_none_iff_forall_ne_some, List.IsPrefix, not_exists]
  exact forall_congr' fun rest => not_congr stripFront?_eq_some

theorem stripEnd?_eq_some : stripEnd? word text = some front ↔ front ++ word = text := by
  constructor
  · exact append_of_stripEnd?
  · rintro rfl
    rw [stripEnd?, List.reverse_append, stripFront?_append, Option.map_some, List.reverse_reverse]

theorem stripEnd?_eq_none : stripEnd? word text = none ↔ ¬ word <:+ text := by
  rw [Option.eq_none_iff_forall_ne_some, List.IsSuffix, not_exists]
  exact forall_congr' fun front => not_congr stripEnd?_eq_some

theorem stripEnd?_isSome : (stripEnd? word text).isSome = true ↔ word <:+ text := by
  rw [Option.isSome_iff_exists, List.IsSuffix]
  exact exists_congr fun front => stripEnd?_eq_some

theorem findSome?_stripFront?_eq_none :
    (words.findSome? fun w => stripFront? w text) = none ↔ ∀ w ∈ words, ¬ w <+: text := by
  rw [List.findSome?_eq_none_iff]
  exact forall₂_congr fun w _ => stripFront?_eq_none

theorem cutFirst?_cons {c : Char} (h : ∀ w ∈ words, ¬ w <+: c :: text) :
    cutFirst? words (c :: text) =
      (cutFirst? words text).map fun (before, rest) => (c :: before, rest) := by
  rw [cutFirst?, findSome?_stripFront?_eq_none.2 h]

/-- No cut is made in front of the place where a word stands first. -/
theorem cutFirst?_append (h : ∀ s, s <:+ front → s ≠ [] → ∀ w ∈ words, ¬ w <+: s ++ rest) :
    cutFirst? words (front ++ rest) =
      (cutFirst? words rest).map fun (before, behind) => (front ++ before, behind) := by
  induction front with
  | nil => simp
  | cons c front ih =>
    have hhere : ∀ w ∈ words, ¬ w <+: c :: (front ++ rest) :=
      h (c :: front) List.suffix_rfl (by simp)
    have hbehind := ih fun s hs => h s (hs.trans (List.suffix_cons c front))
    rw [List.cons_append, cutFirst?_cons hhere, hbehind, Option.map_map]
    rfl

theorem cutFirst?_eq_none : cutFirst? words text = none ↔ ∀ w ∈ words, ¬ w <:+: text := by
  constructor
  · induction text with
    | nil =>
      intro h w hw hin
      obtain rfl := List.infix_nil.1 hin
      exact findSome?_stripFront?_eq_none.1 (Option.map_eq_none_iff.1 h) [] hw List.prefix_rfl
    | cons c text ih =>
      intro h w hw hin
      simp only [cutFirst?] at h
      split at h
      next => cases h
      next hnone =>
        rcases List.infix_cons_iff.1 hin with hfront | hbehind
        · exact findSome?_stripFront?_eq_none.1 hnone w hw hfront
        · exact ih (Option.map_eq_none_iff.1 h) w hw hbehind
  · intro h
    rw [Option.eq_none_iff_forall_ne_some]
    rintro ⟨before, rest⟩ hcut
    obtain ⟨w, hw, htext⟩ := append_of_cutFirst? hcut
    exact h w hw ⟨before, rest, htext⟩

theorem contains_eq_true : contains word text = true ↔ word <:+: text := by
  rw [contains, ← Option.ne_none_iff_isSome, ne_eq, cutFirst?_eq_none]
  simp

theorem contains_eq_false : contains word text = false ↔ ¬ word <:+: text := by
  rw [← Bool.not_eq_true, contains_eq_true]

end Jpql.Text
