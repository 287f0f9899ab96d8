/-! Searching lists of characters for fixed words. -/

namespace Jpql.Text

/-- What follows `word` at the front of a text. -/
def stripFront? : (word text : List Char) → Option (List Char)
  | [], cs => some cs
  | _ :: _, [] => none
  | w :: ws, c :: cs => if w == c then stripFront? ws cs else none

theorem append_of_stripFront? {word text rest : List Char} (h : stripFront? word text = some rest) :
    word ++ rest = text := by
  induction word generalizing text with
  | nil => simpa [stripFront?] using h.symm
  | cons w ws ih =>
    rcases text with _ | ⟨c, cs⟩
    · simp [stripFront?] at h
    · simp only [stripFront?] at h
      split at h
      next heq => simp [ih h, eq_of_beq heq]
      next => cases h

theorem length_le_of_stripFront? {word text rest : List Char}
    (h : stripFront? word text = some rest) : rest.length ≤ text.length := by
  have := congrArg List.length (append_of_stripFront? h)
  simp at this
  omega

/-- Whether `c` reads as the lower-case letter `w` without regard to case: beside the capital, the
long `s` reads as `s` and the kelvin sign as `k`. -/
def foldsTo (w c : Char) : Bool :=
  c.toLower == w || (w == 's' && c.toNat == 0x17F) || (w == 'k' && c.toNat == 0x212A)

/-- What follows `word`, written in lower case, at the front of a text read without regard to case;
with it, how the word is spelled there. -/
def stripFolded? : (word text : List Char) → Option (List Char × List Char)
  | [], cs => some ([], cs)
  | _ :: _, [] => none
  | w :: ws, c :: cs =>
    if foldsTo w c then (stripFolded? ws cs).map fun (spelled, rest) => (c :: spelled, rest)
    else none

theorem append_of_stripFolded? {word text spelled rest : List Char}
    (h : stripFolded? word text = some (spelled, rest)) :
    spelled ++ rest = text ∧ spelled.length = word.length := by
  induction word generalizing text spelled with
  | nil => simp_all [stripFolded?]
  | cons w ws ih =>
    rcases text with _ | ⟨c, cs⟩
    · simp [stripFolded?] at h
    · simp only [stripFolded?] at h
      split at h
      next =>
        obtain ⟨⟨spelled', rest'⟩, hs, heq⟩ := Option.map_eq_some_iff.1 h
        obtain ⟨rfl, rfl⟩ := Prod.mk.inj heq
        simp [ih hs]
      next => cases h

/-- What precedes `word` at the end of a text. -/
def stripEnd? (word text : List Char) : Option (List Char) :=
  (stripFront? word.reverse text.reverse).map List.reverse

theorem append_of_stripEnd? {word text front : List Char} (h : stripEnd? word text = some front) :
    front ++ word = text := by
  obtain ⟨rest, hr, rfl⟩ := Option.map_eq_some_iff.1 h
  have := congrArg List.reverse (append_of_stripFront? hr)
  simpa using this

/-- The parts of a text before and behind the first place where one of the words stands; of several
words at one place the first counts. -/
def cutFirst? (words : List (List Char)) : List Char → Option (List Char × List Char)
  | [] => (words.findSome? fun w => stripFront? w []).map ([], ·)
  | c :: cs =>
    match words.findSome? fun w => stripFront? w (c :: cs) with
    | some rest => some ([], rest)
    | none => (cutFirst? words cs).map fun (before, rest) => (c :: before, rest)

/-- The text is cut at one of the words, and nothing else of it is lost. -/
theorem append_of_cutFirst? {words : List (List Char)} {text before rest : List Char}
    (h : cutFirst? words text = some (before, rest)) :
    ∃ w ∈ words, before ++ w ++ rest = text := by
  induction text generalizing before with
  | nil =>
    obtain ⟨r, hr, heq⟩ := Option.map_eq_some_iff.1 h
    obtain ⟨rfl, rfl⟩ := Prod.mk.inj heq
    obtain ⟨w, hw, hs⟩ := List.exists_of_findSome?_eq_some hr
    exact ⟨w, hw, by simpa using append_of_stripFront? hs⟩
  | cons c cs ih =>
    simp only [cutFirst?] at h
    split at h
    next r hr =>
      obtain ⟨rfl, rfl⟩ := Prod.mk.inj (Option.some.inj h)
      obtain ⟨w, hw, hs⟩ := List.exists_of_findSome?_eq_some hr
      exact ⟨w, hw, by simpa using append_of_stripFront? hs⟩
    next =>
      obtain ⟨⟨before', rest'⟩, hb, heq⟩ := Option.map_eq_some_iff.1 h
      obtain ⟨rfl, rfl⟩ := Prod.mk.inj heq
      obtain ⟨w, hw, rfl⟩ := ih hb
      exact ⟨w, hw, by simp⟩

/-- Whether a word stands anywhere in a text. -/
def contains (word text : List Char) : Bool := (cutFirst? [word] text).isSome

end Jpql.Text
