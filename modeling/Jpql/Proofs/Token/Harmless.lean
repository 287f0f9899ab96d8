import Jpql.Proofs.Token.Lexing
import Jpql.Statement.Sorted

/-! What a text without blanks and punctuation is read as. Every scanner stops at the blank or the
closing parenthesis behind such a text, so the text is read as tokens of its own, whatever it holds:
words, numbers, points and characters that mean nothing. -/

namespace Jpql

/-- The character is one of those that names and paths are made of, or has no meaning at all. -/
def isPathChar (c : Char) : Bool :=
  !(Text.isBlank c || isAsciiPunctuation c && c != '.' && c != '_')

/-- A lexeme that neither opens, closes, joins nor compares anything. -/
def Lexeme.Harmless (l : Lexeme) : Prop :=
  l.kind ∈ [.identifier, .keyword, .integer, .decimal, .illegal] ∨ l = .punctuator "."

namespace Lexer

/-- The text is empty or starts with a blank or a closing parenthesis. -/
def Stops (cs : List Char) : Prop := ∀ c ∈ cs.head?, c = ' ' ∨ c = ')'

variable {cs rest : List Char} {c : Char}

theorem Stops.cases (h : Stops rest) :
    rest = [] ∨ ∃ c, (c = ' ' ∨ c = ')') ∧ ∃ cs, rest = c :: cs := by
  cases rest with
  | nil => exact .inl rfl
  | cons c cs => exact .inr ⟨c, h c rfl, cs, rfl⟩

theorem Stops.startsWith {p : Char → Bool} (h : Stops rest) (hspace : p ' ' = false)
    (hparen : p ')' = false) : Lexer.startsWith p rest = false := by
  obtain rfl | ⟨c, rfl | rfl, cs, rfl⟩ := h.cases
  · rfl
  · exact hspace
  · exact hparen

/-! ### Scanners in front of a stop -/

theorem startsWith_front {p : Char → Bool} (cs : List Char) (h : Lexer.startsWith p rest = false) :
    Lexer.startsWith p (cs ++ rest) = Lexer.startsWith p cs := by
  cases cs with
  | nil => exact h
  | cons c cs => rfl

theorem span_front {p : Char → Bool} (cs : List Char) (h : startsWith p rest = false) :
    (cs ++ rest).takeWhile p = cs.takeWhile p ∧
      (cs ++ rest).dropWhile p = cs.dropWhile p ++ rest := by
  induction cs with
  | nil => exact takeWhile_append_stop (by simp) h
  | cons c cs ih =>
    by_cases hc : p c = true
    · simp [hc, ih]
    · simp [hc]

theorem digits_front (cs : List Char) (h : Stops rest) :
    digits (cs ++ rest) = ((digits cs).1, (digits cs).2 ++ rest) := by
  obtain ⟨htake, hdrop⟩ := span_front cs (h.startsWith (p := Char.isDigit) rfl rfl)
  rw [digits, htake, hdrop, digits]

theorem fraction_of_ne {cs : List Char} (h : c ≠ '.') : fraction (c :: cs) = ([], c :: cs) := by
  unfold fraction
  split
  next heq => exact absurd (List.cons.inj heq).1 h
  next => rfl

theorem fraction_front (h : Stops rest) :
    fraction (cs ++ rest) = ((fraction cs).1, (fraction cs).2 ++ rest) := by
  match cs with
  | [] => obtain rfl | ⟨c, rfl | rfl, cs, rfl⟩ := h.cases <;> rfl
  | [c] =>
    by_cases hc : c = '.'
    · obtain rfl := hc
      obtain rfl | ⟨c, rfl | rfl, cs, rfl⟩ := h.cases <;> rfl
    · rw [List.singleton_append, fraction_of_ne hc, fraction_of_ne hc]
      rfl
  | c :: d :: cs =>
    by_cases hc : c = '.'
    · obtain rfl := hc
      change fraction ('.' :: d :: (cs ++ rest)) = _
      have hdigits := digits_front (d :: cs) h
      rw [List.cons_append] at hdigits
      simp only [fraction, hdigits]
      split
      · rfl
      · rfl
    · rw [List.cons_append, fraction_of_ne hc, fraction_of_ne hc]
      rfl

theorem exponent_of_not {cs : List Char} (h : (c == 'e' || c == 'E') = false) :
    exponent (c :: cs) = ([], c :: cs) := by
  unfold exponent
  split
  next e d rest heq =>
    obtain ⟨rfl, rfl⟩ := List.cons.inj heq
    rw [h]
    rfl
  next => rfl

theorem exponent_front (h : Stops rest) :
    exponent (cs ++ rest) = ((exponent cs).1, (exponent cs).2 ++ rest) := by
  match cs with
  | [] =>
    obtain rfl | ⟨c, rfl | rfl, cs, rfl⟩ := h.cases
    · rfl
    · exact exponent_of_not rfl
    · exact exponent_of_not rfl
  | [c] =>
    cases hc : c == 'e' || c == 'E' with
    | true =>
      obtain rfl | ⟨d, rfl | rfl, cs, rfl⟩ := h.cases
      · rfl
      · simp [exponent, hc]
      · simp [exponent, hc]
    | false =>
      rw [List.singleton_append, exponent_of_not hc, exponent_of_not hc]
      rfl
  | c :: d :: cs =>
    cases hc : c == 'e' || c == 'E' with
    | true =>
      have hdigits := digits_front (d :: cs) h
      rw [List.cons_append] at hdigits
      simp only [List.cons_append, exponent, hc, if_true, digits_front cs h, hdigits]
      split
      · rfl
      · split
        · rfl
        · rfl
    | false =>
      rw [List.cons_append, exponent_of_not hc, exponent_of_not hc]
      rfl

theorem number_front (h : Stops rest) :
    number (cs ++ rest) = ((number cs).1, (number cs).2.1, (number cs).2.2 ++ rest) := by
  obtain ⟨htake, hdrop⟩ := span_front (exponent (fraction (digits cs).2).2).2
    (h.startsWith (p := isNumberSuffix) (by decide) (by decide))
  simp only [number, digits_front cs h, fraction_front h, exponent_front h, htake, hdrop]

theorem ne_of_isPathChar {d : Char} (h : isPathChar c = true) (hd : isPathChar d = false) : c ≠ d := by
  rintro rfl
  rw [h] at hd
  cases hd

theorem quote_of_isPathChar (h : isPathChar c = true) : (c.toNat == 0x60) = false := by
  rw [beq_eq_false_iff_ne]
  intro hc
  refine ne_of_isPathChar (d := Char.ofNat 0x60) h (by decide) ?_
  rw [← hc, Char.ofNat_toNat]

theorem startsToken_of_isPathChar (h : isPathChar c = true) (cs : List Char) : StartsToken c cs := by
  refine ⟨?_, fun hc => absurd hc (ne_of_isPathChar h (by decide)),
    fun hc => absurd hc (ne_of_isPathChar h (by decide))⟩
  cases hblank : Text.isBlank c with
  | false => rfl
  | true =>
    rw [isPathChar, hblank] at h
    cases h

/-- Path characters start numbers and words, or stand for themselves. -/
theorem scan_pathChar (hc : isPathChar c = true) (cs : List Char) : scan c cs =
    if c.isDigit || (c == '.' && startsWith Char.isDigit cs) then number (c :: cs)
    else if isIdentifierStart c then
      ((Lexeme.word (String.ofList (c :: cs.takeWhile isIdentifierPart))).kind,
        c :: cs.takeWhile isIdentifierPart, cs.dropWhile isIdentifierPart)
    else if isPunctuator c then (.punctuator, [c], cs)
    else (.illegal, [c], cs) := by
  have hne (d : Char) (hd : isPathChar d = false) : c ≠ d := ne_of_isPathChar hc hd
  have hpair (d : Char) : isOperatorPair c d = false := by
    simp [isOperatorPair, hne '<' (by decide), hne '!' (by decide), hne '^' (by decide),
      hne '>' (by decide), hne '|' (by decide)]
  have hoperator : isOperator c = false := by
    simp [isOperator, hne '=' (by decide), hne '<' (by decide), hne '>' (by decide),
      hne '+' (by decide), hne '-' (by decide), hne '*' (by decide), hne '/' (by decide),
      hne '%' (by decide)]
  cases cs <;> simp [scan, hne '\'' (by decide), hne '"' (by decide), quote_of_isPathChar hc,
    hne '?' (by decide), hne ':' (by decide), hpair, hoperator, Lexeme.word]

/-- The token at a path character ends in front of the stop. -/
theorem scan_front (hc : isPathChar c = true) (cs : List Char) (h : Stops rest) :
    scan c (cs ++ rest) = ((scan c cs).1, (scan c cs).2.1, (scan c cs).2.2 ++ rest) := by
  obtain ⟨htake, hdrop⟩ := span_front cs (h.startsWith (p := isIdentifierPart) (by decide)
    (by decide))
  rw [scan_pathChar hc, scan_pathChar hc, startsWith_front cs (h.startsWith rfl rfl), htake, hdrop]
  split
  · rw [← List.cons_append]
    exact number_front h
  split
  · rfl
  split
  · rfl
  · rfl

theorem harmless_scan (hc : isPathChar c = true) (cs : List Char) :
    Lexeme.Harmless ⟨(scan c cs).1, String.ofList (scan c cs).2.1⟩ := by
  rw [scan_pathChar hc]
  split
  · refine .inl ?_
    simp only [number]
    split <;> decide
  split
  · refine .inl ?_
    simp only [Lexeme.word]
    split <;> decide
  split
  next hpunctuator =>
    have hall : ['(', ')', ',', '.', '\x7b', '\x7d', '[', ']', ';'].all fun d =>
      isPathChar d = true → d = '.' := by decide
    have hmem : c ∈ ['(', ')', ',', '.', '\x7b', '\x7d', '[', ']', ';'] := by
      simpa [isPunctuator] using hpunctuator
    obtain rfl : c = '.' := of_decide_eq_true (List.all_eq_true.1 hall c hmem) hc
    exact .inr rfl
  next => exact .inl (List.mem_of_elem_eq_true rfl)

/-- A text of path characters is read as harmless tokens, and what follows it as it would be by
itself. -/
theorem lexes_front {ls : List Lexeme} (hrest : Stops rest) (h : Lexes rest ls) :
    (cs : List Char) → (∀ c ∈ cs, isPathChar c = true) →
      ∃ body, Lexes (cs ++ rest) (body ++ ls) ∧ (∀ l ∈ body, l.Harmless) ∧
        body.flatMap (·.literal.toList) = cs
  | [], _ => ⟨[], h, by simp, rfl⟩
  | c :: cs, hcs => by
    have happend := scan_append c cs
    have hlength := length_scan c cs
    have hbehind : ∀ d ∈ (scan c cs).2.2, isPathChar d = true := by
      intro d hd
      refine hcs d ?_
      rw [← happend]
      exact List.mem_append_right _ hd
    have hc := hcs c List.mem_cons_self
    obtain ⟨body, hbody, hharmless, htext⟩ := lexes_front hrest h (scan c cs).2.2 hbehind
    refine ⟨⟨(scan c cs).1, String.ofList (scan c cs).2.1⟩ :: body, ?_, ?_, ?_⟩
    · exact .scanned (startsToken_of_isPathChar hc _) (scan_front hc cs hrest) hbody
    · exact List.forall_mem_cons.2 ⟨harmless_scan hc cs, hharmless⟩
    · rw [List.flatMap_cons, htext, String.toList_ofList, happend]
termination_by cs => cs.length
decreasing_by exact Nat.lt_succ_of_le hlength

end Lexer

end Jpql
