import Jpql.Proofs.Token.Names
import Mathlib.Data.List.TakeWhile

/-! Tokens that are read again. The literal of a token, with a delimiter behind it, is read as that
token: each scanner stops behind what it took. Only a token whose quote is not closed goes on with
whatever follows. -/

namespace Jpql

/-- A text with the literal in front of a delimiter is read as this lexeme. -/
structure Lexeme.Whole (l : Lexeme) : Prop where
  spelled : Lexer.Spelled l.literal.toList [l]
  ne_empty : l.literal ≠ ""
  unspaced : l.literal.toList.getLast? ≠ some ' '
  named : l.kind = .identifier ∨ l.kind = .keyword → Lexer.IsName l.literal ∧ l = .word l.literal

namespace Lexer

variable {c : Char} {cs rest : List Char}

/-! ### Numbers -/

theorem startsWith_append {p : Char → Bool} (hcs : startsWith p cs = false)
    (hrest : startsWith p rest = false) : startsWith p (cs ++ rest) = false := by
  cases cs with
  | nil => exact hrest
  | cons c cs => exact hcs

theorem startsWith_of_forall {p : Char → Bool} (h : ∀ c ∈ cs, p c = false) :
    startsWith p cs = false := by
  cases cs with
  | nil => rfl
  | cons c cs => exact h c (List.mem_cons_self ..)

theorem digits_again (cs : List Char) (hrest : startsWith Char.isDigit rest = false) :
    digits ((digits cs).1 ++ rest) = ((digits cs).1, rest) := by
  obtain ⟨htake, hdrop⟩ := @takeWhile_append_stop Char.isDigit (digits cs).1 rest
    (fun _ => List.mem_takeWhile_imp) hrest
  rw [digits, htake, hdrop]

theorem fraction_cases (cs : List Char) : (fraction cs).1 = [] ∨
    ∃ d ds, d.isDigit = true ∧ (fraction cs).1 = '.' :: (digits (d :: ds)).1 := by
  unfold fraction
  split
  next d ds =>
    split
    next hd => exact .inr ⟨d, ds, hd, rfl⟩
    next => exact .inl rfl
  next => exact .inl rfl

theorem fraction_again (cs : List Char) (hdigit : startsWith Char.isDigit rest = false)
    (hpoint : startsWith (· == '.') rest = false) :
    fraction ((fraction cs).1 ++ rest) = ((fraction cs).1, rest) := by
  obtain h | ⟨d, ds, hd, h⟩ := fraction_cases cs
  · rw [h, List.nil_append]
    unfold fraction
    split
    next => cases hpoint
    next => rfl
  · have hdigits : (digits (d :: ds)).1 = d :: (digits ds).1 := by simp [digits, hd]
    have hagain := digits_again (d :: ds) hdigit
    rw [hdigits, List.cons_append] at hagain
    rw [h, hdigits, List.cons_append, List.cons_append, fraction, if_pos hd, hagain]

/-- The letter of an exponent. -/
def isExponentLetter (c : Char) : Bool := c == 'e' || c == 'E'

theorem exponent_cases (cs : List Char) : (exponent cs).1 = [] ∨
    ∃ e, isExponentLetter e = true ∧
      ((∃ c ds, (c == '+' || c == '-') = true ∧ (exponent cs).1 = e :: c :: (digits ds).1) ∨
        ∃ c ds, (c == '+' || c == '-') = false ∧ c.isDigit = true ∧
          (exponent cs).1 = e :: (digits (c :: ds)).1) := by
  unfold exponent
  split
  next e c ds =>
    split
    next he =>
      split
      next hc => exact .inr ⟨e, he, .inl ⟨c, ds, hc, rfl⟩⟩
      next hc =>
        split
        next hd => exact .inr ⟨e, he, .inr ⟨c, ds, eq_false_of_ne_true hc, hd, rfl⟩⟩
        next => exact .inl rfl
    next => exact .inl rfl
  next => exact .inl rfl

theorem exponent_again (cs : List Char) (hdigit : startsWith Char.isDigit rest = false)
    (hletter : startsWith isExponentLetter rest = false) :
    exponent ((exponent cs).1 ++ rest) = ((exponent cs).1, rest) := by
  obtain h | ⟨e, he, ⟨c, ds, hc, h⟩ | ⟨c, ds, hc, hd, h⟩⟩ := exponent_cases cs
  · rw [h, List.nil_append]
    unfold exponent
    split
    next e c rest =>
      rw [if_neg (by simpa [startsWith, isExponentLetter] using hletter)]
    next => rfl
  · have he' : (e == 'e' || e == 'E') = true := he
    rw [h, List.cons_append, List.cons_append, exponent, if_pos he', if_pos hc, digits_again ds hdigit]
  · have he' : (e == 'e' || e == 'E') = true := he
    have hdigits : (digits (c :: ds)).1 = c :: (digits ds).1 := by simp [digits, hd]
    have hagain := digits_again (c :: ds) hdigit
    rw [hdigits, List.cons_append] at hagain
    rw [h, hdigits, List.cons_append, List.cons_append, exponent, if_pos he',
      if_neg (ne_true_of_eq_false hc), if_pos hd, hagain]

theorem startsWith_fraction (cs : List Char) : startsWith Char.isDigit (fraction cs).1 = false := by
  obtain h | ⟨d, ds, -, h⟩ := fraction_cases cs
  · rw [h]
    rfl
  · rw [h]
    rfl

theorem startsWith_exponent {p : Char → Bool} (hp : ∀ c, isExponentLetter c = true → p c = false)
    (cs : List Char) : startsWith p (exponent cs).1 = false := by
  obtain h | ⟨e, he, ⟨c, ds, -, h⟩ | ⟨c, ds, -, -, h⟩⟩ := exponent_cases cs
  · rw [h]
    rfl
  · rw [h]
    exact hp e he
  · rw [h]
    exact hp e he

theorem startsWith_suffix {p : Char → Bool} (hp : ∀ c, isNumberSuffix c = true → p c = false)
    (cs : List Char) : startsWith p (cs.takeWhile isNumberSuffix) = false :=
  startsWith_of_forall fun c hc => hp c (List.mem_takeWhile_imp hc)

/-- The parts of a number, each with what stands behind it. -/
theorem number_of_parts {whole frac exp suffix rest : List Char}
    (hdigits : digits (whole ++ (frac ++ (exp ++ (suffix ++ rest)))) =
      (whole, frac ++ (exp ++ (suffix ++ rest))))
    (hfraction : fraction (frac ++ (exp ++ (suffix ++ rest))) = (frac, exp ++ (suffix ++ rest)))
    (hexponent : exponent (exp ++ (suffix ++ rest)) = (exp, suffix ++ rest))
    (hsuffix : (suffix ++ rest).takeWhile isNumberSuffix = suffix ∧
      (suffix ++ rest).dropWhile isNumberSuffix = rest) :
    number (whole ++ frac ++ exp ++ suffix ++ rest) =
      (if frac.isEmpty && exp.isEmpty && suffix.all (fun c => c == 'l' || c == 'L') then .integer
        else .decimal, whole ++ frac ++ exp ++ suffix, rest) := by
  simp only [List.append_assoc, number, hdigits, hfraction, hexponent, hsuffix]

theorem number_again (cs : List Char) (hrest : Delimits rest) :
    number ((number cs).2.1 ++ rest) = ((number cs).1, (number cs).2.1, rest) := by
  let frac := fraction (digits cs).2
  let exp := exponent frac.2
  let suffix := exp.2.takeWhile isNumberSuffix
  have hsuffixes (p : Char → Bool)
      (hp : ['l', 'L', 'd', 'D', 'f', 'F', 'b', 'B', 'i', 'I'].all fun c => p c == false) :
      ∀ c, isNumberSuffix c = true → p c = false := fun c hc =>
    eq_of_beq (List.all_eq_true.1 hp c (by simpa [isNumberSuffix] using hc))
  have hletters (p : Char → Bool) (hp : p 'e' = false ∧ p 'E' = false) :
      ∀ c, isExponentLetter c = true → p c = false := by
    intro c hc
    rcases Bool.or_eq_true_iff.1 hc with hc | hc
    · rw [eq_of_beq hc, hp.1]
    · rw [eq_of_beq hc, hp.2]
  -- what may stand behind each part, from the last to the first
  have hlast (p : Char → Bool) (hp : ['l', 'L', 'd', 'D', 'f', 'F', 'b', 'B', 'i', 'I'].all
        fun c => p c == false) (hdelimiters : delimiters.any p = false) :
      startsWith p (suffix ++ rest) = false :=
    startsWith_append (startsWith_suffix (hsuffixes p hp) _) (hrest.startsWith hdelimiters)
  have hbehindExponent := hlast Char.isDigit (by decide) (by decide)
  have hbehindFraction : startsWith Char.isDigit (exp.1 ++ (suffix ++ rest)) = false :=
    startsWith_append (startsWith_exponent (hletters _ (by decide)) _) hbehindExponent
  have hnoPoint : startsWith (· == '.') (exp.1 ++ (suffix ++ rest)) = false :=
    startsWith_append (startsWith_exponent (hletters _ (by decide)) _)
      (hlast (· == '.') (by decide) (by decide))
  have hbehindWhole : startsWith Char.isDigit (frac.1 ++ (exp.1 ++ (suffix ++ rest))) = false :=
    startsWith_append (startsWith_fraction _) hbehindFraction
  exact number_of_parts (digits_again cs hbehindWhole) (fraction_again _ hbehindFraction hnoPoint)
    (exponent_again _ hbehindExponent (hlast isExponentLetter (by decide) (by decide)))
    (takeWhile_append_stop (fun _ => List.mem_takeWhile_imp) (hrest.startsWith (by decide)))

/-- The characters that numbers are made of. -/
def isNumberPart (c : Char) : Bool :=
  c.isDigit || c == '.' || isExponentLetter c || c == '+' || c == '-' || isNumberSuffix c

theorem isNumberPart_of_mem (cs : List Char) : ∀ c ∈ (number cs).2.1, isNumberPart c = true := by
  have hdigits (cs : List Char) : ∀ c ∈ (digits cs).1, isNumberPart c = true := fun c hc => by
    simp [isNumberPart, show c.isDigit = true from List.mem_takeWhile_imp hc]
  have hfraction (cs : List Char) : ∀ c ∈ (fraction cs).1, isNumberPart c = true := by
    obtain h | ⟨d, ds, -, h⟩ := fraction_cases cs
    · rw [h]
      exact List.forall_mem_nil _
    · rw [h]
      exact List.forall_mem_cons.2 ⟨rfl, hdigits _⟩
  have hexponent (cs : List Char) : ∀ c ∈ (exponent cs).1, isNumberPart c = true := by
    have hletter {e : Char} (he : isExponentLetter e = true) : isNumberPart e = true := by
      simp [isNumberPart, he]
    obtain h | ⟨e, he, ⟨c, ds, hc, h⟩ | ⟨c, ds, -, -, h⟩⟩ := exponent_cases cs
    · rw [h]
      exact List.forall_mem_nil _
    · have hsign : isNumberPart c = true := by
        rcases Bool.or_eq_true_iff.1 hc with hc | hc <;> simp [isNumberPart, hc]
      rw [h]
      exact List.forall_mem_cons.2 ⟨hletter he, List.forall_mem_cons.2 ⟨hsign, hdigits _⟩⟩
    · rw [h]
      exact List.forall_mem_cons.2 ⟨hletter he, hdigits _⟩
  have hsuffix (cs : List Char) : ∀ c ∈ cs.takeWhile isNumberSuffix, isNumberPart c = true :=
    fun c hc => by simp [isNumberPart, show isNumberSuffix c = true from List.mem_takeWhile_imp hc]
  simp only [number, List.forall_mem_append]
  exact ⟨⟨⟨hdigits _, hfraction _⟩, hexponent _⟩, hsuffix _⟩

/-! ### Tokens -/

/-- Whether a text behind an opening quote ends with the quote that closes it. -/
def closes (quote : Char) : List Char → Bool
  | [] => false
  | [c] => c == quote
  | c :: d :: cs => if c == quote then d == quote && closes quote cs else closes quote (d :: cs)

theorem closes_of_eq_true {quote : Char} (h : closes quote cs = true) : Closes quote cs := by
  fun_induction closes quote cs with
  | case1 => cases h
  | case2 c =>
    obtain rfl := eq_of_beq h
    exact .close
  | case3 c d cs hc ih =>
    obtain ⟨hd, hcs⟩ := Bool.and_eq_true_iff.1 h
    obtain rfl := eq_of_beq hc
    obtain rfl := eq_of_beq hd
    exact .doubled (ih hcs)
  | case4 c d cs hc ih => exact .other (by simpa using hc) (ih h)

/-- Whether a token, if it starts with a quote, ends with the quote that closes it. -/
def isClosed : List Char → Bool
  | c :: cs => !(c == '\'' || isNameQuote c) || closes c cs
  | [] => true

theorem getLast?_of_notMem {d : Char} (h : d ∉ cs) : cs.getLast? ≠ some d :=
  fun hlast => h (List.mem_of_getLast? hlast)

theorem whole_of_scan {kind : TokenKind} {tail : List Char} (hblank : Text.isBlank c = false)
    (hsign : c = '-' ∨ c = '/' → tail = [])
    (hscan : ∀ rest, Delimits rest → scan c (tail ++ rest) = (kind, c :: tail, rest))
    (hlast : (c :: tail).getLast? ≠ some ' ')
    (hnamed : kind = .identifier ∨ kind = .keyword → IsName (String.ofList (c :: tail)) ∧
      (Lexeme.word (String.ofList (c :: tail))).kind = kind) :
    Lexeme.Whole ⟨kind, String.ofList (c :: tail)⟩ where
  spelled rest ls hrest hls := by
    rw [String.toList_ofList]
    refine .scanned ⟨hblank, fun hc => ?_, fun hc => ?_⟩ (hscan rest hrest) hls
    · rw [hsign (.inl hc)]
      exact hrest.startsWith (by decide)
    · rw [hsign (.inr hc)]
      exact hrest.startsWith (by decide)
  ne_empty := by simp [String.ext_iff]
  unspaced := by rwa [String.toList_ofList]
  named hkind := by
    obtain ⟨hname, hword⟩ := hnamed hkind
    exact ⟨hname, by rw [Lexeme.word, ← hword]; rfl⟩

/-- What stands in quotes is read up to the quote that closes it. -/
theorem whole_quoted {kind : TokenKind} (hc : c = '\'' ∨ isNameQuote c = true)
    (hscan : ∀ cs, scan c cs = (kind, c :: (quotedBody c cs).1, (quotedBody c cs).2))
    (hkind : kind = .string ∨ kind = .identifier ∧ isNameQuote c = true) (cs : List Char)
    (hclosed : isClosed (c :: (quotedBody c cs).1) = true) :
    Lexeme.Whole ⟨kind, String.ofList (c :: (quotedBody c cs).1)⟩ := by
  have hquote : c = '\'' ∨ c = '"' ∨ c = Char.ofNat 0x60 := hc.imp_right eq_of_isNameQuote
  have hcloses : Closes c (quotedBody c cs).1 := by
    refine closes_of_eq_true ?_
    have hstarts : (c == '\'' || isNameQuote c) = true := by simpa using hc
    rwa [isClosed, hstarts, Bool.not_true, Bool.false_or] at hclosed
  refine whole_of_scan ?_ ?_ (fun rest hrest => ?_) ?_ ?_
  · rcases hquote with rfl | rfl | rfl <;> decide
  · rcases hquote with rfl | rfl | rfl <;> simp
  · have hstop : startsWith (· == c) rest = false := by
      rcases hquote with rfl | rfl | rfl <;> exact hrest.startsWith (by decide)
    rw [hscan, quotedBody_closes hcloses hstop]
  · rw [List.getLast?_cons, hcloses.getLast?]
    rcases hquote with rfl | rfl | rfl <;> simp
  · intro hnamed
    obtain rfl | ⟨rfl, hquote⟩ := hkind
    · simp at hnamed
    have hname : (String.ofList (c :: (quotedBody c cs).1)).toList = c :: (quotedBody c cs).1 :=
      String.toList_ofList
    refine ⟨.quoted (by simpa [isNameQuote] using hquote) hname hcloses, ?_⟩
    rw [Lexeme.word, isReserved_quoted hquote hname]
    rfl

theorem whole_parameter {tail : List Char} (hc : c = '?' ∨ c = ':') {p : Char → Bool}
    (hp : p ' ' = false) (htail : ∀ d ∈ tail, p d = true)
    (hscan : ∀ rest, Delimits rest → scan c (tail ++ rest) = (.parameter, c :: tail, rest)) :
    Lexeme.Whole ⟨.parameter, String.ofList (c :: tail)⟩ := by
  refine whole_of_scan ?_ ?_ hscan (getLast?_of_notMem ?_) (by simp)
  · rcases hc with rfl | rfl <;> decide
  · rcases hc with rfl | rfl <;> simp
  · rw [List.mem_cons, not_or]
    refine ⟨?_, fun hmem => ?_⟩
    · rcases hc with rfl | rfl <;> decide
    · have hspace := htail _ hmem
      rw [hp] at hspace
      cases hspace

theorem scan_number (hc : (c.isDigit || (c == '.' && startsWith Char.isDigit cs)) = true) :
    scan c cs = number (c :: cs) := by
  have hdigits : ∀ n ∈ List.range' 48 10, Char.ofNat n ∉ ['\'', '"', Char.ofNat 0x60, '?', ':'] := by
    decide
  have hother : c ∉ ['\'', '"', Char.ofNat 0x60, '?', ':'] := by
    rcases Bool.or_eq_true_iff.1 hc with hdigit | hpoint
    · exact forall_digit (· ∉ ['\'', '"', Char.ofNat 0x60, '?', ':']) hdigits hdigit
    · obtain rfl := eq_of_beq (Bool.and_eq_true_iff.1 hpoint).1
      decide
  simp only [List.mem_cons, List.not_mem_nil, or_false, not_or] at hother
  obtain ⟨hquote, hdouble, hback, hmark, hcolon⟩ := hother
  have hback : c.toNat ≠ 0x60 := fun h => hback (by rw [← h, Char.ofNat_toNat])
  simp [scan, hquote, hdouble, hback, hmark, hcolon, hc]

theorem whole_number (hc : (c.isDigit || (c == '.' && startsWith Char.isDigit cs)) = true) :
    Lexeme.Whole ⟨(number (c :: cs)).1, String.ofList (number (c :: cs)).2.1⟩ := by
  obtain ⟨d, tail, hliteral⟩ := List.exists_cons_of_ne_nil (number_ne_nil hc)
  have happend := number_append (c :: cs)
  rw [hliteral] at happend
  obtain ⟨rfl, hcs⟩ := List.cons.inj happend
  have hparts := isNumberPart_of_mem (d :: cs)
  rw [hliteral] at hparts
  have hstarts (rest : List Char) :
      (d.isDigit || (d == '.' && startsWith Char.isDigit (tail ++ rest))) = true := by
    rcases Bool.or_eq_true_iff.1 hc with hdigit | hpoint
    · rw [hdigit, Bool.true_or]
    · obtain ⟨hd, hdigit⟩ := Bool.and_eq_true_iff.1 hpoint
      obtain rfl := eq_of_beq hd
      obtain ⟨e, es, rfl⟩ : ∃ e es, cs = e :: es := by
        cases cs with
        | nil => cases hdigit
        | cons e es => exact ⟨e, es, rfl⟩
      have he : e.isDigit = true := hdigit
      -- the fraction starts with the digit
      have htail : ∃ es', tail = e :: es' := by
        simp only [number, digits, fraction, Char.reduceIsDigit, Bool.false_eq_true,
          not_false_eq_true, List.takeWhile_cons_of_neg, List.dropWhile_cons_of_neg, he, if_true,
          List.takeWhile_cons_of_pos, List.nil_append, List.cons_append, List.cons.injEq,
          true_and] at hliteral
        exact ⟨_, hliteral.symm⟩
      obtain ⟨es', rfl⟩ := htail
      simpa [startsWith] using he
  have hfirst : Text.isBlank d = false ∧ d ≠ '-' ∧ d ≠ '/' := by
    rcases Bool.or_eq_true_iff.1 hc with hdigit | hpoint
    · exact forall_digit (fun d => Text.isBlank d = false ∧ d ≠ '-' ∧ d ≠ '/') (by decide) hdigit
    · obtain rfl := eq_of_beq (Bool.and_eq_true_iff.1 hpoint).1
      decide
  rw [hliteral]
  refine whole_of_scan ?_ (fun hsign => ?_) (fun rest hrest => ?_)
    (getLast?_of_notMem fun hmem => absurd (hparts _ hmem) (by decide)) fun hnamed => ?_
  · exact hfirst.1
  · exact absurd hsign (by simp [hfirst.2])
  · rw [scan_number (hstarts rest), ← List.cons_append, ← hliteral, number_again _ hrest, hliteral]
  · have hkind : (number (d :: cs)).1 = .integer ∨ (number (d :: cs)).1 = .decimal := by
      simp only [number]
      split
      · exact .inl rfl
      · exact .inr rfl
    rcases hkind with hkind | hkind <;> simp [hkind] at hnamed

theorem whole_word (hc : isIdentifierStart c = true) {tail : List Char}
    (htail : ∀ d ∈ tail, isIdentifierPart d = true) :
    Lexeme.Whole (.word (String.ofList (c :: tail))) := by
  have hspace : isIdentifierPart ' ' = false := by decide
  have hword : isWord (String.ofList (c :: tail)) = true := by
    rw [isWord, String.toList_ofList]
    exact Bool.and_eq_true_iff.2 ⟨hc, List.all_eq_true.2 htail⟩
  refine whole_of_scan (isBlank_of_isIdentifierPart (isIdentifierPart_of_start hc)) (fun hsign => ?_)
    (fun rest hrest => scan_word hc htail (hrest.startsWith (by decide)))
    (getLast?_of_notMem fun hmem => ?_) fun _ => ⟨.word hword, rfl⟩
  · have hdash := ne_of_isIdentifierStart hc (d := '-') (by decide)
    have hslash := ne_of_isIdentifierStart hc (d := '/') (by decide)
    exact absurd hsign (by simp [hdash, hslash])
  · have hall : ∀ d ∈ c :: tail, isIdentifierPart d = true :=
      List.forall_mem_cons.2 ⟨isIdentifierPart_of_start hc, htail⟩
    have hpart := hall _ hmem
    rw [hspace] at hpart
    cases hpart

theorem whole_single (hblank : Text.isBlank c = false) {kind : TokenKind}
    (hscan : ∀ rest, Delimits rest → scan c rest = (kind, [c], rest))
    (hkind : kind ≠ .identifier ∧ kind ≠ .keyword) : Lexeme.Whole ⟨kind, String.ofList [c]⟩ := by
  refine whole_of_scan hblank (fun _ => rfl) hscan (fun hlast => ?_) fun h => ?_
  · obtain rfl : c = ' ' := by simpa using hlast
    exact absurd hblank (by decide)
  · exact absurd h (by simp [hkind])

/-- In front of a delimiter other characters stand for themselves. -/
theorem scan_delimited (hquote : ¬ (c == '\'') = true) (hname : ¬ isNameQuote c = true)
    (hmark : ¬ (c == '?') = true) (hdigit : c.isDigit = false) (hstart : ¬ isIdentifierStart c = true)
    (hrest : Delimits rest) : scan c rest = (if isPunctuator c then .punctuator
      else if isOperator c then .operator else .illegal, [c], rest) := by
  have hpairs : ∀ d ∈ delimiters, isOperatorPair c d = false := by
    simp [delimiters, isOperatorPair]
  have hname : ¬ (c == '"' || c.toNat == 0x60) = true := hname
  have hcolon : (c == ':' && startsWith isIdentifierStart rest) = false := by
    rw [hrest.startsWith (by decide), Bool.and_false]
  have hpoint : (c.isDigit || (c == '.' && startsWith Char.isDigit rest)) = false := by
    rw [hdigit, hrest.startsWith (by decide), Bool.and_false, Bool.false_or]
  unfold scan
  rw [if_neg hquote, if_neg hname, if_neg hmark, hcolon, if_neg Bool.false_ne_true, hpoint,
    if_neg Bool.false_ne_true, if_neg hstart]
  split
  · rfl
  · cases rest with
    | nil => rfl
    | cons d rest => simp [hpairs d (hrest d rfl)]

/-- Whatever was taken as a token is read as one again, up to the delimiter behind it. -/
theorem whole_scan (hblank : Text.isBlank c = false) (cs : List Char)
    (hclosed : isClosed (scan c cs).2.1 = true) :
    Lexeme.Whole ⟨(scan c cs).1, String.ofList (scan c cs).2.1⟩ := by
  revert hclosed
  unfold scan
  split
  next hquote =>
    obtain rfl := eq_of_beq hquote
    exact whole_quoted (.inl rfl) (fun _ => rfl) (.inl rfl) cs
  next hquote =>
  split
  next hname => exact whole_quoted (.inr hname) (scan_name hname) (.inr ⟨rfl, hname⟩) cs
  next hname =>
  split
  next hmark =>
    obtain rfl := eq_of_beq hmark
    refine fun _ => whole_parameter (.inl rfl) (p := Char.isDigit) rfl
      (fun _ => List.mem_takeWhile_imp) fun rest hrest => ?_
    have hscan (cs : List Char) : scan '?' cs = (.parameter, '?' :: (digits cs).1, (digits cs).2) := rfl
    have hagain := digits_again cs (hrest.startsWith (p := Char.isDigit) (by decide))
    exact (hscan _).trans (by rw [hagain])
  next hmark =>
  split
  next hcolon =>
    obtain ⟨hc, hstart⟩ := Bool.and_eq_true_iff.1 hcolon
    obtain rfl := eq_of_beq hc
    refine fun _ => whole_parameter (.inr rfl) (p := isIdentifierPart) (by decide)
      (fun _ => List.mem_takeWhile_imp) fun rest hrest => ?_
    obtain ⟨htake, hdrop⟩ := @takeWhile_append_stop isIdentifierPart
      (cs.takeWhile isIdentifierPart) rest (fun _ => List.mem_takeWhile_imp)
      (hrest.startsWith (by decide))
    have hstart' : startsWith isIdentifierStart (cs.takeWhile isIdentifierPart ++ rest) = true := by
      cases cs with
      | nil => cases hstart
      | cons d cs =>
        have hd : isIdentifierStart d = true := hstart
        rwa [List.takeWhile_cons_of_pos (isIdentifierPart_of_start hd)]
    simp [scan, hstart', htake, hdrop]
  next hcolon =>
  split
  next hnumber => exact fun _ => whole_number hnumber
  next hnumber =>
  split
  next hstart => exact fun _ => whole_word hstart fun _ => List.mem_takeWhile_imp
  next hstart =>
  have hdigit : c.isDigit = false := by
    cases hdigit : c.isDigit with
    | false => rfl
    | true => simp [hdigit] at hnumber
  have hsingle {kind : TokenKind} (hkind : (if isPunctuator c then .punctuator
      else if isOperator c then .operator else .illegal) = kind) :
      Lexeme.Whole ⟨kind, String.ofList [c]⟩ := by
    refine whole_single hblank (fun rest hrest => ?_) ?_
    · rw [scan_delimited hquote hname hmark hdigit hstart hrest, hkind]
    · rw [← hkind]
      split
      · simp
      · split <;> simp
  split
  next hpunctuator => exact fun _ => hsingle (if_pos hpunctuator)
  next hpunctuator =>
  cases cs with
  | nil => exact fun _ => hsingle (if_neg hpunctuator)
  | cons d cs =>
    dsimp only
    split
    next hpair =>
      have hpairs : ∀ p ∈ [('<', '>'), ('!', '='), ('^', '='), ('<', '='), ('>', '='), ('|', '|')],
          (p.1 ≠ '-' ∧ p.1 ≠ '/') ∧ p.2 ≠ ' ' := by decide
      obtain ⟨hsign, hlast⟩ := hpairs (c, d) (by simpa [isOperatorPair] using hpair)
      refine fun _ => whole_of_scan hblank (fun h => absurd h (by simp [hsign]))
        (fun rest _ => ?_) (by simpa using hlast) (by simp)
      unfold scan
      rw [if_neg hquote, if_neg (show ¬ (c == '"' || c.toNat == 0x60) = true from hname), if_neg hmark]
      -- the tests look at the character behind, which is the same
      exact (if_neg hcolon).trans ((if_neg hnumber).trans ((if_neg hstart).trans
        ((if_neg hpunctuator).trans (if_pos hpair))))
    next hpair => exact fun _ => hsingle (if_neg hpunctuator)

/-! ### The tokens of a text -/

theorem isBlank_of_skip (gap : Gap) {cs ds : List Char} (h : (skip gap cs).2 = c :: ds) :
    Text.isBlank c = false := by
  fun_induction skip gap cs <;> simp_all

theorem whole_tokensFrom (fuel : Nat) (p : Position) (cs : List Char) :
    ∀ t ∈ (tokensFrom fuel p cs).dropLast, isClosed t.literal.toList = true → t.lexeme.Whole := by
  induction fuel generalizing p cs with
  | zero =>
    unfold tokensFrom
    exact List.forall_mem_nil _
  | succ fuel ih =>
    cases hrest : (skip .blank cs).2 with
    | nil =>
      rw [tokensFrom_end hrest]
      exact List.forall_mem_nil _
    | cons c ds =>
      obtain ⟨ts, place, hts⟩ := exists_tokensFrom fuel
        ((p.advance (skip .blank cs).1).advance (scan c ds).2.1) (scan c ds).2.2
      have hall := ih ((p.advance (skip .blank cs).1).advance (scan c ds).2.1) (scan c ds).2.2
      rw [hts, List.dropLast_concat] at hall
      rw [tokensFrom_token hrest, hts, ← List.cons_append, List.dropLast_concat]
      refine List.forall_mem_cons.2 ⟨fun hclosed => ?_, hall⟩
      exact whole_scan (isBlank_of_skip .blank hrest) ds (by rwa [String.toList_ofList] at hclosed)

end Lexer

/-- Whether the token, if it starts with a quote, ends with the quote that closes it. Only the last
token of a text may not. -/
def Token.isClosed (t : Token) : Bool := Lexer.isClosed t.literal.toList

/-- The closed tokens of a text are read as they are. -/
theorem whole_of_tokenize {text : String} {ts : List Token} {place : Position}
    (h : tokenize text = ts ++ [⟨.eof, "", place⟩]) (hclosed : ∀ t ∈ ts, t.isClosed = true) :
    ∀ t ∈ ts, t.lexeme.Whole := by
  have hall := Lexer.whole_tokensFrom text.length {} text.toList
  change ∀ t ∈ (tokenize text).dropLast, _ at hall
  rw [h, List.dropLast_concat] at hall
  exact fun t ht => hall t ht (hclosed t ht)

end Jpql
