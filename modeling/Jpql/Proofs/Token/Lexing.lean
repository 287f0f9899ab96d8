import Jpql.Token.Lexer

/-! What texts are read as. A text lexes to the kinds and literals of its tokens, with their places
forgotten. A piece of a text spells some lexemes if it lexes to them whatever stands behind it, as
long as a delimiter comes first; pieces in a row then spell their lexemes in a row. -/

namespace Jpql

/-- What a token is, without where it stands. -/
structure Lexeme where
  kind : TokenKind
  literal : String
  deriving DecidableEq, Repr

def Token.lexeme (t : Token) : Lexeme := ⟨t.kind, t.literal⟩

/-- The lexeme of a word, which may be reserved. -/
def Lexeme.word (w : String) : Lexeme := ⟨if isReserved w then .keyword else .identifier, w⟩

def Lexeme.punctuator (p : String) : Lexeme := ⟨.punctuator, p⟩

def Lexeme.operator (op : String) : Lexeme := ⟨.operator, op⟩

/-- Items with commas between them. -/
def Lexeme.commaed {α : Type} (lexemes : α → List Lexeme) (x : α) (xs : List α) : List Lexeme :=
  lexemes x ++ xs.flatMap fun y => .punctuator "," :: lexemes y

theorem Lexeme.length_le_commaed {α : Type} {lexemes : α → List Lexeme} {x y : α} {xs : List α}
    (h : y ∈ x :: xs) : (lexemes y).length ≤ (commaed lexemes x xs).length := by
  rw [commaed, List.length_append]
  rcases List.mem_cons.1 h with rfl | h
  · exact Nat.le_add_right _ _
  · have hsub := List.sublist_flatten_of_mem
      (List.mem_map_of_mem (f := fun y => .punctuator "," :: lexemes y) h)
    have := hsub.length_le
    rw [← List.flatMap_def, List.length_cons] at this
    omega

/-- Words with points between them. -/
def Lexeme.dotted (first : String) (rest : List String) : List Lexeme :=
  .word first :: rest.flatMap fun n => [.punctuator ".", .word n]

/-- Words with blanks between them. -/
def Lexeme.phrase (text : String) : List Lexeme :=
  (text.toList.splitOn ' ').map fun w => .word (String.ofList w)

namespace Lexer

/-! ### Scanners lose no characters -/

theorem quotedBody_append (quote : Char) (cs : List Char) :
    (quotedBody quote cs).1 ++ (quotedBody quote cs).2 = cs := by
  fun_induction quotedBody quote cs <;> simp_all

theorem digits_append (cs : List Char) : (digits cs).1 ++ (digits cs).2 = cs :=
  List.takeWhile_append_dropWhile

theorem fraction_append (cs : List Char) : (fraction cs).1 ++ (fraction cs).2 = cs := by
  unfold fraction
  split
  next d rest =>
    split
    · exact congrArg ('.' :: ·) (digits_append (d :: rest))
    · rfl
  · rfl

theorem exponent_append (cs : List Char) : (exponent cs).1 ++ (exponent cs).2 = cs := by
  unfold exponent
  split
  next e c rest =>
    split
    · split
      · exact congrArg (e :: c :: ·) (digits_append rest)
      · split
        · exact congrArg (e :: ·) (digits_append (c :: rest))
        · rfl
    · rfl
  · rfl

theorem number_append (cs : List Char) : (number cs).2.1 ++ (number cs).2.2 = cs := by
  simp only [number, List.append_assoc, List.takeWhile_append_dropWhile, exponent_append,
    fraction_append, digits_append]

theorem scan_append (c : Char) (cs : List Char) :
    (scan c cs).2.1 ++ (scan c cs).2.2 = c :: cs := by
  unfold scan
  split
  · exact congrArg (c :: ·) (quotedBody_append c cs)
  split
  · exact congrArg (c :: ·) (quotedBody_append c cs)
  split
  · exact congrArg (c :: ·) (digits_append cs)
  split
  · exact congrArg (c :: ·) List.takeWhile_append_dropWhile
  split
  · exact number_append _
  split
  · exact congrArg (c :: ·) List.takeWhile_append_dropWhile
  split
  · rfl
  cases cs with
  | nil => rfl
  | cons d rest =>
    dsimp only
    split <;> rfl

theorem number_ne_nil {c : Char} {cs : List Char}
    (h : c.isDigit || (c == '.' && startsWith Char.isDigit cs)) : (number (c :: cs)).2.1 ≠ [] := by
  have hfirst : (digits (c :: cs)).1 ≠ [] ∨ (fraction (digits (c :: cs)).2).1 ≠ [] := by
    rcases Bool.or_eq_true_iff.1 h with hd | hd
    · exact .inl (by simp [digits, hd])
    · obtain ⟨hc, hs⟩ := Bool.and_eq_true_iff.1 hd
      obtain rfl : c = '.' := by simpa using hc
      cases cs with
      | nil => cases hs
      | cons d ds =>
        have hdigit : d.isDigit = true := hs
        exact .inr (by simp [digits, fraction, hdigit])
  simp only [number]
  rcases hfirst with h | h <;> simp [h]

theorem scan_ne_nil (c : Char) (cs : List Char) : (scan c cs).2.1 ≠ [] := by
  unfold scan
  repeat' split
  all_goals first | exact List.cons_ne_nil _ _ | exact number_ne_nil ‹_›

/-- A token takes at least one character. -/
theorem length_scan (c : Char) (cs : List Char) : (scan c cs).2.2.length ≤ cs.length := by
  have happend := congrArg List.length (scan_append c cs)
  have := List.length_pos_iff.2 (scan_ne_nil c cs)
  rw [List.length_append, List.length_cons] at happend
  omega

theorem skip_append (gap : Gap) (cs : List Char) : (skip gap cs).1 ++ (skip gap cs).2 = cs := by
  fun_induction skip gap cs <;> simp_all

theorem length_skip (gap : Gap) (cs : List Char) : (skip gap cs).2.length ≤ cs.length := by
  have happend := congrArg List.length (skip_append gap cs)
  rw [List.length_append] at happend
  omega

/-! ### Tokens of a text -/

theorem tokensFrom_end {cs : List Char} (h : (skip .blank cs).2 = []) (fuel : Nat) (p : Position) :
    tokensFrom fuel p cs = [⟨.eof, "", p.advance (skip .blank cs).1⟩] := by
  unfold tokensFrom
  rcases hskip : skip .blank cs with ⟨gap, rest⟩
  obtain rfl : rest = [] := by simpa [hskip] using h
  cases fuel <;> rfl

theorem tokensFrom_token {c : Char} {cs ds : List Char} (h : (skip .blank cs).2 = c :: ds)
    (fuel : Nat) (p : Position) : tokensFrom (fuel + 1) p cs =
      ⟨(scan c ds).1, String.ofList (scan c ds).2.1, p.advance (skip .blank cs).1⟩ ::
        tokensFrom fuel ((p.advance (skip .blank cs).1).advance (scan c ds).2.1)
          (scan c ds).2.2 := by
  conv => lhs; unfold tokensFrom
  rcases hskip : skip .blank cs with ⟨gap, rest⟩
  obtain rfl : rest = c :: ds := by simpa [hskip] using h
  rfl

/-- The tokens of a text are closed by its end, which has no characters. -/
theorem exists_tokensFrom (fuel : Nat) (p : Position) (cs : List Char) :
    ∃ ts place, tokensFrom fuel p cs = ts ++ [⟨.eof, "", place⟩] := by
  induction fuel generalizing p cs with
  | zero => exact ⟨[], _, by unfold tokensFrom; rfl⟩
  | succ fuel ih =>
    cases hrest : (skip .blank cs).2 with
    | nil => exact ⟨[], _, tokensFrom_end hrest _ p⟩
    | cons c ds =>
      obtain ⟨ts, place, hts⟩ := ih ((p.advance (skip .blank cs).1).advance (scan c ds).2.1)
        (scan c ds).2.2
      rw [tokensFrom_token hrest, hts]
      exact ⟨_ :: ts, place, rfl⟩

/-! ### Texts and their lexemes -/

/-- The lexemes that a text is read as, up to its end. -/
inductive Lexes : List Char → List Lexeme → Prop
  | done {cs : List Char} (h : (skip .blank cs).2 = []) : Lexes cs []
  | token {cs ds literal behind : List Char} {c : Char} {kind : TokenKind} {ls : List Lexeme}
      (h : (skip .blank cs).2 = c :: ds) (hscan : scan c ds = (kind, literal, behind))
      (hrest : Lexes behind ls) : Lexes cs (⟨kind, String.ofList literal⟩ :: ls)

/-- The tokens of a text have the lexemes that it lexes to; the last is its end. -/
theorem Lexes.tokensFrom {cs : List Char} {ls : List Lexeme} (h : Lexes cs ls) {fuel : Nat}
    (hfuel : cs.length ≤ fuel) (p : Position) :
    ∃ (ts : List Token) (place : Position),
      tokensFrom fuel p cs = ts ++ [⟨.eof, "", place⟩] ∧ ts.map Token.lexeme = ls := by
  induction h generalizing fuel p with
  | @done cs h => exact ⟨[], p.advance (skip .blank cs).1, tokensFrom_end h fuel p, rfl⟩
  | @token cs ds literal behind c kind ls h hscan _ ih =>
    have hlength := length_skip .blank cs
    have hbehind := length_scan c ds
    rw [h, List.length_cons] at hlength
    rw [hscan] at hbehind
    obtain ⟨fuel, rfl⟩ : ∃ k, fuel = k + 1 := ⟨fuel - 1, by omega⟩
    have hfuel : behind.length ≤ fuel := by dsimp only at hbehind; omega
    have htokens := tokensFrom_token h fuel p
    simp only [hscan] at htokens
    obtain ⟨ts, place, hts, hls⟩ := ih hfuel ((p.advance (skip .blank cs).1).advance literal)
    refine ⟨⟨kind, String.ofList literal, p.advance (skip .blank cs).1⟩ :: ts, place, ?_, ?_⟩
    · rw [htokens, hts]
      rfl
    · simp [hls, Token.lexeme]

theorem Lexes.tokenize {text : String} {ls : List Lexeme} (h : Lexes text.toList ls) :
    ∃ (ts : List Token) (place : Position),
      tokenize text = ts ++ [⟨.eof, "", place⟩] ∧ ts.map Token.lexeme = ls :=
  h.tokensFrom (Nat.le_of_eq String.length_toList) {}

theorem lexes_nil : Lexes [] [] := .done rfl

theorem skip_space (cs : List Char) : (skip .blank (' ' :: cs)).2 = (skip .blank cs).2 := by
  have hblank : Text.isBlank ' ' = true := by decide
  simp [skip, hblank]

theorem Lexes.space {cs : List Char} {ls : List Lexeme} (h : Lexes cs ls) : Lexes (' ' :: cs) ls := by
  cases h with
  | done h => exact .done (by rwa [skip_space])
  | token h hscan hrest => exact .token (by rwa [skip_space]) hscan hrest

/-- The character starts a token: it belongs to no gap. -/
def StartsToken (c : Char) (cs : List Char) : Prop :=
  Text.isBlank c = false ∧ (c = '-' → startsWith (· == '-') cs = false) ∧
    (c = '/' → startsWith (· == '*') cs = false)

theorem skip_token {c : Char} {cs : List Char} (h : StartsToken c cs) :
    skip .blank (c :: cs) = ([], c :: cs) := by
  obtain ⟨hblank, hdash, hslash⟩ := h
  unfold skip
  split
  next heq => simp at heq
  next heq =>
    obtain ⟨rfl, rfl⟩ := List.cons.inj heq
    simp [startsWith] at hdash
  next heq =>
    obtain ⟨rfl, rfl⟩ := List.cons.inj heq
    simp [startsWith] at hslash
  next heq =>
    obtain ⟨rfl, rfl⟩ := List.cons.inj heq
    simp [hblank]
  all_goals contradiction

theorem Lexes.scanned {c : Char} {cs literal behind : List Char} {kind : TokenKind}
    {ls : List Lexeme} (hc : StartsToken c cs) (hscan : scan c cs = (kind, literal, behind))
    (h : Lexes behind ls) : Lexes (c :: cs) (⟨kind, String.ofList literal⟩ :: ls) :=
  .token (by rw [skip_token hc]) hscan h

/-! ### Words -/

/-- A property of the characters in a range, checked one by one. -/
theorem forall_char_range (P : Char → Prop) (low size : Nat)
    (h : ∀ n ∈ List.range' low size, P (Char.ofNat n)) {c : Char} (hlow : low ≤ c.toNat)
    (hhigh : c.toNat < low + size) : P c := by
  have hc := h c.toNat (List.mem_range'_1.2 ⟨hlow, hhigh⟩)
  rwa [Char.ofNat_toNat] at hc

theorem forall_digit (P : Char → Prop) (h : ∀ n ∈ List.range' 48 10, P (Char.ofNat n)) {c : Char}
    (hc : c.isDigit = true) : P c := by
  obtain ⟨hlow, hhigh⟩ : 48 ≤ c.toNat ∧ c.toNat ≤ 57 := Char.isDigit_iff_toNat.1 hc
  exact forall_char_range P 48 10 h hlow (by omega)

theorem isDigit_of_mem_toString {n : Nat} {c : Char} (h : c ∈ (toString n).toList) :
    c.isDigit = true := by
  rw [Nat.toString_eq_repr, Nat.toList_repr] at h
  exact Nat.isDigit_of_mem_toDigits (by decide) (by decide) h

theorem isIdentifierPart_of_isDigit {c : Char} (h : c.isDigit = true) :
    isIdentifierPart c = true := by
  have hall : ∀ n ∈ List.range' 48 10, isIdentifierPart (Char.ofNat n) = true := by decide
  exact forall_digit (isIdentifierPart · = true) hall h

theorem isBlank_of_isIdentifierPart {c : Char} (h : isIdentifierPart c = true) :
    Text.isBlank c = false := by
  have hall : ∀ r ∈ Text.blankRanges, ∀ n ∈ List.range' r.1 (r.2 + 1 - r.1),
      isIdentifierPart (Char.ofNat n) = false := by decide +kernel
  cases hblank : Text.isBlank c with
  | false => rfl
  | true =>
    obtain ⟨r, hr, hcovers⟩ := List.any_eq_true.1 hblank
    obtain ⟨hlow, hhigh⟩ : r.1 ≤ c.toNat ∧ c.toNat ≤ r.2 := by
      simpa [Text.CodeRange.covers] using hcovers
    have hc := forall_char_range (isIdentifierPart · = false) _ _ (hall r hr) hlow (by omega)
    rw [h] at hc
    cases hc

/-- The text is one word, be it an identifier or a keyword. -/
def isWord (w : String) : Bool :=
  match w.toList with
  | c :: cs => isIdentifierStart c && cs.all isIdentifierPart
  | [] => false

theorem exists_of_isWord {w : String} (h : isWord w = true) :
    ∃ c cs, w.toList = c :: cs ∧ isIdentifierStart c = true ∧
      ∀ d ∈ cs, isIdentifierPart d = true := by
  unfold isWord at h
  split at h
  next c cs hw =>
    obtain ⟨hc, hcs⟩ := Bool.and_eq_true_iff.1 h
    exact ⟨c, cs, hw, hc, List.all_eq_true.1 hcs⟩
  next => cases h

theorem isIdentifierPart_of_start {c : Char} (h : isIdentifierStart c = true) :
    isIdentifierPart c = true := by
  simp only [isIdentifierStart, isIdentifierPart, Text.isAlphanumeric, Bool.or_eq_true] at h ⊢
  exact h.imp_left (·.imp_left .inl)

theorem ne_of_isIdentifierStart {c d : Char} (h : isIdentifierStart c = true)
    (hd : isIdentifierStart d = false) : c ≠ d := by
  rintro rfl
  rw [h] at hd
  cases hd

theorem isDigit_of_isIdentifierStart {c : Char} (h : isIdentifierStart c = true) :
    c.isDigit = false := by
  cases hdigit : c.isDigit with
  | false => rfl
  | true =>
    have hall : ∀ n ∈ List.range' 48 10, isIdentifierStart (Char.ofNat n) = false := by
      decide +kernel
    have hc := forall_digit (isIdentifierStart · = false) hall hdigit
    rw [h] at hc
    cases hc

theorem takeWhile_append_stop {p : Char → Bool} {cs rest : List Char} (hcs : ∀ c ∈ cs, p c = true)
    (hrest : startsWith p rest = false) :
    (cs ++ rest).takeWhile p = cs ∧ (cs ++ rest).dropWhile p = rest := by
  have hstop : rest.takeWhile p = [] ∧ rest.dropWhile p = rest := by
    cases rest with
    | nil => exact ⟨rfl, rfl⟩
    | cons c rest =>
      have hc : p c = false := hrest
      simp [hc]
  rw [List.takeWhile_append_of_pos hcs, List.dropWhile_append_of_pos hcs, hstop.1, hstop.2,
    List.append_nil]
  exact ⟨rfl, rfl⟩

theorem scan_word {c : Char} {cs rest : List Char} (hc : isIdentifierStart c = true)
    (hcs : ∀ d ∈ cs, isIdentifierPart d = true) (hrest : startsWith isIdentifierPart rest = false) :
    scan c (cs ++ rest) = ((Lexeme.word (String.ofList (c :: cs))).kind, c :: cs, rest) := by
  have hquote : c ≠ '\'' := ne_of_isIdentifierStart hc (by decide)
  have hdouble : c ≠ '"' := ne_of_isIdentifierStart hc (by decide)
  have hback : c.toNat ≠ 0x60 := by
    intro h
    refine ne_of_isIdentifierStart hc (d := Char.ofNat 0x60) (by decide) ?_
    rw [← h, Char.ofNat_toNat]
  have hmark : c ≠ '?' := ne_of_isIdentifierStart hc (by decide)
  have hcolon : c ≠ ':' := ne_of_isIdentifierStart hc (by decide)
  have hpoint : c ≠ '.' := ne_of_isIdentifierStart hc (by decide)
  obtain ⟨htake, hdrop⟩ := takeWhile_append_stop hcs hrest
  simp [scan, hquote, hdouble, hback, hmark, hcolon, hpoint, isDigit_of_isIdentifierStart hc, hc,
    htake, hdrop, Lexeme.word]

theorem startsToken_of_isIdentifierStart {c : Char} (h : isIdentifierStart c = true)
    (cs : List Char) : StartsToken c cs :=
  ⟨isBlank_of_isIdentifierPart (isIdentifierPart_of_start h),
    fun hc => absurd hc (ne_of_isIdentifierStart h (by decide)),
    fun hc => absurd hc (ne_of_isIdentifierStart h (by decide))⟩

/-! ### Pieces -/

def delimiters : List Char := [' ', '(', ')', ',', '\x7d']

/-- The text is empty or starts with a delimiter. -/
def Delimits (cs : List Char) : Prop := ∀ c ∈ cs.head?, c ∈ delimiters

theorem Delimits.startsWith {p : Char → Bool} {cs : List Char} (h : Delimits cs)
    (hp : delimiters.any p = false) : Lexer.startsWith p cs = false := by
  cases cs with
  | nil => rfl
  | cons c cs => exact Bool.eq_false_iff.2 (List.any_eq_false.1 hp c (h c rfl))

/-- The piece lexes to the lexemes in front of any text that delimits it. -/
def Spelled (s : List Char) (ls : List Lexeme) : Prop :=
  ∀ ⦃rest : List Char⦄ ⦃ls' : List Lexeme⦄, Delimits rest → Lexes rest ls' →
    Lexes (s ++ rest) (ls ++ ls')

theorem Spelled.lexes {s : List Char} {ls : List Lexeme} (h : Spelled s ls) : Lexes s ls := by
  have hempty : Delimits [] := nofun
  simpa using h hempty lexes_nil

theorem Spelled.append {s s' : List Char} {ls ls' : List Lexeme} (h : Spelled s ls)
    (h' : Spelled s' ls') (hne : s' ≠ []) (hs' : Delimits s') : Spelled (s ++ s') (ls ++ ls') := by
  intro rest ls'' hrest hls
  rw [List.append_assoc, List.append_assoc]
  refine h ?_ (h' hrest hls)
  obtain ⟨c, cs, rfl⟩ := List.exists_cons_of_ne_nil hne
  exact hs'

theorem Spelled.space {s : List Char} {ls : List Lexeme} (h : Spelled s ls) :
    Spelled (' ' :: s) ls := fun _ _ hrest hls => (h hrest hls).space

/-- Two pieces with a blank between them. -/
theorem Spelled.spaced {s s' : List Char} {ls ls' : List Lexeme} (h : Spelled s ls)
    (h' : Spelled s' ls') : Spelled (s ++ ' ' :: s') (ls ++ ls') :=
  h.append h'.space (List.cons_ne_nil _ _) (by simp [Delimits, delimiters])

/-- A word is read as one wherever it does not go on. -/
theorem lexes_word {w : String} (h : isWord w = true) {rest : List Char} {ls : List Lexeme}
    (hrest : startsWith isIdentifierPart rest = false) (hls : Lexes rest ls) :
    Lexes (w.toList ++ rest) (.word w :: ls) := by
  obtain ⟨c, cs, hw, hc, hcs⟩ := exists_of_isWord h
  rw [hw, ← String.ofList_toList (s := w), hw]
  exact .scanned (startsToken_of_isIdentifierStart hc _) (scan_word hc hcs hrest) hls

theorem spelled_word {w : String} (h : isWord w = true) : Spelled w.toList [.word w] :=
  fun _ _ hrest hls => lexes_word h (hrest.startsWith (by decide)) hls

theorem Lexes.punctuator {c : Char} (hc : isPunctuator c = true) {cs : List Char} {ls : List Lexeme}
    (hcs : c = '.' → startsWith Char.isDigit cs = false) (h : Lexes cs ls) :
    Lexes (c :: cs) (.punctuator (String.ofList [c]) :: ls) := by
  have hall : ['(', ')', ',', '.', '\x7b', '\x7d', '[', ']', ';'].all fun c =>
      isIdentifierStart c = false ∧ Text.isBlank c = false ∧ c.isDigit = false ∧
      c ∉ ['-', '/', '\'', '"', '?', ':'] ∧ c.toNat ≠ 0x60 := by decide
  have hmem : c ∈ ['(', ')', ',', '.', '\x7b', '\x7d', '[', ']', ';'] := by
    simpa [isPunctuator] using hc
  obtain ⟨hstart, hblank, hdigit, hother, hback⟩ :=
    of_decide_eq_true (List.all_eq_true.1 hall c hmem)
  simp only [List.mem_cons, List.not_mem_nil, or_false, not_or] at hother
  obtain ⟨hdash, hslash, hquote, hdouble, hmark, hcolon⟩ := hother
  have hscan : scan c cs = (.punctuator, [c], cs) := by
    have hnumber : (c == '.' && Lexer.startsWith Char.isDigit cs) = false := by
      by_cases h : c = '.' <;> simp [h, hcs]
    simp [scan, hquote, hdouble, hback, hmark, hcolon, hdigit, hstart, hc, hnumber]
  exact .scanned ⟨hblank, fun h => absurd h hdash, fun h => absurd h hslash⟩ hscan h

/-- A piece between punctuators of which the second is a delimiter. -/
theorem spelled_enclosed {c d : Char} (hc : isPunctuator c = true) (hpoint : c ≠ '.')
    (hd : isPunctuator d = true) (hend : d ∈ delimiters) {s : List Char} {ls : List Lexeme}
    (h : Spelled s ls) : Spelled (c :: s ++ [d])
      (.punctuator (String.ofList [c]) :: ls ++ [Lexeme.punctuator (String.ofList [d])]) := by
  intro rest ls' hrest hls
  refine .punctuator hc (fun h => absurd h hpoint) ?_
  change Lexes (s ++ [d] ++ rest) (ls ++ [Lexeme.punctuator (String.ofList [d])] ++ ls')
  rw [List.append_assoc, List.append_assoc]
  refine h (by simpa [Delimits] using hend) (.punctuator hd ?_ hls)
  rintro rfl
  exact absurd hend (by decide)

theorem spelled_parens {s : List Char} {ls : List Lexeme} (h : Spelled s ls) :
    Spelled ('(' :: s ++ [')']) (.punctuator "(" :: ls ++ [Lexeme.punctuator ")"]) :=
  spelled_enclosed (by decide) (by decide) (by decide) (by decide) h

theorem spelled_braces {s : List Char} {ls : List Lexeme} (h : Spelled s ls) :
    Spelled ('\x7b' :: s ++ ['\x7d']) (.punctuator "\x7b" :: ls ++ [Lexeme.punctuator "\x7d"]) :=
  spelled_enclosed (by decide) (by decide) (by decide) (by decide) h

/-- Two pieces with a comma between them. -/
theorem Spelled.comma {s s' : List Char} {ls ls' : List Lexeme} (h : Spelled s ls)
    (h' : Spelled s' ls') : Spelled (s ++ ',' :: ' ' :: s') (ls ++ .punctuator "," :: ls') := by
  have hcomma : Spelled (',' :: ' ' :: s') (.punctuator "," :: ls') :=
    fun _ _ hrest hls => .punctuator (by decide) (by simp) (h'.space hrest hls)
  exact h.append hcomma (List.cons_ne_nil _ _) (by simp [Delimits, delimiters])

def comparisonOperators : List String := ["=", "!=", "<", ">", "<=", ">="]

theorem spelled_operator {op : String} (h : op ∈ comparisonOperators) :
    Spelled op.toList [.operator op] := by
  intro rest ls' hrest hls
  have hend : rest = [] ∨ ∃ c ∈ delimiters, ∃ cs, rest = c :: cs := by
    cases rest with
    | nil => exact .inl rfl
    | cons c cs => exact .inr ⟨c, hrest c rfl, cs, rfl⟩
  simp only [comparisonOperators, List.mem_cons, List.not_mem_nil, or_false] at h
  simp only [delimiters, List.mem_cons, List.not_mem_nil, or_false] at hend
  rcases h with rfl | rfl | rfl | rfl | rfl | rfl <;>
    rcases hend with rfl | ⟨c, rfl | rfl | rfl | rfl | rfl, cs, rfl⟩ <;>
    exact .token rfl rfl hls

theorem spelled_parameter (n : Nat) :
    Spelled ('?' :: (toString n).toList) [⟨.parameter, "?" ++ toString n⟩] := by
  intro rest ls' hrest hls
  have hdigits : ∀ c ∈ (toString n).toList, c.isDigit = true :=
    fun _ => isDigit_of_mem_toString
  obtain ⟨htake, hdrop⟩ := takeWhile_append_stop hdigits (hrest.startsWith (by decide))
  have hscan : scan '?' ((toString n).toList ++ rest) =
      (.parameter, '?' :: (toString n).toList, rest) := by
    simp only [scan, digits, htake, hdrop]
    simp
  have hliteral : "?" ++ toString n = String.ofList ('?' :: (toString n).toList) := by
    simp [String.ext_iff]
  rw [hliteral]
  exact .scanned ⟨by decide, by simp, by simp⟩ hscan hls

theorem spelled_quoted {c : Char} (hc : c ≠ '\'') :
    Spelled ['\'', c, '\''] [⟨.string, String.ofList ['\'', c, '\'']⟩] := by
  intro rest ls' hrest hls
  have hscan : scan '\'' (c :: '\'' :: rest) = (.string, ['\'', c, '\''], rest) := by
    have hbody : quotedBody '\'' ('\'' :: rest) = (['\''], rest) := by
      have hstop := hrest.startsWith (p := (· == '\'')) (by decide)
      cases rest with
      | nil => rfl
      | cons d rest =>
        have hd : (d == '\'') = false := hstop
        simp [quotedBody, hd]
    simp [scan, quotedBody, hc, hbody]
  exact .scanned ⟨by decide, by simp, by simp⟩ hscan hls

theorem spelled_phrase {text : String}
    (h : ∀ w ∈ text.toList.splitOn ' ', isWord (String.ofList w) = true) :
    Spelled text.toList (Lexeme.phrase text) := by
  have hwords : ∀ ws : List (List Char), ws ≠ [] →
      (∀ w ∈ ws, isWord (String.ofList w) = true) →
      Spelled ([' '].intercalate ws) (ws.map fun w => .word (String.ofList w)) := by
    intro ws hne hws
    induction ws with
    | nil => exact absurd rfl hne
    | cons w ws ih =>
      obtain ⟨hw, hrest⟩ := List.forall_mem_cons.1 hws
      have hfirst := spelled_word hw
      rw [String.toList_ofList] at hfirst
      cases ws with
      | nil => simpa [List.intercalate] using hfirst
      | cons w' ws => simpa [List.intercalate] using hfirst.spaced (ih (List.cons_ne_nil _ _) hrest)
  have htext := hwords (text.toList.splitOn ' ') (List.splitOn_ne_nil ' ' _) h
  rwa [List.intercalate_splitOn] at htext

end Lexer

end Jpql
