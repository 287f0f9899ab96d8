import Jpql.Proofs.Declared.Pieces
import Jpql.Proofs.Token.Whole
import Mathlib

/-! The parameters among the tokens of a text. In a text without comments and names in back quotes
they are what the signs `?` and `:` outside quotes start, whatever other tokens stand between. -/

namespace Jpql

/-- The parameters that a text is read with, as they are written. -/
def parameters (text : String) : List String :=
  ((tokenize text).filter (·.kind == .parameter)).map (·.literal)

namespace Lexer

open Markers

/-! ### Signs outside quotes -/

/-- What the signs outside quotes start. -/
def signed : (opened : Option Char) → List Char → List (List Char)
  | _, [] => []
  | opened, c :: cs =>
    if opened.isNone && c == '?' then ('?' :: cs.takeWhile Char.isDigit) :: signed none cs
    else if opened.isNone && c == ':' && startsWith isIdentifierStart cs then
      (':' :: cs.takeWhile isIdentifierPart) :: signed none cs
    else signed (quoteAfter opened c) cs

/-- The character is neither a quote nor a sign. -/
def isPlain (c : Char) : Bool := !isQuote c && c != '?' && c != ':'

theorem isQuote_of_isPlain {c : Char} (h : isPlain c = true) : isQuote c = false := by
  simp only [isPlain, Bool.and_eq_true, Bool.not_eq_true'] at h
  exact h.1.1

theorem signed_plain {ds : List Char} (h : ∀ c ∈ ds, isPlain c = true) (cs : List Char) :
    signed none (ds ++ cs) = signed none cs := by
  induction ds with
  | nil => rfl
  | cons d ds ih =>
    obtain ⟨hd, hds⟩ := List.forall_mem_cons.1 h
    simp only [isPlain, Bool.and_eq_true, Bool.not_eq_true', bne_iff_ne] at hd
    rw [List.cons_append, signed]
    simp [hd.1.2, hd.2, quoteAfter, hd.1.1, ih hds]

theorem signed_quoted {q : Char} (c : Char) (cs : List Char) :
    signed (some q) (c :: cs) = signed (if c == q then none else some q) cs := by
  rw [signed]
  rfl

theorem signed_quote {q : Char} (hq : isQuote q = true) (cs : List Char) :
    signed none (q :: cs) = signed (some q) cs := by
  rcases eq_of_isQuote hq with rfl | rfl <;> rfl

/-- A class of characters that holds no quote and no sign is plain. -/
theorem isPlain_of_class {p : Char → Bool} {c : Char} (h : p c = true)
    (hp : ['\'', '"', '?', ':'].any p = false) : isPlain c = true := by
  have hspecial : isPlain c = false → c ∈ ['\'', '"', '?', ':'] := by
    simp only [isPlain, isQuote, Bool.and_eq_false_iff, Bool.not_eq_false', Bool.or_eq_true,
      beq_iff_eq, bne_eq_false_iff_eq, List.mem_cons, List.not_mem_nil, or_false]
    tauto
  cases hplain : isPlain c with
  | true => rfl
  | false => exact absurd h (List.any_eq_false.1 hp c (hspecial hplain))

theorem isPlain_of_isIdentifierPart {c : Char} (h : isIdentifierPart c = true) :
    isPlain c = true := isPlain_of_class h rfl

/-- No character outside quotes is a sign. -/
def isUnsigned : (opened : Option Char) → List Char → Bool
  | _, [] => true
  | opened, c :: cs =>
    (opened.isSome || (c != '?' && c != ':')) && isUnsigned (quoteAfter opened c) cs

theorem signed_unsigned {opened : Option Char} {ds : List Char} (h : isUnsigned opened ds = true)
    (cs : List Char) : signed opened (ds ++ cs) = signed (quoteAfterAll opened ds) cs := by
  induction ds generalizing opened with
  | nil => rfl
  | cons d ds ih =>
    obtain ⟨hd, hds⟩ := Bool.and_eq_true_iff.1 h
    have hstep : signed opened (d :: (ds ++ cs)) = signed (quoteAfter opened d) (ds ++ cs) := by
      cases opened with
      | some q => rfl
      | none =>
        obtain ⟨hmark, hcolon⟩ : d ≠ '?' ∧ d ≠ ':' := by simpa using hd
        simp [signed, hmark, hcolon]
    exact hstep.trans (ih hds)

/-! ### Texts without comments -/

/-- A comment or a name in back quotes. -/
def startsComment (cs : List Char) : Bool :=
  ["--", "/*", "\x60"].any (·.toList.isPrefixOf cs)

/-- Outside quotes neither a comment nor a name in back quotes starts. -/
def isUncommented : (opened : Option Char) → List Char → Bool
  | _, [] => true
  | opened, c :: cs =>
    (opened.isSome || !startsComment (c :: cs)) && isUncommented (quoteAfter opened c) cs

theorem isUncommented_behind {opened : Option Char} {ds cs : List Char}
    (h : isUncommented opened (ds ++ cs) = true) :
    isUncommented (quoteAfterAll opened ds) cs = true := by
  induction ds generalizing opened with
  | nil => exact h
  | cons d ds ih => exact ih (Bool.and_eq_true_iff.1 h).2

theorem startsToken_of_isUncommented {c : Char} {cs : List Char}
    (h : isUncommented none (c :: cs) = true) (hblank : Text.isBlank c = false) :
    StartsToken c cs := by
  have hstart : startsComment (c :: cs) = false := by
    simpa using (Bool.and_eq_true_iff.1 h).1
  refine ⟨hblank, ?_, ?_⟩
  · rintro rfl
    cases cs with
    | nil => rfl
    | cons d cs =>
      refine beq_eq_false_iff_ne.2 ?_
      rintro rfl
      cases hstart
  · rintro rfl
    cases cs with
    | nil => rfl
    | cons d cs =>
      refine beq_eq_false_iff_ne.2 ?_
      rintro rfl
      cases hstart

theorem skip_blank {c : Char} (h : Text.isBlank c = true) (cs : List Char) :
    (skip .blank (c :: cs)).2 = (skip .blank cs).2 := by
  have hdash : c ≠ '-' := by rintro rfl; cases h
  have hslash : c ≠ '/' := by rintro rfl; cases h
  rw [skip]
  · simp [h]
  · exact fun _ heq _ => hdash heq
  · exact fun _ heq _ => hslash heq

/-- Between the tokens of a text without comments there are blanks only. -/
theorem signed_skip {cs : List Char} (h : isUncommented none cs = true) :
    signed none (skip .blank cs).2 = signed none cs ∧
      isUncommented none (skip .blank cs).2 = true := by
  induction cs with
  | nil => exact ⟨rfl, h⟩
  | cons c cs ih =>
    cases hblank : Text.isBlank c with
    | true =>
      have hplain : ∀ d ∈ [c], isPlain d = true :=
        List.forall_mem_singleton.2 (isPlain_of_class hblank rfl)
      have hbehind : isUncommented (quoteAfterAll none [c]) cs = true := isUncommented_behind h
      rw [quoteAfterAll_none fun d hd => isQuote_of_isPlain (hplain d hd)] at hbehind
      obtain ⟨hsigned, huncommented⟩ := ih hbehind
      rw [skip_blank hblank, hsigned]
      exact ⟨(signed_plain hplain cs).symm, huncommented⟩
    | false =>
      rw [skip_token (startsToken_of_isUncommented h hblank)]
      exact ⟨rfl, h⟩

/-! ### Tokens -/

/-- What follows an opening quote belongs to one token. -/
theorem signed_quotedBody {q : Char} (hq : isQuote q = true) (cs : List Char) :
    signed (some q) cs = signed none (quotedBody q cs).2 ∧
      (quoteAfterAll (some q) (quotedBody q cs).1 = none ∨ (quotedBody q cs).2 = []) := by
  fun_induction quotedBody q cs with
  | case1 => exact ⟨rfl, .inr rfl⟩
  | case2 c => exact ⟨by rw [signed_quoted]; split <;> rfl, .inr rfl⟩
  | case3 c d cs hc hd body rest heq ih =>
    -- A doubled quote closes and opens again.
    obtain rfl := eq_of_beq hc
    obtain rfl := eq_of_beq hd
    rw [heq] at ih
    rw [signed_quoted, if_pos hc, signed_quote hq]
    exact ⟨ih.1, ih.2.imp_left fun hbody => by simpa [quoteAfterAll, quoteAfter, hq] using hbody⟩
  | case4 c d cs hc hd =>
    obtain rfl := eq_of_beq hc
    rw [signed_quoted, if_pos hc]
    exact ⟨rfl, .inl (if_pos hc)⟩
  | case5 c d cs hc body rest heq ih =>
    rw [heq] at ih
    rw [signed_quoted, if_neg hc]
    exact ⟨ih.1, ih.2.imp_left fun hbody => by simpa [quoteAfterAll, quoteAfter, hc] using hbody⟩

theorem isPlain_number (cs : List Char) : ∀ c ∈ (number cs).2.1, isPlain c = true :=
  fun c hc => isPlain_of_class (isNumberPart_of_mem cs c hc) rfl

theorem signed_cons {c : Char} (hquote : isQuote c = false) (hmark : c ≠ '?') {cs : List Char}
    (hcolon : c = ':' → startsWith isIdentifierStart cs = false) :
    signed none (c :: cs) = signed none cs := by
  have hnone : (c == ':' && startsWith isIdentifierStart cs) = false := by
    by_cases hc : c = ':'
    · rw [hcolon hc, Bool.and_false]
    · rw [beq_eq_false_iff_ne.2 hc, Bool.false_and]
  simp [signed, hmark, hnone, quoteAfter, hquote]

/-- What a token holds of the signs of a text. -/
structure Holds (kind : TokenKind) (literal behind : List Char) : Prop where
  signed : signed none (literal ++ behind) =
    (if kind = .parameter then [literal] else []) ++ signed none behind
  closed : quoteAfterAll none literal = none ∨ behind = []

theorem holds_plain {kind : TokenKind} (hkind : kind ≠ .parameter) {literal : List Char}
    (h : ∀ c ∈ literal, isPlain c = true) (behind : List Char) : Holds kind literal behind where
  signed := by rw [signed_plain h, if_neg hkind, List.nil_append]
  closed := .inl (quoteAfterAll_none fun c hc => isQuote_of_isPlain (h c hc))

theorem holds_quoted {q : Char} (hq : isQuote q = true) {kind : TokenKind}
    (hkind : kind ≠ .parameter) (cs : List Char) :
    Holds kind (q :: (quotedBody q cs).1) (quotedBody q cs).2 := by
  obtain ⟨hsigned, hclosed⟩ := signed_quotedBody hq cs
  refine ⟨?_, hclosed.imp_left fun hbody => ?_⟩
  · rw [List.cons_append, quotedBody_append, signed_quote hq, hsigned, if_neg hkind, List.nil_append]
  · rw [quoteAfterAll, List.foldl_cons, show quoteAfter none q = some q from if_pos hq]
    exact hbody

theorem holds_mark (cs : List Char) :
    Holds .parameter ('?' :: (digits cs).1) (digits cs).2 := by
  have hdigits : ∀ c ∈ (digits cs).1, isPlain c = true :=
    fun c hc => isPlain_of_class (p := Char.isDigit) (List.mem_takeWhile_imp hc) rfl
  have hsigned := signed_plain hdigits (digits cs).2
  rw [digits_append] at hsigned
  refine ⟨?_, .inl (quoteAfterAll_none ?_)⟩
  · rw [List.cons_append, digits_append, ← hsigned]
    rfl
  · exact List.forall_mem_cons.2 ⟨rfl, fun c hc => isQuote_of_isPlain (hdigits c hc)⟩

theorem holds_colon {cs : List Char} (hcs : startsWith isIdentifierStart cs = true) :
    Holds .parameter (':' :: cs.takeWhile isIdentifierPart) (cs.dropWhile isIdentifierPart) := by
  have hname : ∀ c ∈ cs.takeWhile isIdentifierPart, isPlain c = true :=
    fun c hc => isPlain_of_isIdentifierPart (List.mem_takeWhile_imp hc)
  have hsigned := signed_plain hname (cs.dropWhile isIdentifierPart)
  rw [List.takeWhile_append_dropWhile] at hsigned
  refine ⟨?_, .inl (quoteAfterAll_none ?_)⟩
  · rw [List.cons_append, List.takeWhile_append_dropWhile, ← hsigned]
    simp [signed, hcs]
  · exact List.forall_mem_cons.2 ⟨rfl, fun c hc => isQuote_of_isPlain (hname c hc)⟩

/-- A character that is no quote and starts no parameter. -/
theorem holds_single {kind : TokenKind} (hkind : kind ≠ .parameter) {c : Char}
    (hquote : isQuote c = false) (hmark : c ≠ '?') {cs : List Char}
    (hcolon : c = ':' → startsWith isIdentifierStart cs = false) : Holds kind [c] cs where
  signed := by
    rw [List.singleton_append, signed_cons hquote hmark hcolon, if_neg hkind, List.nil_append]
  closed := .inl (quoteAfterAll_none (List.forall_mem_singleton.2 hquote))

/-- Every token holds the signs that it is made of, and no others. -/
theorem holds_scan {c : Char} {cs : List Char} (h : isUncommented none (c :: cs) = true) :
    Holds (scan c cs).1 (scan c cs).2.1 (scan c cs).2.2 := by
  have hstring : TokenKind.string ≠ .parameter := by decide
  have hidentifier : TokenKind.identifier ≠ .parameter := by decide
  have hword (w : String) :
      (if isReserved w then TokenKind.keyword else .identifier) ≠ .parameter := by
    split <;> decide
  have hpunctuator : TokenKind.punctuator ≠ .parameter := by decide
  have hoperator : TokenKind.operator ≠ .parameter := by decide
  have hsign : (if isOperator c then TokenKind.operator else .illegal) ≠ .parameter := by
    split <;> decide
  unfold scan
  split
  next hc => exact holds_quoted (by rw [isQuote, hc]; rfl) hstring cs
  next hsingle =>
  split
  next hc =>
    rcases Bool.or_eq_true_iff.1 hc with hc | hc
    · exact holds_quoted (by rw [isQuote, hc, Bool.or_true]) hidentifier cs
    · -- Names in back quotes are ruled out.
      obtain rfl : c = '\x60' := by rw [← Char.ofNat_toNat (c := c), eq_of_beq hc]
      cases h
  next hdouble =>
  split
  next hc => exact eq_of_beq hc ▸ holds_mark cs
  next hmark =>
  split
  next hc =>
    obtain ⟨hc, hcs⟩ := Bool.and_eq_true_iff.1 hc
    exact eq_of_beq hc ▸ holds_colon hcs
  next hcolon =>
  split
  next => exact holds_plain (by simp only [number]; split <;> decide) (isPlain_number _) _
  next =>
  split
  next hc =>
    exact holds_plain (hword _) (List.forall_mem_cons.2 ⟨isPlain_of_class hc rfl,
      fun d hd => isPlain_of_isIdentifierPart (List.mem_takeWhile_imp hd)⟩) _
  next =>
  split
  next hc =>
    exact holds_plain hpunctuator (List.forall_mem_singleton.2 (isPlain_of_class hc rfl)) cs
  next =>
  have hother : Holds (if isOperator c then .operator else .illegal) [c] cs := by
    refine holds_single hsign ?_ (by simpa using hmark) ?_
    · rw [isQuote, Bool.eq_false_iff.2 hsingle, Bool.false_or, Bool.eq_false_iff]
      exact fun hc => hdouble (by rw [hc, Bool.true_or])
    · rintro rfl
      simpa using hcolon
  cases cs with
  | nil => exact hother
  | cons d rest =>
    dsimp only
    split
    next hpair =>
      refine holds_plain hoperator ?_ rest
      simp only [isOperatorPair, List.mem_cons, Prod.mk.injEq, List.not_mem_nil, or_false,
        decide_eq_true_eq] at hpair
      rcases hpair with ⟨rfl, rfl⟩ | ⟨rfl, rfl⟩ | ⟨rfl, rfl⟩ | ⟨rfl, rfl⟩ | ⟨rfl, rfl⟩ | ⟨rfl, rfl⟩ <;>
        exact List.forall_mem_cons.2 ⟨rfl, List.forall_mem_singleton.2 rfl⟩
    next => exact hother

theorem tokensFrom_signed {fuel : Nat} {cs : List Char} (hfuel : cs.length ≤ fuel)
    (h : isUncommented none cs = true) (p : Position) :
    ((tokensFrom fuel p cs).filter (·.kind == .parameter)).map (·.literal) =
      (signed none cs).map String.ofList := by
  induction fuel generalizing cs p with
  | zero =>
    obtain rfl := List.length_eq_zero_iff.1 (Nat.le_zero.1 hfuel)
    rfl
  | succ fuel ih =>
    obtain ⟨hsigned, hbehind⟩ := signed_skip h
    have hlength := length_skip .blank cs
    rw [← hsigned]
    cases hrest : (skip .blank cs).2 with
    | nil =>
      rw [tokensFrom_end hrest]
      rfl
    | cons c ds =>
      rw [hrest] at hbehind hlength
      rw [List.length_cons] at hlength
      have hholds := holds_scan hbehind
      have hscan := length_scan c ds
      rw [← scan_append c ds] at hbehind
      have huncommented : isUncommented none (scan c ds).2.2 = true := by
        rcases hholds.closed with hclosed | hempty
        · exact hclosed ▸ isUncommented_behind hbehind
        · rw [hempty]
          rfl
      have hothers := ih (by omega) huncommented
        ((p.advance (skip .blank cs).1).advance (scan c ds).2.1)
      rw [tokensFrom_token hrest, ← scan_append c ds, hholds.signed, List.map_append, ← hothers]
      by_cases hkind : (scan c ds).1 = .parameter <;> simp [hkind]

end Lexer

/-- In a text without comments and names in back quotes the parameters are what the signs outside
quotes start. -/
theorem parameters_eq {text : String} (h : Lexer.isUncommented none text.toList = true) :
    parameters text = (Lexer.signed none text.toList).map String.ofList :=
  Lexer.tokensFrom_signed (Nat.le_of_eq String.length_toList) h {}

end Jpql
