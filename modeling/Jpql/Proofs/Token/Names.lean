import Jpql.Proofs.Token.Lexing

/-! Names in query texts. A name is a word, or a text in double quotes or backticks. Names with points
between them are read as they are written, since no name goes on at a point. -/

namespace Jpql.Lexer

/-- The text behind an opening quote, up to the quote that closes it. -/
inductive Closes (quote : Char) : List Char → Prop
  | close : Closes quote [quote]
  | doubled {cs : List Char} : Closes quote cs → Closes quote (quote :: quote :: cs)
  | other {c : Char} {cs : List Char} : c ≠ quote → Closes quote cs → Closes quote (c :: cs)

/-- The text is an identifier: a word, or a name in double quotes or backticks. -/
inductive IsName (name : String) : Prop
  | word : isWord name = true → IsName name
  | quoted {quote : Char} {cs : List Char} : quote = '"' ∨ quote.toNat = 0x60 →
      name.toList = quote :: cs → Closes quote cs → IsName name

theorem Closes.ne_nil {quote : Char} {cs : List Char} (h : Closes quote cs) : cs ≠ [] := by
  cases h <;> exact List.cons_ne_nil _ _

theorem Closes.getLast? {quote : Char} {cs : List Char} (h : Closes quote cs) :
    cs.getLast? = some quote := by
  induction h with
  | close => rfl
  | doubled h ih => simp [List.getLast?_cons, ih]
  | other _ h ih => simp [List.getLast?_cons, ih]

theorem quotedBody_closes {quote : Char} {cs rest : List Char} (h : Closes quote cs)
    (hrest : startsWith (· == quote) rest = false) : quotedBody quote (cs ++ rest) = (cs, rest) := by
  induction h with
  | close =>
    cases rest with
    | nil => rfl
    | cons d rest =>
      have hd : (d == quote) = false := hrest
      simp [quotedBody, hd]
  | doubled _ ih => simp [quotedBody, ih]
  | @other c cs hc h ih =>
    obtain ⟨d, ds, rfl⟩ := List.exists_cons_of_ne_nil h.ne_nil
    simp only [List.cons_append] at ih ⊢
    simp [quotedBody, hc, ih]

/-- The quotes that names stand in. -/
def isNameQuote (c : Char) : Bool := c == '"' || c.toNat == 0x60

theorem eq_of_isNameQuote {c : Char} (h : isNameQuote c = true) : c = '"' ∨ c = Char.ofNat 0x60 := by
  rcases Bool.or_eq_true_iff.1 h with h | h
  · exact .inl (eq_of_beq h)
  · exact .inr (by rw [← eq_of_beq h, Char.ofNat_toNat])

/-- No name goes on here. -/
structure EndsName (rest : List Char) : Prop where
  word : startsWith isIdentifierPart rest = false
  quoted : startsWith isNameQuote rest = false

theorem Delimits.endsName {rest : List Char} (h : Delimits rest) : EndsName rest :=
  ⟨h.startsWith (by decide), h.startsWith (by decide)⟩

theorem endsName_point (rest : List Char) : EndsName ('.' :: rest) := by
  have hpoint : isIdentifierPart '.' = false := by decide
  exact ⟨hpoint, rfl⟩

variable {name : String} {quote : Char} {cs rest : List Char} {ls : List Lexeme}

/-- No keyword stands in quotes. -/
theorem isReserved_quoted (hquote : isNameQuote quote = true) (hname : name.toList = quote :: cs) :
    isReserved name = false := by
  have hall : ∀ k ∈ reservedKeywords, (k.toList.map Char.toLower).head? ≠ some '"' ∧
      (k.toList.map Char.toLower).head? ≠ some (Char.ofNat 0x60) := by decide
  refine List.any_eq_false.2 fun k hk heq => ?_
  have hhead : (k.toList.map Char.toLower).head? = some quote.toLower := by
    rw [← eq_of_beq heq, hname]
    rfl
  rcases eq_of_isNameQuote hquote with rfl | rfl
  · exact (hall k hk).1 hhead
  · exact (hall k hk).2 hhead

theorem scan_name (hquote : isNameQuote quote = true) (cs : List Char) :
    scan quote cs = (.identifier, quote :: (quotedBody quote cs).1, (quotedBody quote cs).2) := by
  rcases eq_of_isNameQuote hquote with rfl | rfl
  · rfl
  · rfl

theorem startsToken_of_isNameQuote (hquote : isNameQuote quote = true) (cs : List Char) :
    StartsToken quote cs := by
  rcases eq_of_isNameQuote hquote with rfl | rfl
  · exact ⟨by decide, by simp, by simp⟩
  · exact ⟨by decide, by simp, by simp⟩

/-- A name is read as one token wherever it does not go on. -/
theorem lexes_name (h : IsName name) (hrest : EndsName rest) (hls : Lexes rest ls) :
    Lexes (name.toList ++ rest) (.word name :: ls) := by
  cases h with
  | word h => exact lexes_word h hrest.word hls
  | @quoted quote cs hquote hname hcs =>
    have hquote : isNameQuote quote = true := by simpa [isNameQuote] using hquote
    have hbody : quotedBody quote (cs ++ rest) = (cs, rest) := by
      refine quotedBody_closes hcs ?_
      cases rest with
      | nil => rfl
      | cons d rest =>
        refine beq_eq_false_iff_ne.2 fun hd => ?_
        have hstop := hrest.quoted
        rw [hd, startsWith, hquote] at hstop
        cases hstop
    have hscan := scan_name hquote (cs ++ rest)
    rw [hbody] at hscan
    have hlexeme : Lexeme.word name = ⟨.identifier, String.ofList (quote :: cs)⟩ := by
      rw [Lexeme.word, isReserved_quoted hquote hname, ← hname, String.ofList_toList]
      rfl
    rw [hname, hlexeme]
    exact .scanned (startsToken_of_isNameQuote hquote _) hscan hls

theorem spelled_name (h : IsName name) : Spelled name.toList [.word name] :=
  fun _ _ hrest hls => lexes_name h hrest.endsName hls

theorem IsName.startsWith_isDigit (h : IsName name) (rest : List Char) :
    startsWith Char.isDigit (name.toList ++ rest) = false := by
  cases h with
  | word h =>
    obtain ⟨c, cs, hw, hc, -⟩ := exists_of_isWord h
    rw [hw]
    exact isDigit_of_isIdentifierStart hc
  | @quoted quote cs hquote hname =>
    have hquote : isNameQuote quote = true := by simpa [isNameQuote] using hquote
    rw [hname]
    rcases eq_of_isNameQuote hquote with rfl | rfl
    · rfl
    · rfl

theorem spelled_dotted {first : String} {names : List String} (hfirst : IsName first)
    (hnames : ∀ n ∈ names, IsName n) :
    Spelled (".".intercalate (first :: names)).toList (Lexeme.dotted first names) := by
  induction names generalizing first with
  | nil => simpa [Lexeme.dotted] using spelled_name hfirst
  | cons n names ih =>
    obtain ⟨hn, hnames⟩ := List.forall_mem_cons.1 hnames
    intro rest ls hrest hls
    have htext : (".".intercalate (first :: n :: names)).toList ++ rest =
        first.toList ++ '.' :: ((".".intercalate (n :: names)).toList ++ rest) := by
      simp [String.intercalate_cons_cons]
    have hdigit : startsWith Char.isDigit ((".".intercalate (n :: names)).toList ++ rest) = false := by
      cases names with
      | nil => simpa using hn.startsWith_isDigit rest
      | cons m names =>
        simpa [String.intercalate_cons_cons] using
          hn.startsWith_isDigit ('.' :: ((".".intercalate (m :: names)).toList ++ rest))
    rw [htext]
    exact lexes_name hfirst (endsName_point _) <|
      .punctuator (by decide) (fun _ => hdigit) (ih hn hnames hrest hls)

end Jpql.Lexer
