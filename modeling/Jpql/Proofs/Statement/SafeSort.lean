import Jpql.Proofs.Rendering.Lexemes
import Jpql.Proofs.Statement.Bare
import Jpql.Proofs.Token.Harmless

/-! Orders that bring no query text along. The property of an order that is not marked as a raw
expression is checked for blanks and punctuation only, while the query it goes into is read by a
lexer that classes characters by itself. Whatever passes the check is read as words, numbers, points
and characters without a meaning, so that nothing but a path stands in the order clause. -/

namespace Jpql

open Rendering Lexer

/-! ### The text of an item -/

namespace Order

/-- The path that an item sorts by. -/
def reference (o : Order) (root? : Option String) (known : List String) : String :=
  match root? with
  | some a => if needsQualifier o.property a known then a ++ "." ++ o.property else o.property
  | none => o.property

/-- What an item says of nulls. -/
def nullsWords (o : Order) : List String :=
  match o.nulls with
  | .native => []
  | .first => ["NULLS FIRST"]
  | .last => ["NULLS LAST"]

/-- What stands behind the expression of an item. -/
def ending (o : Order) : String := " ".intercalate (o.direction.keyword :: o.nullsWords)

/-- The direction, and where nulls go. -/
def endingLexemes (o : Order) : List Lexeme :=
  .word o.direction.keyword :: match o.nulls with
    | .native => []
    | .first => [.word "NULLS", .word "FIRST"]
    | .last => [.word "NULLS", .word "LAST"]

theorem spelled_ending (o : Order) : Spelled o.ending.toList o.endingLexemes := by
  have hphrase : o.endingLexemes = Lexeme.phrase o.ending := by
    unfold endingLexemes ending nullsWords
    cases o.direction <;> cases o.nulls <;> decide
  rw [hphrase]
  refine spelled_phrase ?_
  unfold ending nullsWords
  cases o.direction <;> cases o.nulls <;> decide

end Order

namespace Rendering

/-- Words behind a text, each behind a blank. -/
theorem foldl_words {ws : List String} (hws : ∀ w ∈ ws, w ≠ "" ∧ endsWithSpace w = false)
    {out : String} (hne : out ≠ "") (hend : endsWithSpace out = false) :
    (ws.map word).foldl (fun out s => renderInto (spaceEnded out) s) out =
      " ".intercalate (out :: ws) := by
  induction ws generalizing out with
  | nil => simp
  | cons w ws ih =>
    obtain ⟨⟨hw, hwend⟩, hws⟩ := List.forall_mem_cons.1 hws
    have hgap : spaceEnded out = out ++ " " := by rw [spaceEnded, hend]; rfl
    have hout : endsWithSpace (out ++ " " ++ w) = false := by
      rw [endsWithSpace_append _ hw, hwend]
    rw [List.map_cons, List.foldl_cons, renderInto_word, hgap,
      ih hws (by simp [String.append_eq_empty_iff, hw]) hout, String.intercalate_cons_cons]
    cases ws with
    | nil => simp
    | cons w' ws => simp [String.intercalate_cons_cons, String.append_assoc]

theorem render_words {r : Rendering} (hr : r.toTokens ≠ []) (hne : r.render ≠ "")
    (hend : endsWithSpace r.render = false) {ws : List String}
    (hws : ∀ w ∈ ws, w ≠ "" ∧ endsWithSpace w = false) :
    (spaced (r :: ws.map word)).render = " ".intercalate (r.render :: ws) := by
  rw [render, renderInto_spaced hr (by simp [word]) hne]
  exact foldl_words hws hne hend

end Rendering

namespace Order

theorem rendering_toItem (o : Order) (root? : Option String) (known : List String) :
    (o.toItem root? known).rendering = spaced ((o.toItem root? known).expr.rendering ::
      (o.direction.keyword :: o.nullsWords).map word) := by
  unfold OrderItem.rendering toItem nullsWords
  cases o.nulls <;> rfl

theorem words_ending (o : Order) :
    ∀ w ∈ o.direction.keyword :: o.nullsWords, w ≠ "" ∧ endsWithSpace w = false := by
  unfold nullsWords
  cases o.direction <;> cases o.nulls <;> decide

/-- The call that an item sorts by to ignore the case of texts. -/
theorem render_lower (reference : String) :
    (Expr.function "lower" [[.expr (.raw reference)]]).rendering.toTokens ≠ [] ∧
      (Expr.function "lower" [[.expr (.raw reference)]]).rendering.render =
        "lower(" ++ reference ++ ")" := by
  have htokens : (spaced [text reference]).toTokens ≠ [] := by simp [toTokens_spaced, text]
  have hexpr : (Expr.function "lower" [[.expr (.raw reference)]]).rendering =
      call "lower" (commaSeparated [spaced [text reference]]) := by
    simp [Expr.rendering, argumentRenderings, fragmentRenderings]
  have hargument : renderInto "lower(" (spaced [text reference]) = "lower(" ++ reference := by
    rw [renderInto_spaced (by simp [text]) (by simp)
      (by simp [String.append_eq_empty_iff])]
    simp
  rw [hexpr]
  refine ⟨by simp [call], ?_⟩
  rw [Rendering.render, renderInto_call, renderInto_commaSeparated htokens (by simp)]
  change renderInto "lower(" (spaced [text reference]) ++ ")" = _
  rw [hargument]

/-- An item is its path, maybe in a call, and the words behind it. -/
theorem render_toItem (o : Order) (root? : Option String) (known : List String)
    (hend : endsWithSpace (o.reference root? known) = false) :
    (o.toItem root? known).rendering.render =
      (if o.ignoreCase then "lower(" ++ o.reference root? known ++ ")"
        else o.reference root? known) ++ " " ++ o.ending := by
  rw [rendering_toItem]
  cases hcase : o.ignoreCase with
  | true =>
    have hexpr : (o.toItem root? known).expr =
        .function "lower" [[.expr (.raw (o.reference root? known))]] := by
      unfold toItem reference
      rw [hcase]
      rfl
    obtain ⟨htokens, htext⟩ := render_lower (o.reference root? known)
    rw [hexpr, render_words htokens (by simp [htext, String.append_eq_empty_iff])
      (by rw [htext, endsWithSpace_append _ (by decide)]; rfl) o.words_ending, htext,
      String.intercalate_cons_cons, ending]
    rfl
  | false =>
    have hexpr : (o.toItem root? known).expr = .raw (o.reference root? known) := by
      unfold toItem reference
      rw [hcase]
      rfl
    have htext : (Expr.raw (o.reference root? known)).rendering.render = o.reference root? known := by
      simp [Expr.rendering, Rendering.render]
    rw [hexpr, if_neg Bool.false_ne_true]
    by_cases hempty : o.reference root? known = ""
    · rw [hempty]
      unfold ending nullsWords
      cases o.direction <;> cases o.nulls <;> decide
    · rw [render_words (by simp [Expr.rendering, text]) (by rwa [htext]) (by rwa [htext])
        o.words_ending, htext, String.intercalate_cons_cons, ending]

/-! ### Safe orders -/

theorem all_isPathChar {o : Order} (hraw : o.rawExpression = false) (h : o.check = .ok ()) :
    ∀ c ∈ o.property.toList, isPathChar c = true := by
  unfold check at h
  rw [hraw] at h
  cases hp : o.hasPunctuation with
  | true =>
    rw [hp] at h
    cases h
  | false =>
    intro c hc
    rw [isPathChar, Bool.eq_false_iff.2 (List.any_eq_false.1 hp c hc)]
    rfl

/-- A path is a property by itself, or one behind an alias. -/
theorem reference_cases (o : Order) (root? : Option String) (known : List String) :
    o.reference root? known = o.property ∨
      ∃ a ∈ root?, o.reference root? known = a ++ "." ++ o.property := by
  cases root? with
  | none => exact .inl rfl
  | some a =>
    by_cases hq : needsQualifier o.property a known = true
    · exact .inr ⟨a, rfl, if_pos hq⟩
    · exact .inl (if_neg hq)

variable {o : Order} {root? : Option String} (known : List String)

theorem unspaced_reference (hproperty : ∀ c ∈ o.property.toList, isPathChar c = true) :
    endsWithSpace (o.reference root? known) = false := by
  have hblank (s : String) (hs : ∀ c ∈ s.toList, isPathChar c = true) :
      endsWithSpace s = false :=
    unspaced_of_notMem fun hmem => absurd (hs ' ' hmem) (by decide)
  rcases reference_cases o root? known with h | ⟨a, -, h⟩
  · rw [h]
    exact hblank _ hproperty
  · rw [h, String.append_assoc, endsWithSpace_append _ (by simp [String.append_eq_empty_iff])]
    refine hblank _ ?_
    simpa using ⟨by decide, hproperty⟩

/-- The path is read as harmless tokens, of which the alias is one. -/
theorem lexes_reference (hproperty : ∀ c ∈ o.property.toList, isPathChar c = true)
    (hroot : ∀ a ∈ root?, IsName a) {rest : List Char} {ls : List Lexeme} (hrest : Stops rest)
    (h : Lexes rest ls) : ∃ body, Lexes ((o.reference root? known).toList ++ rest) (body ++ ls) ∧
      (∀ l ∈ body, l.Harmless) ∧
      body.flatMap (·.literal.toList) = (o.reference root? known).toList := by
  rcases reference_cases o root? known with href | ⟨a, ha, href⟩
  · rw [href]
    exact lexes_front hrest h _ hproperty
  · rw [href]
    obtain ⟨body, hbody, hharmless, htext⟩ :=
      lexes_front hrest h ('.' :: o.property.toList) (List.forall_mem_cons.2 ⟨by decide, hproperty⟩)
    refine ⟨.word a :: body, ?_, List.forall_mem_cons.2 ⟨.inl ?_, hharmless⟩, ?_⟩
    · have hfront := lexes_name (hroot a ha) (endsName_point _) hbody
      simpa using hfront
    · unfold Lexeme.word
      split
      · exact List.mem_of_elem_eq_true rfl
      · exact List.mem_of_elem_eq_true rfl
    · rw [List.flatMap_cons, htext]
      simp [Lexeme.word]

/-- The item of an order that passes the check is read as a path, which may stand in a call of
`lower`, the direction, and where nulls go. The path consists of names, keywords, numbers, points and
characters without a meaning, whatever the property holds. -/
theorem safe_order_lexes (o : Order) (hraw : o.rawExpression = false) (hcheck : o.check = .ok ())
    (root? : Option String) (hroot : ∀ a ∈ root?, IsName a) (known : List String) :
    ∃ (ts : List Token) (place : Position) (body : List Lexeme),
      tokenize (o.toItem root? known).rendering.render = ts ++ [⟨.eof, "", place⟩] ∧
      ts.map Token.lexeme =
        (if o.ignoreCase then [Lexeme.word "lower", .punctuator "("] else []) ++ body ++
          (if o.ignoreCase then [Lexeme.punctuator ")"] else []) ++ o.endingLexemes ∧
      (∀ l ∈ body, l.Harmless) ∧
      body.flatMap (·.literal.toList) = (o.reference root? known).toList := by
  have hproperty := all_isPathChar hraw hcheck
  have hending : Lexes (' ' :: o.ending.toList) o.endingLexemes := o.spelled_ending.lexes.space
  have hlexes : ∃ body : List Lexeme, Lexes (o.toItem root? known).rendering.render.toList
      ((if o.ignoreCase then [Lexeme.word "lower", .punctuator "("] else []) ++ body ++
        (if o.ignoreCase then [Lexeme.punctuator ")"] else []) ++ o.endingLexemes) ∧
      (∀ l ∈ body, l.Harmless) ∧
      body.flatMap (·.literal.toList) = (o.reference root? known).toList := by
    rw [render_toItem o root? known (unspaced_reference known hproperty)]
    cases o.ignoreCase with
    | true =>
      have hclosed : Lexes (')' :: ' ' :: o.ending.toList) (.punctuator ")" :: o.endingLexemes) :=
        .punctuator (by decide) (by simp) hending
      obtain ⟨body, hbody, hharmless, htext⟩ :=
        lexes_reference known hproperty hroot (by simp [Stops]) hclosed
      refine ⟨body, ?_, hharmless, htext⟩
      have hopened := Lexes.punctuator (c := '(') (by decide) (by simp) hbody
      have hcall := spelled_word (w := "lower") (by decide) (by simp [Delimits, delimiters]) hopened
      simpa using hcall
    | false =>
      obtain ⟨body, hbody, hharmless, htext⟩ :=
        lexes_reference known hproperty hroot (by simp [Stops]) hending
      exact ⟨body, by simpa using hbody, hharmless, htext⟩
  obtain ⟨body, hbody, hharmless, htext⟩ := hlexes
  obtain ⟨ts, place, hts, hls⟩ := hbody.tokenize
  exact ⟨ts, place, body, hts, hls, hharmless, htext⟩

/-- A number with an exponent, a control character, letters beyond ASCII. -/
def oddOrder : Order :=
  { property := "1e5\x01é._x", direction := .desc, ignoreCase := true, nulls := .last }

theorem safe_order_lexes_odd :
    ∃ (ts : List Token) (place : Position) (body : List Lexeme),
      tokenize (oddOrder.toItem (some "u") ["v"]).rendering.render = ts ++ [⟨.eof, "", place⟩] ∧
      ts.map Token.lexeme = [Lexeme.word "lower", .punctuator "("] ++ body ++
        [Lexeme.punctuator ")"] ++ [Lexeme.word "desc", .word "NULLS", .word "LAST"] ∧
      (∀ l ∈ body, l.Harmless) ∧
      body.flatMap (·.literal.toList) = (oddOrder.reference (some "u") ["v"]).toList := by
  have hcheck : oddOrder.check = .ok () := by
    have hpunctuation : oddOrder.hasPunctuation = false := by decide +kernel
    rw [check, hpunctuation, Bool.and_false]
    rfl
  have hname : ∀ a ∈ some "u", IsName a := by
    rintro a ⟨⟩
    exact .word (by decide +kernel)
  exact safe_order_lexes oddOrder rfl hcheck (some "u") hname ["v"]

end Order

end Jpql
