import Jpql.Proofs.Grammar.Transcribing

/-! Expressions write what they were parsed from. -/

namespace Jpql.Grammar

open Jpql.Grammar.Parser
open Comparison (withoutQuery listWithoutQuery)
open Lexeme (ahead)
open Rendering

variable {α β : Type}

/-- Rules whose parsers take what their results write. -/
structure TranscribingRules (r : Rules) : Prop where
  expression (p : Precedence) : Transcribes Anything [] (r.expression p) fun e => [e.rendering]
  select : Transcribes Anything [] r.select fun q => [q.rendering]
  starts (p : Precedence) {s : Setting} (he : s.Ends) (v : Expr × List Token) :
    r.expression p s [] ≠ .ok v

section Expressions

variable {r : Rules} (hr : TranscribingRules r) {K : List Lexeme → Prop}

include hr

theorem transcribes_expressions :
    Transcribes K [] r.expressions fun es => separated (exprRenderings es) := by
  simp only [exprRenderings_eq]
  exact transcribes_commaList (hr.expression _)

theorem transcribes_parenthesizedQuery :
    Transcribes K [] (parenthesizedQuery r) fun q => [Rendering.parenthesized q.rendering] :=
  (transcribes_expectPunctuator "(").andThen fun _ => hr.select.andThen fun _ =>
    (transcribes_expectPunctuator ")").andThen fun _ => .pure (becomes_parenthesized _)

/-- Either a query stands in two parentheses, or nothing was taken yet. -/
theorem Transcribes.nestedQuery {before : List Rendering} {f : SelectStatement → Parser β}
    {p : Parser β} {out : β → List Rendering}
    (hf : ∀ q, Transcribes Anything (before ++ [Rendering.parenthesized q.rendering]) (f q) out)
    (hp : Transcribes K before p out) :
    Transcribes K before (nestedQuery? r >>= fun found => match found with
      | some q => f q
      | none => p) out := by
  intro s ts rest a he hw hs h
  obtain ⟨found, mid, hfound, hrun⟩ := bind_ok_iff.1 h
  obtain ⟨rfl, rfl⟩ | ⟨q, rfl, hq⟩ := nestedQuery?_cases hfound
  · exact hp he hw hs hrun
  · exact (transcribes_parenthesizedQuery hr).andThen (p := parenthesizedQuery r) hf he hw hs
      (bind_ok_iff.2 ⟨q, mid, hq, hrun⟩)

theorem transcribes_argumentFragment :
    Transcribes K [] (argumentFragment r) fun f => fragmentRenderings [f] := by
  refine .test (looks_atAnyKeyword _) (fun _ _ => present_of (g := fun l =>
    argumentWords.any l.isKeyword) rfl) ?_ ?_
  · exact .look looks_nextIsOpenParen fun _ => .ite
      (.advance (fun _ => id) fun _ => .pure (.refl _))
      ((hr.expression _).anywhere.andThen fun _ => .pure (.refl _))
  · exact .look looks_nextIsOpenParen fun _ => (hr.expression _).anywhere.andThen fun _ =>
      .pure (.refl _)

theorem transcribes_argument :
    Transcribes K [] (argument r) fun fs => [spaced (fragmentRenderings fs)] := by
  have hfragments : Transcribes K [] (manyWhile argumentGoesOn (argumentFragment r))
      fragmentRenderings := by
    refine (transcribes_manyWhile looks_argumentGoesOn (J := Anything) (fun _ _ _ => trivial)
      (transcribes_argumentFragment hr)).becoming fun fs => ?_
    induction fs with
    | nil => exact .refl _
    | cons f fs ih =>
      rw [List.flatMap_cons, show f :: fs = [f] ++ fs from rfl, fragmentRenderings_append]
      exact (Becomes.refl _).append ih
  refine hfragments.andThen fun fs => .iteOf (fun _ => .reject _) fun hne => .pure ?_
  obtain ⟨f, fs, rfl⟩ := List.exists_cons_of_ne_nil (by simpa using hne : fs ≠ [])
  cases f with
  | word w => exact becomes_spaced _ _
  | expr e => exact becomes_spaced _ _

theorem transcribes_argumentList (n : Nat) : Transcribes K [] (argumentList r n)
    fun as => separated (argumentRenderings as) ++ [text ")"] := by
  induction n generalizing K with
  | zero => exact .reject _
  | succ n ih =>
    refine (transcribes_argument hr).andThen fun a => .eatPunctuator (.pure (.refl _)) ?_
    refine (transcribes_expectPunctuator ",").andThen fun _ =>
      ih.andThenOf (argumentList_ne_nil n) fun as hne => .pure ?_
    obtain ⟨b, bs, rfl⟩ := List.exists_cons_of_ne_nil hne.1
    simp only [argumentRenderings, separated, List.flatMap_cons]
    exact .refl _

theorem transcribes_functionCall :
    Transcribes Present [] (functionCall r) fun e => [e.rendering] := by
  refine .look looks_dialect fun d => .current fun _ _ _ => .ite (.reject _) ?_
  refine .advance (fun _ h => h.1) fun name => (transcribes_expectPunctuator "(").andThen fun _ => ?_
  have hcall (as : List (List Fragment)) :
      Becomes ([word name] ++ [text "("] ++ (separated (argumentRenderings as) ++ [text ")"]))
        [(Expr.function name as).rendering] := by
    rw [Expr.rendering]
    exact ((becomes_text name).append (.refl _)).trans (becomes_call name _)
  refine .eatPunctuator (.pure (hcall [])) ?_
  exact (Transcribes.bounded fun n => transcribes_argumentList hr (n + 1)).andThen fun as =>
    .pure (hcall as)

theorem transcribes_withoutQuery :
    Transcribes K [] (withoutQuery r) fun e => [e.rendering] := by
  refine (transcribes_expectPunctuator "(").andThen fun _ => .look (looks_atAnyKeyword _) fun _ =>
    .ite ?_ ?_
  · refine hr.select.andThen fun q => (transcribes_expectPunctuator ")").andThen fun _ => .pure ?_
    rw [Expr.rendering]
    exact becomes_parenthesized _
  · refine (hr.expression _).andThen fun first => .look (looks_atPunctuator ",") fun _ => .ite ?_ ?_
    · refine (transcribes_commaTail (hr.expression _)).andThen fun es =>
        (transcribes_expectPunctuator ")").andThen fun _ => .pure ?_
      have hlist := becomes_list (exprRenderings (first :: es))
      rw [exprRenderings_eq, List.map_cons, separated, List.flatMap_map] at hlist
      rw [Expr.rendering, exprRenderings_eq]
      exact hlist
    · refine (transcribes_expectPunctuator ")").andThen fun _ => .pure ?_
      rw [Expr.rendering]
      exact becomes_parenthesized _

theorem transcribes_parenthesized :
    Transcribes K [] (parenthesized r) fun e => [e.rendering] := by
  refine .nestedQuery hr (fun q => .pure ?_) (transcribes_withoutQuery hr)
  rw [Expr.rendering]
  exact .refl _

omit hr in
theorem transcribes_braceLiteral :
    Transcribes (fun ls => K ls ∧ ahead 0 ls = .punctuator openBrace) [] braceLiteral
      fun e => [e.rendering] := by
  have htest : Looks (do return !((← atPunctuator closeBrace) || (← atEnd))) fun _ ls =>
      !((ahead 0 ls).isPunctuator closeBrace || ls.isEmpty) :=
    (looks_atPunctuator closeBrace).bind fun _ => looks_atEnd.bind fun _ => .pure _
  refine .advanceOf (by decide) ((transcribes_skip htest).andThen fun parts =>
    (transcribes_expectPunctuator closeBrace).andThen fun _ => .pure ?_)
  rw [Expr.rendering]
  exact ((becomes_text openBrace).append (.refl (parts.map word ++ [text closeBrace]))).trans
    (becomes_braces parts)

theorem transcribes_whenBranch :
    Transcribes Present [] (whenBranch r) fun b => branchRenderings [b] :=
  .advance (fun _ => id) fun _ => (hr.expression _).andThen fun _ =>
    (transcribes_expectKeyword _).andThen fun _ => (hr.expression _).andThen fun _ =>
      .pure (.refl _)

theorem transcribes_caseExpr : Transcribes Present [] (caseExpr r) fun e => [e.rendering] := by
  refine .advance (fun _ => id) fun keyword => .look (looks_atKeyword "WHEN") fun _ => ?_
  extract_lets behindOperand
  have hrest : ∀ operand : Option Expr, Transcribes Anything ([word keyword] ++ optionalRendering operand)
      (behindOperand operand) fun e => [e.rendering] := by
    intro operand
    have hwhens : Transcribes Anything [] (manyWhile (atKeyword "WHEN") (whenBranch r))
        branchRenderings := by
      refine (transcribes_manyWhile (looks_atKeyword "WHEN") (fun _ => present_of_isKeyword)
        (transcribes_whenBranch hr)).becoming fun bs => ?_
      induction bs with
      | nil => exact .refl _
      | cons b bs ih =>
        rw [List.flatMap_cons, show b :: bs = [b] ++ bs from rfl, branchRenderings_append]
        exact (Becomes.refl _).append ih
    have hend (whens otherwise : List CaseBranch) : Transcribes Anything
        ([word keyword] ++ optionalRendering operand ++ branchRenderings whens ++
          branchRenderings otherwise)
        (expectKeyword "END" >>= fun endWord =>
          pure (Expr.caseOf keyword operand (whens ++ otherwise) endWord)) fun e => [e.rendering] := by
      refine (transcribes_expectKeyword "END").andThen fun endWord => .pure ?_
      rw [Expr.rendering, branchRenderings_append]
      simpa using becomes_spaced (word keyword) (optionalRendering operand ++
        (branchRenderings whens ++ (branchRenderings otherwise ++ [word endWord])))
    refine hwhens.andThen fun whens => .ite (.reject _) ?_
    refine (transcribes_eatKeyword "ELSE").andThen fun found => ?_
    cases found with
    | some elseWord =>
      refine (hr.expression _).andThen fun result => .pureBind (.after ?_ (hend whens _))
      rw [branchRenderings, branchRenderings, List.append_assoc]
      exact .refl _
    | none =>
      refine .pureBind (.after ?_ (hend whens []))
      rw [branchRenderings]
      exact .refl _
  refine .ite (.pureBind (.after ?_ (hrest none))) ?_
  · rw [optionalRendering]
    exact .refl _
  · exact ((hr.expression _).map some fun _ => .refl _).andThen hrest

theorem transcribes_constructorCall :
    Transcribes Present [] (constructorCall r) fun e => [e.rendering] := by
  refine .advance (fun _ => id) fun newWord => transcribes_qualifiedName.andThen fun name =>
    (transcribes_expectPunctuator "(").andThen fun _ => (transcribes_expressions hr).andThen fun es =>
      (transcribes_expectPunctuator ")").andThen fun _ => .pure ?_
  rw [Expr.rendering]
  have hcall := becomes_call name (exprRenderings es)
  refine Becomes.trans ?_ (becomes_spaced _ _)
  exact hcall.cons (word newWord)

omit hr in
theorem becomes_unary {op : String} (hop : op ≠ "-" ∧ op ≠ "+") (e : Expr) :
    Becomes [word op, e.rendering] [(Expr.unary op e).rendering] := by
  have hsign : (op == "-" || op == "+") = false := by simp [hop.1, hop.2]
  rw [Expr.rendering, hsign, if_neg Bool.false_ne_true]
  exact becomes_spaced _ _

omit hr in
theorem becomes_sign {op : String} (hop : (op == "-" || op == "+") = true) (e : Expr) :
    Becomes [word op, e.rendering] [(Expr.unary op e).rendering] := by
  rw [Expr.rendering, hop, if_pos rfl]
  exact ((becomes_text op).append (.refl [e.rendering])).trans
    (becomes_signed (by simpa using hop) e.rendering)

omit hr in
theorem literal_ne_of_isKeyword {kind : TokenKind} {literal w : String} {place : Position}
    (h : Token.isKeyword ⟨kind, literal, place⟩ w = true) (hw : eqIgnoringCase "-" w = false)
    (hw' : eqIgnoringCase "+" w = false) : literal ≠ "-" ∧ literal ≠ "+" := by
  have hword : eqIgnoringCase literal w = true := (Bool.and_eq_true_iff.1 h).2
  refine ⟨?_, ?_⟩
  · rintro rfl
    exact absurd hword (by simp [hw])
  · rintro rfl
    exact absurd hword (by simp [hw'])

theorem transcribes_keywordOperand : Transcribes (fun ls => K ls ∧ Present ls) [] (keywordOperand r)
    fun e => [e.rendering] := by
  have hliteral {literal : String} : Becomes [word literal] [(Expr.literal literal).rendering] := by
    rw [Expr.rendering]
    exact becomes_text _
  refine .current fun kind literal place => ?_
  have hpresent (ls : List Lexeme) (h : (K ls ∧ Present ls) ∧ ahead 0 ls = ⟨kind, literal⟩) :
      Present ls := h.1.2
  have hunsigned (hliteral : literal ≠ "-" ∧ literal ≠ "+") (ls : List Lexeme)
      (h : (K ls ∧ Present ls) ∧ ahead 0 ls = ⟨kind, literal⟩) :
      Present ls ∧ ((ahead 0 ls).literal ≠ "-" ∧ (ahead 0 ls).literal ≠ "+") := by
    rw [h.2]
    exact ⟨h.1.2, hliteral⟩
  refine .iteOf (fun hnot => ?_) fun _ => .iteOf (fun hexists => ?_) fun _ => ?_
  · refine .advanceIf (P := fun w => w ≠ "-" ∧ w ≠ "+") (hunsigned (literal_ne_of_isKeyword hnot (by decide) (by decide))) fun op hop => ?_
    exact (hr.expression _).andThen fun e => .pure (becomes_unary hop e)
  · refine .advanceIf (P := fun w => w ≠ "-" ∧ w ≠ "+") (hunsigned (literal_ne_of_isKeyword hexists (by decide) (by decide)))
      fun op hop => .look (looks_atPunctuator "(") fun _ => .ite ?_ (.reject _)
    exact (transcribes_parenthesized hr).andThen fun e => .pure (becomes_unary hop e)
  refine .ite (.advance hpresent fun _ => .pure hliteral) ?_
  refine .ite ((transcribes_caseExpr hr).mono hpresent) ?_
  refine .ite ((transcribes_constructorCall hr).mono hpresent) ?_
  refine .look looks_nextIsOpenParen fun _ => .ite ?_ ?_
  · refine .advance hpresent fun keyword => (transcribes_parenthesizedQuery hr).andThen fun q =>
      .pure ?_
    rw [Expr.rendering]
    exact becomes_spaced _ _
  · exact .look looks_nextIsOpenParen fun _ =>
      .ite ((transcribes_functionCall hr).mono hpresent) (.reject _)

theorem transcribes_operand : Transcribes K [] (operand r) fun e => [e.rendering] := by
  refine .current fun kind literal place => ?_
  have hpresent (heof : kind ≠ .eof) (ls : List Lexeme) (h : K ls ∧ ahead 0 ls = ⟨kind, literal⟩) :
      Present ls := by
    rintro rfl
    exact heof (congrArg Lexeme.kind h.2).symm
  cases kind with
  | parameter =>
    refine .advance (hpresent (by decide)) fun w => .pure ?_
    rw [Expr.rendering]
    exact becomes_text w
  | string | integer | decimal =>
    refine .advance (hpresent (by decide)) fun w => .pure ?_
    rw [Expr.rendering]
    exact becomes_text w
  | operator =>
    have hoperator (literal : String) : (⟨.operator, literal⟩ : Lexeme) ≠ .eof := fun h =>
      absurd (congrArg Lexeme.kind h) (show TokenKind.operator ≠ .eof by decide)
    refine .iteOf (fun hsign => ?_) fun _ => .iteOf (fun hstar => ?_) fun _ => .reject _
    · exact .advanceOf (hoperator _) ((hr.expression _).andThen fun e => .pure (becomes_sign hsign e))
    · obtain rfl : literal = "*" := eq_of_beq hstar
      refine .advanceOf (hoperator _) (.pure ?_)
      rw [Expr.rendering]
      exact becomes_text "*"
  | identifier =>
    refine .look looks_nextIsOpenParen fun _ => .ite ?_ ?_
    · exact (transcribes_functionCall hr).mono (hpresent (by decide))
    · refine (transcribes_dotted (g := Expr.path) fun ws => ?_).mono fun ls h => ?_
      · rw [Expr.rendering]
      · rw [h.2]
        rfl
  | punctuator =>
    refine .iteOf (fun _ => transcribes_parenthesized hr) fun _ =>
      .iteOf (fun hbrace => ?_) fun _ => .reject _
    obtain rfl : literal = openBrace := eq_of_beq hbrace
    exact transcribes_braceLiteral
  | keyword =>
    exact (transcribes_keywordOperand hr).mono fun ls h => ⟨h, hpresent (by decide) ls h⟩
  | eof => exact .reject _
  | illegal => exact .reject _

/-! ### Operators -/

variable (left : Expr)

omit hr in
theorem optionalWord_toList (o : Option String) :
    Rendering.optionalWord o = o.toList.map word := by
  cases o <;> rfl

theorem transcribes_isTest :
    Transcribes Present [left.rendering] (isTest r left) fun e => [e.rendering] := by
  refine .advance (fun _ => id) fun isWord => (transcribes_eatKeyword "NOT").andThen fun notWord =>
    (transcribes_eatKeyword "DISTINCT").andThen fun found => ?_
  have hwords (more : List String) : Becomes
      ([left.rendering] ++ ([word isWord] ++ Rendering.optionalWord notWord ++ more.map word))
      [left.rendering, word (" ".intercalate (isWord :: notWord.toList ++ more))] := by
    have hjoined := becomes_words (List.cons_ne_nil isWord (notWord.toList ++ more))
    rw [optionalWord_toList]
    refine .cons left.rendering ?_
    simpa using hjoined
  cases found with
  | some distinct =>
    refine (transcribes_expectKeyword "FROM").andThen fun fromWord =>
      (hr.expression _).andThen fun right => .pure ?_
    rw [Expr.rendering]
    have hjoined := (hwords [distinct, fromWord]).append (.refl [right.rendering])
    refine Becomes.trans ?_ (becomes_spaced _ _)
    simpa [optionalRendering, Rendering.optionalWord] using hjoined
  | none =>
    refine (transcribes_eatAnyKeyword _).andThen fun found => ?_
    cases found with
    | none => exact .rejectBind _
    | some w =>
      refine .pure ?_
      rw [Expr.rendering]
      refine Becomes.trans ?_ (becomes_spaced _ _)
      simpa [optionalRendering, Rendering.optionalWord] using hwords [w]

theorem transcribes_likeTest (words : String) :
    Transcribes K [left.rendering, word words] (likeTest r left words) fun e => [e.rendering] := by
  refine (hr.expression _).anywhere.andThen fun pattern => (transcribes_eatKeyword "ESCAPE").andThen
    fun found => ?_
  cases found with
  | some escapeWord =>
    refine (transcribes_operand hr).andThen fun e => .pure ?_
    rw [Expr.rendering]
    exact becomes_spaced _ _
  | none =>
    refine .pure ?_
    rw [Expr.rendering]
    exact becomes_spaced _ _

omit hr in
theorem becomes_inQuery (words : String) (q : SelectStatement) :
    Becomes [left.rendering, word words, Rendering.parenthesized q.rendering]
      [(Expr.inQuery left words q).rendering] := by
  rw [Expr.rendering]
  exact becomes_spaced _ _

theorem transcribes_listWithoutQuery (words : String) :
    Transcribes AtOpenParen [left.rendering, word words] (listWithoutQuery r left words)
      fun e => [e.rendering] := by
  have hvalues (es : List Expr) : Becomes
      ([left.rendering, word words] ++ (text "(" :: separated (exprRenderings es) ++ [text ")"]))
      [(Expr.inValues left words es).rendering] := by
    rw [Expr.rendering]
    exact ((Becomes.refl [left.rendering, word words]).append (becomes_list _)).trans
      (becomes_spaced _ _)
  rw [listWithoutQuery_eq]
  refine .look (looks_peekAt 1 fun l => ["SELECT", "WITH"].any l.isKeyword) fun _ => .ite ?_ ?_
  · exact (transcribes_parenthesizedQuery hr).andThen fun q => .pure (becomes_inQuery left words q)
  refine .advanceIf (P := (· = "(")) (fun ls h => ⟨present_of (g := (·.isPunctuator "(")) rfl h,
    eq_of_beq (Bool.and_eq_true_iff.1 h).2⟩) ?_
  rintro _ rfl
  refine .after ((Becomes.refl _).append (becomes_text "(")) (.eatPunctuator (.pure ?_) ?_)
  · simpa [exprRenderings, separated] using hvalues []
  · refine (transcribes_expressions hr).andThen fun es =>
      (transcribes_expectPunctuator ")").andThen fun _ => .pure ?_
    simpa using hvalues es

theorem transcribes_inTest (words : String) :
    Transcribes K [left.rendering, word words] (inTest r left words) fun e => [e.rendering] := by
  refine .test (J := AtOpenParen) (looks_atPunctuator "(") (fun _ _ => id) ?_ ?_
  · exact .nestedQuery hr (fun q => .pure (becomes_inQuery left words q))
      (transcribes_listWithoutQuery hr left words)
  · refine (transcribes_operand hr).andThen fun e => .pure ?_
    rw [Expr.rendering]
    exact becomes_spaced _ _

theorem transcribes_betweenTest (words : String) :
    Transcribes K [left.rendering, word words] (betweenTest r left words)
      fun e => [e.rendering] := by
  refine (hr.expression _).anywhere.andThen fun low => (transcribes_expectKeyword "AND").andThen
    fun andWord => (hr.expression _).andThen fun high => .pure ?_
  rw [Expr.rendering]
  exact becomes_spaced _ _

theorem transcribes_memberTest {words : List String} (hwords : words ≠ []) :
    Transcribes K ([left.rendering] ++ words.map word) (memberTest r left words)
      fun e => [e.rendering] := by
  refine (transcribes_eatKeyword "OF").andThen fun ofWord => (hr.expression _).andThen
    fun collection => .pure ?_
  rw [Expr.rendering, optionalWord_toList]
  have hjoined : Becomes ((words ++ ofWord.toList).map word)
      [word (" ".intercalate (words ++ ofWord.toList))] := becomes_words (by simp [hwords])
  rw [List.map_append] at hjoined
  refine Becomes.trans ?_ (becomes_spaced _ _)
  simpa using ((hjoined.append (.refl [collection.rendering])).cons left.rendering)

/-- The tests that may be negated. -/
theorem transcribes_testBehind {words : List String} (hwords : words ≠ []) (w : String) :
    Transcribes K ([left.rendering] ++ words.map word) (testBehind r left words w)
      fun e => [e.rendering] := by
  have hjoined : Becomes ([left.rendering] ++ words.map word)
      [left.rendering, word (" ".intercalate words)] := (becomes_words hwords).cons left.rendering
  exact .ite (.after hjoined (transcribes_likeTest hr left _)) <|
    .ite (.after hjoined (transcribes_inTest hr left _)) <|
      .ite (.after hjoined (transcribes_betweenTest hr left _)) <|
        .ite (transcribes_memberTest hr left hwords) (.reject _)

theorem transcribes_extend (precedence : Precedence) : Transcribes Present [left.rendering]
    (extend r left precedence) fun e => [e.rendering] := by
  have hbehind (notWord : Option String) :
      Transcribes Anything ([left.rendering] ++ notWord.toList.map word)
        (current >>= fun t => advance >>= fun w =>
          testBehind r left (notWord.toList ++ [w]) t.literal) fun e => [e.rendering] := by
    refine .current fun kind literal _ => ?_
    cases htest : ["LIKE", "IN", "BETWEEN", "MEMBER"].any (eqIgnoringCase literal) with
    | true =>
      refine .advance (fun ls h => ?_) fun w => ?_
      · refine present_of (g := fun l => ["LIKE", "IN", "BETWEEN", "MEMBER"].any
          (eqIgnoringCase l.literal)) rfl ?_
        rw [h.2]
        exact htest
      · have hwords : notWord.toList ++ [w] ≠ [] := by simp
        have hrest := transcribes_testBehind (K := Anything) hr left hwords literal
        rwa [List.map_append, ← List.append_assoc] at hrest
    | false =>
      refine .of_fails fun s ts v h => ?_
      obtain ⟨w, rest, -, h⟩ := bind_ok_iff.1 h
      simp only [List.any_cons, List.any_nil, Bool.or_false, Bool.or_eq_false_iff] at htest
      obtain ⟨hlike, hin, hbetween, hmember⟩ := htest
      simp only [testBehind, hlike, hin, hbetween, hmember, Bool.false_eq_true, if_false] at h
      cases h
  refine .current fun kind literal _ => ?_
  refine .ite (.advance (fun _ h => h.1) fun op => (hr.expression _).andThen fun right => .pure ?_) ?_
  · rw [Expr.rendering]
    exact becomes_spaced _ _
  refine .ite ((transcribes_isTest hr left).mono fun _ h => h.1) ?_
  refine (transcribes_eatKeyword "NOT").andThen fun notWord => ?_
  rw [optionalWord_toList]
  exact hbehind notWord

theorem transcribes_extendWhile (precedence : Precedence) (n : Nat) :
    Transcribes K [left.rendering] (extendWhile r precedence left n) fun e => [e.rendering] := by
  induction n generalizing K left with
  | zero => exact .pure (.refl _)
  | succ n ih =>
    intro s ts rest e he hw hs h
    rw [extendWhile, bind_eq, looks_nextPrecedence he] at h
    dsimp only at h
    split at h
    next =>
      cases h
      exact ⟨[], rfl, fun ls hls => by simpa using hls⟩
    next hnext =>
      have hpresent : Present (ts.map Token.lexeme) := by
        intro hnil
        rw [hnil] at hnext
        exact hnext (Nat.zero_le _)
      exact (transcribes_extend hr left _).behind (fun longer => ih longer) he hw hpresent h

theorem transcribes_expression (precedence : Precedence) :
    Transcribes K [] (expression r precedence) fun e => [e.rendering] :=
  (transcribes_operand hr).andThen fun left =>
    .bounded fun n => transcribes_extendWhile hr left precedence n

end Expressions

end Jpql.Grammar
