import Jpql.Grammar

/-! Two ways of parsing compared. A comparison says which dialects and modes are set against each
other, and what the outcomes of a parser have in common under the two. If that passes from step to
step, it holds for all rules of the grammar, up to the two places where a query may stand behind two
opening parentheses: only there a parser looks at the mode. -/

namespace Jpql.Grammar

open Jpql.Grammar.Parser

variable {α β : Type}

/-- What a parser comes to: a result with the tokens that are left, or a failure. -/
abbrev Outcome (α : Type) := Except Failure (α × List Token)

/-- The outcome of a parser that goes on behind another. -/
def Outcome.andThen (x : Outcome α) (f : α → List Token → Outcome β) : Outcome β :=
  match x with
  | .ok (a, rest) => f a rest
  | .error e => .error e

structure Comparison where
  Dialects : Dialect → Dialect → Prop
  Modes : Mode → Mode → Prop
  Rel : {α : Type} → Outcome α → Outcome α → Prop
  missingSelect : ∀ {d e}, Dialects d e → d.allowsMissingSelect = e.allowsMissingSelect
  paging : ∀ {d e}, Dialects d e → d.allowsPaging = e.allowsPaging
  accepts : ∀ {d e name}, Dialects d e → d.acceptsFunction name = true →
    e.acceptsFunction name = true
  /-- The second dialect may know functions that the first rejects. -/
  rejects : ∀ {d e name}, Dialects d e → d.acceptsFunction name = false →
    e.acceptsFunction name = true → ∀ {α : Type} (f : Failure) (y : Outcome α), Rel (.error f) y
  same : ∀ {α : Type} {x : Outcome α}, x ≠ .error .undecided → Rel x x
  andThen : ∀ {α β : Type} {x y : Outcome α} {f g : α → List Token → Outcome β}, Rel x y →
    (∀ a rest, Rel (f a rest) (g a rest)) → Rel (x.andThen f) (y.andThen g)

namespace Comparison

variable {c : Comparison}

/-- Settings in which the same tokens are parsed in the two ways. -/
structure Pair (c : Comparison) (s t : Setting) : Prop where
  eof : s.eof = t.eof
  dialects : c.Dialects s.dialect t.dialect
  modes : c.Modes s.mode t.mode

/-- The first parser in the one way and the second in the other have related outcomes. -/
def Related (c : Comparison) (p q : Parser α) : Prop :=
  ∀ ⦃s t : Setting⦄, c.Pair s t → ∀ ts : List Token, c.Rel (p s ts) (q t ts)

abbrev Keeps (c : Comparison) (p : Parser α) : Prop := c.Related p p

namespace Related

/-- A parser that asks for nothing but the end of the text. -/
theorem of_blind {p : Parser α} (hp : ∀ s t ts, s.eof = t.eof → p s ts = p t ts)
    (hd : ∀ s ts, p s ts ≠ .error .undecided) : c.Keeps p := by
  intro s t h ts
  rw [hp s t ts h.eof]
  exact c.same (hd t ts)

theorem pure (a : α) : c.Keeps (Pure.pure a : Parser α) :=
  of_blind (fun _ _ _ _ => rfl) fun _ _ => nofun

theorem bind {p q : Parser α} {f g : α → Parser β} (hp : c.Related p q)
    (hf : ∀ a, c.Related (f a) (g a)) : c.Related (p >>= f) (q >>= g) :=
  fun _ _ h ts => c.andThen (hp h ts) fun a rest => hf a h rest

theorem map {p q : Parser α} (hp : c.Related p q) (f : α → β) : c.Related (f <$> p) (f <$> q) :=
  hp.bind fun a => .pure (f a)

theorem ite {b : Prop} [Decidable b] {p p' q q' : Parser α} (hp : c.Related p p')
    (hq : c.Related q q') : c.Related (if b then p else q) (if b then p' else q') := by
  split
  · exact hp
  · exact hq

theorem bounded {p q : Nat → Parser α} (h : ∀ n, c.Related (p n) (q n)) :
    c.Related (Parser.bounded p) (Parser.bounded q) := fun _ _ hs ts => h ts.length hs ts

theorem dialect {f g : Dialect → Parser β} (h : ∀ d e, c.Dialects d e → c.Related (f d) (g e)) :
    c.Related (Grammar.dialect >>= f) (Grammar.dialect >>= g) :=
  fun s t hs ts => h s.dialect t.dialect hs.dialects hs ts

end Related

/-! ### Single tokens -/

theorem keeps_peekAt (n : Nat) : c.Keeps (peekAt n) :=
  .of_blind (fun _ _ _ h => by simp only [peekAt, h]) (fun _ _ => nofun)

theorem keeps_current : c.Keeps current := keeps_peekAt 0

theorem keeps_peek : c.Keeps peek := keeps_peekAt 1

theorem keeps_atEnd : c.Keeps atEnd := .of_blind (fun _ _ _ _ => rfl) (fun _ _ => nofun)

theorem keeps_atKeyword (k : String) : c.Keeps (atKeyword k) := keeps_current.bind fun _ => .pure _

theorem keeps_atAnyKeyword (ks : List String) : c.Keeps (atAnyKeyword ks) :=
  keeps_current.bind fun _ => .pure _

theorem keeps_atWord (w : String) : c.Keeps (atWord w) := keeps_current.bind fun _ => .pure _

theorem keeps_atPunctuator (p : String) : c.Keeps (atPunctuator p) :=
  keeps_current.bind fun _ => .pure _

theorem keeps_nextIsOpenParen : c.Keeps nextIsOpenParen := keeps_peek.bind fun _ => .pure _

theorem keeps_reject (cause : Rejection) : c.Keeps (reject cause : Parser α) :=
  .of_blind (fun _ _ _ h => by simp only [reject, h]) (fun _ _ => nofun)

theorem keeps_mismatched (e : String) : c.Keeps (mismatched e : Parser α) := keeps_reject _

theorem keeps_noAlternative : c.Keeps (noAlternative : Parser α) := keeps_reject _

theorem keeps_advance : c.Keeps advance :=
  .of_blind (fun _ _ _ h => by simp only [advance, h]) (fun _ _ => nofun)

theorem keeps_eatIf (b : Bool) : c.Keeps (eatIf b) :=
  .ite (keeps_advance.bind fun _ => .pure _) (.pure _)

theorem keeps_eatKeyword (k : String) : c.Keeps (eatKeyword k) :=
  (keeps_atKeyword k).bind keeps_eatIf

theorem keeps_eatWord (w : String) : c.Keeps (eatWord w) := (keeps_atWord w).bind keeps_eatIf

theorem keeps_eatPunctuator (p : String) : c.Keeps (eatPunctuator p) :=
  (keeps_atPunctuator p).bind fun b => (keeps_eatIf b).bind fun _ => .pure _

theorem keeps_eatAnyKeyword (ks : List String) : c.Keeps (eatAnyKeyword ks) := by
  induction ks with
  | nil => exact .pure _
  | cons k ks ih =>
    refine (keeps_eatKeyword k).bind fun found => ?_
    cases found with
    | some w => exact .pure _
    | none => exact ih

theorem keeps_eatAnyWord (ks : List String) : c.Keeps (eatAnyWord ks) := by
  induction ks with
  | nil => exact .pure _
  | cons k ks ih =>
    refine (keeps_eatWord k).bind fun found => ?_
    cases found with
    | some w => exact .pure _
    | none => exact ih

theorem keeps_orMismatched (e : String) : ∀ found, c.Keeps (orMismatched e found)
  | some _ => .pure _
  | none => keeps_mismatched e

theorem keeps_expectKeyword (k : String) : c.Keeps (expectKeyword k) :=
  (keeps_eatKeyword k).bind (keeps_orMismatched k)

theorem keeps_expectWord (w : String) : c.Keeps (expectWord w) :=
  (keeps_eatWord w).bind (keeps_orMismatched w)

theorem keeps_expectPunctuator (p : String) : c.Keeps (expectPunctuator p) :=
  (keeps_eatPunctuator p).bind fun _ => .ite (.pure _) (keeps_mismatched _)

theorem keeps_expectPair (a b : String) : c.Keeps (expectPair a b) :=
  (keeps_expectKeyword a).bind fun _ => (keeps_expectKeyword b).bind fun _ => .pure _

theorem keeps_expectName : c.Keeps expectName :=
  keeps_current.bind fun _ => .ite keeps_advance (keeps_mismatched _)

/-! ### Repetitions -/

theorem keeps_commaTail {item : Parser α} (hi : c.Keeps item) (n : Nat) :
    c.Keeps (commaTail item n) := by
  induction n with
  | zero => exact .pure _
  | succ n ih =>
    exact (keeps_eatPunctuator ",").bind fun _ =>
      .ite (hi.bind fun _ => ih.bind fun _ => .pure _) (.pure _)

theorem keeps_commaList {item : Parser α} (hi : c.Keeps item) : c.Keeps (commaList item) :=
  hi.bind fun _ => (Related.bounded (keeps_commaTail hi)).bind fun _ => .pure _

theorem keeps_itemsWhile {test : Parser Bool} {item : Parser α} (ht : c.Keeps test)
    (hi : c.Keeps item) (n : Nat) : c.Keeps (itemsWhile test item n) := by
  induction n with
  | zero => exact .pure _
  | succ n ih =>
    exact ht.bind fun _ => .ite (hi.bind fun _ => ih.bind fun _ => .pure _) (.pure _)

theorem keeps_manyWhile {test : Parser Bool} {item : Parser α} (ht : c.Keeps test)
    (hi : c.Keeps item) : c.Keeps (manyWhile test item) := .bounded (keeps_itemsWhile ht hi)

theorem keeps_atPathStep : c.Keeps atPathStep :=
  keeps_current.bind fun _ => keeps_peek.bind fun _ => .pure _

theorem keeps_pathSteps : c.Keeps pathSteps :=
  keeps_manyWhile keeps_atPathStep (keeps_advance.bind fun _ => keeps_advance)

theorem keeps_qualifiedName : c.Keeps qualifiedName :=
  keeps_expectName.bind fun _ => keeps_pathSteps.bind fun _ => .pure _

/-! ### Expressions -/

/-- The outcomes of the rules under related settings. -/
structure KeepsRules (c : Comparison) (r : Rules) : Prop where
  expression (p : Precedence) : c.Keeps (r.expression p)
  select : c.Keeps r.select

section Expressions

variable {r : Rules} (hr : c.KeepsRules r)

include hr

theorem keeps_expressions : c.Keeps r.expressions := keeps_commaList (hr.expression _)

theorem keeps_parenthesizedQuery : c.Keeps (parenthesizedQuery r) :=
  (keeps_expectPunctuator "(").bind fun _ => hr.select.bind fun _ =>
    (keeps_expectPunctuator ")").bind fun _ => .pure _

omit hr in
theorem keeps_nextPrecedence : c.Keeps nextPrecedence := by
  refine keeps_current.bind fun t => keeps_peek.bind fun next => ?_
  repeat' apply Related.ite
  all_goals exact .pure _

omit hr in
theorem keeps_pathExpr : c.Keeps pathExpr :=
  keeps_advance.bind fun _ => keeps_pathSteps.bind fun _ => .pure _

omit hr in
theorem keeps_argumentGoesOn : c.Keeps argumentGoesOn :=
  (keeps_atPunctuator ",").bind fun _ => (keeps_atPunctuator ")").bind fun _ =>
    keeps_atEnd.bind fun _ => .pure _

theorem keeps_argumentFragment : c.Keeps (argumentFragment r) :=
  (keeps_atAnyKeyword _).bind fun _ => keeps_nextIsOpenParen.bind fun _ =>
    .ite (keeps_advance.bind fun _ => .pure _) ((hr.expression _).bind fun _ => .pure _)

theorem keeps_argument : c.Keeps (argument r) :=
  (keeps_manyWhile keeps_argumentGoesOn (keeps_argumentFragment hr)).bind fun _ =>
    .ite (keeps_mismatched _) (.pure _)

theorem keeps_argumentList (n : Nat) : c.Keeps (argumentList r n) := by
  induction n with
  | zero => exact keeps_noAlternative
  | succ n ih =>
    exact (keeps_argument hr).bind fun _ => (keeps_eatPunctuator ")").bind fun _ =>
      .ite (.pure _) ((keeps_expectPunctuator ",").bind fun _ => ih.bind fun _ => .pure _)

theorem keeps_functionCall : c.Keeps (functionCall r) := by
  refine .dialect fun d e h => keeps_current.bind fun t => ?_
  cases hd : d.acceptsFunction t.literal with
  | true =>
    rw [c.accepts h hd]
    exact .ite keeps_noAlternative <| keeps_advance.bind fun _ =>
      (keeps_expectPunctuator "(").bind fun _ => (keeps_eatPunctuator ")").bind fun _ =>
        .ite (.pure _) <|
          (Related.bounded fun n => keeps_argumentList hr (n + 1)).bind fun _ => .pure _
  | false =>
    cases he : e.acceptsFunction t.literal with
    | true => exact fun _ _ _ _ => c.rejects h hd he _ _
    | false => exact keeps_noAlternative

/-- What `parenthesized` does where no query was found. -/
def withoutQuery (r : Rules) : Parser Expr := do
  expectPunctuator "("
  if ← atAnyKeyword ["SELECT", "WITH"] then
    let query ← r.select
    expectPunctuator ")"
    return .subquery query
  let first ← r.expression .lowest
  if ← atPunctuator "," then
    let rest ← bounded (commaTail (r.expression .lowest))
    expectPunctuator ")"
    return .tuple (first :: rest)
  expectPunctuator ")"
  return .nested first

theorem keeps_withoutQuery : c.Keeps (withoutQuery r) := by
  refine (keeps_expectPunctuator "(").bind fun _ => (keeps_atAnyKeyword _).bind fun _ => .ite ?_ ?_
  · exact hr.select.bind fun _ => (keeps_expectPunctuator ")").bind fun _ => .pure _
  · refine (hr.expression _).bind fun _ => (keeps_atPunctuator ",").bind fun _ => .ite ?_ ?_
    · exact (Related.bounded (keeps_commaTail (hr.expression _))).bind fun _ =>
        (keeps_expectPunctuator ")").bind fun _ => .pure _
    · exact (keeps_expectPunctuator ")").bind fun _ => .pure _

omit hr in
theorem keeps_braceLiteral : c.Keeps braceLiteral :=
  keeps_advance.bind fun _ =>
    (keeps_manyWhile ((keeps_atPunctuator _).bind fun _ => keeps_atEnd.bind fun _ => .pure _)
      keeps_advance).bind fun _ => (keeps_expectPunctuator _).bind fun _ => .pure _

theorem keeps_whenBranch : c.Keeps (whenBranch r) :=
  keeps_advance.bind fun _ => (hr.expression _).bind fun _ =>
    (keeps_expectKeyword _).bind fun _ => (hr.expression _).bind fun _ => .pure _

theorem keeps_caseExpr : c.Keeps (caseExpr r) := by
  refine keeps_advance.bind fun _ => (keeps_atKeyword "WHEN").bind fun _ => ?_
  extract_lets behindOperand
  have hrest : ∀ operand, c.Keeps (behindOperand operand) := by
    intro operand
    refine (keeps_manyWhile (keeps_atKeyword _) (keeps_whenBranch hr)).bind fun _ => ?_
    refine .ite (keeps_mismatched _) <| (keeps_eatKeyword "ELSE").bind fun found => ?_
    have hend : c.Keeps (expectKeyword "END") := keeps_expectKeyword _
    cases found with
    | some w =>
      exact (hr.expression _).bind fun _ => (Related.pure _).bind fun _ => hend.bind fun _ => .pure _
    | none => exact (Related.pure _).bind fun _ => hend.bind fun _ => .pure _
  exact .ite ((Related.pure _).bind hrest) (((hr.expression _).map _).bind hrest)

theorem keeps_constructorCall : c.Keeps (constructorCall r) :=
  keeps_advance.bind fun _ => keeps_qualifiedName.bind fun _ =>
    (keeps_expectPunctuator "(").bind fun _ => (keeps_expressions hr).bind fun _ =>
      (keeps_expectPunctuator ")").bind fun _ => .pure _

section Operands

variable (hp : c.Keeps (parenthesized r))

include hp

theorem keeps_keywordOperand : c.Keeps (keywordOperand r) := by
  refine keeps_current.bind fun t => ?_
  refine .ite (keeps_advance.bind fun _ => (hr.expression _).bind fun _ => .pure _) ?_
  refine .ite (keeps_advance.bind fun _ => (keeps_atPunctuator _).bind fun _ =>
    .ite (hp.bind fun _ => .pure _) (keeps_mismatched _)) ?_
  refine .ite (keeps_advance.bind fun _ => .pure _) ?_
  refine .ite (keeps_caseExpr hr) (.ite (keeps_constructorCall hr) ?_)
  refine keeps_nextIsOpenParen.bind fun _ => .ite ?_ ?_
  · exact keeps_advance.bind fun _ => (keeps_parenthesizedQuery hr).bind fun _ => .pure _
  · exact keeps_nextIsOpenParen.bind fun _ =>
      .ite (keeps_functionCall hr) (keeps_mismatched _)

theorem keeps_operand : c.Keeps (operand r) := by
  refine keeps_current.bind fun t => ?_
  cases t.kind with
  | parameter | string | integer | decimal => exact keeps_advance.bind fun _ => .pure _
  | operator =>
    refine .ite (keeps_advance.bind fun _ => (hr.expression _).bind fun _ => .pure _) ?_
    exact .ite (keeps_advance.bind fun _ => .pure _) keeps_noAlternative
  | identifier =>
    exact keeps_nextIsOpenParen.bind fun _ => .ite (keeps_functionCall hr) keeps_pathExpr
  | punctuator =>
    exact .ite hp (.ite keeps_braceLiteral keeps_noAlternative)
  | keyword => exact keeps_keywordOperand hr hp
  | eof => exact keeps_mismatched _
  | illegal => exact keeps_noAlternative

omit hp in
theorem keeps_isTest (left : Expr) : c.Keeps (isTest r left) := by
  refine keeps_advance.bind fun _ => (keeps_eatKeyword "NOT").bind fun _ =>
    (keeps_eatKeyword "DISTINCT").bind fun found => ?_
  cases found with
  | some w =>
    exact (keeps_expectKeyword _).bind fun _ => (hr.expression _).bind fun _ => .pure _
  | none =>
    exact (keeps_eatAnyKeyword _).bind fun _ => (keeps_orMismatched _ _).bind fun _ => .pure _

theorem keeps_likeTest (left : Expr) (words : String) : c.Keeps (likeTest r left words) := by
  refine (hr.expression _).bind fun _ => (keeps_eatKeyword "ESCAPE").bind fun found => ?_
  cases found with
  | some w => exact (keeps_operand hr hp).bind fun _ => .pure _
  | none => exact .pure _

/-- What `inTest` does in front of a parenthesis where no query was found. -/
def listWithoutQuery (r : Rules) (left : Expr) (words : String) : Parser Expr := do
  let next ← peek
  if ["SELECT", "WITH"].any next.isKeyword then
    return .inQuery left words (← parenthesizedQuery r)
  let _ ← advance
  if ← eatPunctuator ")" then return .inValues left words []
  let values ← r.expressions
  expectPunctuator ")"
  return .inValues left words values

omit hp in
theorem keeps_listWithoutQuery (left : Expr) (words : String) :
    c.Keeps (listWithoutQuery r left words) := by
  refine keeps_peek.bind fun _ => .ite ((keeps_parenthesizedQuery hr).bind fun _ => .pure _) ?_
  refine keeps_advance.bind fun _ => (keeps_eatPunctuator ")").bind fun _ => .ite (.pure _) ?_
  exact (keeps_expressions hr).bind fun _ => (keeps_expectPunctuator ")").bind fun _ => .pure _

omit hp in
theorem keeps_betweenTest (left : Expr) (words : String) : c.Keeps (betweenTest r left words) :=
  (hr.expression _).bind fun _ => (keeps_expectKeyword "AND").bind fun _ =>
    (hr.expression _).bind fun _ => .pure _

omit hp in
theorem keeps_memberTest (left : Expr) (words : List String) :
    c.Keeps (memberTest r left words) :=
  (keeps_eatKeyword "OF").bind fun _ => (hr.expression _).bind fun _ => .pure _

theorem keeps_extend (hin : ∀ left words, c.Keeps (inTest r left words)) (left : Expr)
    (precedence : Precedence) : c.Keeps (extend r left precedence) := by
  refine keeps_current.bind fun t => ?_
  refine .ite (keeps_advance.bind fun _ => (hr.expression _).bind fun _ => .pure _) ?_
  refine .ite (keeps_isTest hr left) ?_
  refine (keeps_eatKeyword "NOT").bind fun _ => keeps_current.bind fun t =>
    keeps_advance.bind fun _ => ?_
  refine .ite (keeps_likeTest hr hp left _) (.ite (hin left _) ?_)
  exact .ite (keeps_betweenTest hr left _) (.ite (keeps_memberTest hr left _) keeps_noAlternative)

theorem keeps_extendWhile (hin : ∀ left words, c.Keeps (inTest r left words))
    (precedence : Precedence) (left : Expr) (n : Nat) : c.Keeps (extendWhile r precedence left n) := by
  induction n generalizing left with
  | zero => exact .pure _
  | succ n ih =>
    exact keeps_nextPrecedence.bind fun _ =>
      .ite (.pure _) ((keeps_extend hr hp hin left _).bind ih)

theorem keeps_expression (hin : ∀ left words, c.Keeps (inTest r left words))
    (precedence : Precedence) : c.Keeps (expression r precedence) :=
  (keeps_operand hr hp).bind fun left => .bounded (keeps_extendWhile hr hp hin precedence left)

end Operands

end Expressions

/-! ### Clauses -/

theorem keeps_atJoin : c.Keeps atJoin :=
  keeps_current.bind fun _ => keeps_peek.bind fun _ => (keeps_peekAt 2).bind fun _ => .pure _

theorem keeps_atClauseWord : c.Keeps atClauseWord := by
  refine .dialect fun d e h => ?_
  rw [c.paging h]
  extract_lets behindPaging
  have hrest : ∀ paging, c.Keeps (behindPaging paging) := fun _ =>
    keeps_atJoin.bind fun _ => .pure _
  refine .ite ?_ ((Related.pure _).bind hrest)
  exact (keeps_atWord _).bind fun _ => (keeps_atWord _).bind fun _ =>
    (Related.pure _).bind hrest

theorem keeps_aliasClause? : c.Keeps aliasClause? := by
  refine (keeps_eatKeyword "AS").bind fun found => ?_
  cases found with
  | some w => exact keeps_expectName.bind fun _ => .pure _
  | none =>
    exact keeps_current.bind fun _ => keeps_atClauseWord.bind fun _ =>
      .ite (keeps_advance.bind fun _ => .pure _) (.pure _)

theorem keeps_optionalWord (words : List String) : c.Keeps (optionalWord words) :=
  (keeps_eatAnyWord words).bind fun _ => .pure _

section Clauses

variable {r : Rules} (hr : c.KeepsRules r)

include hr

theorem keeps_condition? (keywords : List String) : c.Keeps (condition? r keywords) := by
  refine (keeps_eatAnyKeyword keywords).bind fun found => ?_
  cases found with
  | some w => exact (hr.expression _).bind fun _ => .pure _
  | none => exact .pure _

theorem keeps_selectItem : c.Keeps (selectItem r) :=
  (hr.expression _).bind fun _ => keeps_aliasClause?.bind fun _ => .pure _

theorem keeps_join : c.Keeps (join r) :=
  (keeps_manyWhile ((keeps_atKeyword _).bind fun _ => .pure _) keeps_advance).bind fun _ =>
    keeps_advance.bind fun _ => (keeps_eatKeyword _).bind fun _ =>
      (hr.expression _).bind fun _ => keeps_aliasClause?.bind fun _ =>
        (keeps_condition? hr _).bind fun _ => .pure _

theorem keeps_rootSource : c.Keeps (rootSource r) := by
  refine (keeps_atKeyword "IN").bind fun _ => keeps_nextIsOpenParen.bind fun _ => .ite ?_ ?_
  · exact keeps_advance.bind fun _ => (keeps_expectPunctuator "(").bind fun _ =>
      (hr.expression _).bind fun _ => (keeps_expectPunctuator ")").bind fun _ => .pure _
  · refine (keeps_atPunctuator "(").bind fun _ => .dialect fun d e h => ?_
    rw [c.missingSelect h]
    exact .ite ((keeps_parenthesizedQuery hr).bind fun _ => .pure _)
        (keeps_qualifiedName.bind fun _ => .pure _)

theorem keeps_fromRoot : c.Keeps (fromRoot r) :=
  (keeps_rootSource hr).bind fun _ => keeps_aliasClause?.bind fun _ =>
    (keeps_manyWhile keeps_atJoin (keeps_join hr)).bind fun _ => .pure _

theorem keeps_orderItem : c.Keeps (orderItem r) := by
  refine (hr.expression _).bind fun _ => (keeps_eatAnyKeyword _).bind fun _ =>
    (keeps_eatKeyword "NULLS").bind fun found => ?_
  cases found with
  | some w =>
    exact (keeps_eatAnyWord _).bind fun _ => (keeps_orMismatched _ _).bind fun _ => .pure _
  | none => exact .pure _

theorem keeps_fetchClause (fetch : String) : c.Keeps (fetchClause r fetch) := by
  refine (keeps_eatAnyWord _).bind fun _ => (keeps_orMismatched _ _).bind fun _ =>
    (hr.expression _).bind fun _ => (keeps_optionalWord _).bind fun _ =>
      (keeps_eatAnyWord _).bind fun _ => (keeps_orMismatched _ _).bind fun _ =>
        (keeps_eatWord "ONLY").bind fun found => ?_
  cases found with
  | some w => exact (Related.pure _).bind fun _ => .pure _
  | none =>
    exact (keeps_expectKeyword _).bind fun _ => (keeps_expectWord _).bind fun _ =>
      (Related.pure _).bind fun _ => .pure _

theorem keeps_pagingClause? : c.Keeps (pagingClause? r) := by
  refine (keeps_eatWord "LIMIT").bind fun limit => ?_
  cases limit with
  | some w => exact (hr.expression _).bind fun _ => .pure _
  | none =>
    refine (keeps_eatWord "OFFSET").bind fun offset => ?_
    cases offset with
    | some w => exact (hr.expression _).bind fun _ => (keeps_optionalWord _).bind fun _ => .pure _
    | none =>
      refine (keeps_eatKeyword "FETCH").bind fun fetch => ?_
      cases fetch with
      | some w => exact (keeps_fetchClause hr w).bind fun _ => .pure _
      | none => exact .pure _

theorem keeps_pagingClauses (n : Nat) : c.Keeps (pagingClauses r n) := by
  induction n with
  | zero => exact .pure _
  | succ n ih =>
    refine (keeps_pagingClause? hr).bind fun found => ?_
    cases found with
    | some fragments => exact ih.bind fun _ => .pure _
    | none => exact .pure _

/-! ### Queries -/

theorem keeps_selectClause : c.Keeps (selectClause r) := by
  refine (keeps_atKeyword "SELECT").bind fun _ => .ite ?_ (.dialect fun d e h => ?_)
  · exact keeps_advance.bind fun _ => (keeps_eatKeyword _).bind fun _ =>
      (keeps_commaList (keeps_selectItem hr)).bind fun _ => .pure _
  · rw [c.missingSelect h]
    exact .ite (.pure _) (keeps_mismatched _)

theorem keeps_fromClause : c.Keeps (fromClause r) := by
  refine (keeps_atKeyword "FROM").bind fun _ => .ite ?_ (.dialect fun d e h => ?_)
  · exact keeps_advance.bind fun _ => (keeps_commaList (keeps_fromRoot hr)).bind fun _ => .pure _
  · rw [c.missingSelect h]
    exact .ite (.pure _) (keeps_mismatched _)

omit hr in
theorem keeps_listBehind (first second : String) {items : Parser (List α)} (hi : c.Keeps items) :
    c.Keeps (listBehind first second items) :=
  (keeps_atKeyword first).bind fun _ =>
    .ite ((keeps_expectPair first second).bind fun _ => hi.bind fun _ => .pure _) (.pure _)

theorem keeps_querySpec : c.Keeps (querySpec r) := by
  refine (keeps_selectClause hr).bind fun _ => (keeps_fromClause hr).bind fun _ =>
    .ite (keeps_mismatched _) ?_
  refine (keeps_condition? hr _).bind fun _ =>
    (keeps_listBehind _ _ (keeps_expressions hr)).bind fun _ =>
      (keeps_condition? hr _).bind fun _ =>
        (keeps_listBehind _ _ (keeps_commaList (keeps_orderItem hr))).bind fun _ =>
          .dialect fun d e h => ?_
  rw [c.paging h]
  extract_lets behindOrders
  have hrest : ∀ paging, c.Keeps (behindOrders paging) := fun _ => .pure _
  exact .ite ((Related.bounded (keeps_pagingClauses hr)).bind hrest) ((Related.pure _).bind hrest)

theorem keeps_queryTerm : c.Keeps (queryTerm r) :=
  (keeps_eatPunctuator "(").bind fun _ =>
    .ite (hr.select.bind fun _ => (keeps_expectPunctuator ")").bind fun _ => .pure _)
      ((keeps_querySpec hr).bind fun _ => .pure _)

theorem keeps_setOperation : c.Keeps (setOperation r) :=
  keeps_advance.bind fun _ => (keeps_eatAnyKeyword _).bind fun _ =>
    (keeps_queryTerm hr).bind fun _ => .pure _

theorem keeps_cte : c.Keeps (cte r) :=
  keeps_expectName.bind fun _ => (keeps_expectKeyword "AS").bind fun _ =>
    (keeps_parenthesizedQuery hr).bind fun _ => .pure _

theorem keeps_withClause : c.Keeps (withClause r) :=
  (keeps_atKeyword "WITH").bind fun _ =>
    .ite (keeps_advance.bind fun _ => (keeps_eatWord _).bind fun _ =>
      (keeps_commaList (keeps_cte hr)).bind fun _ => .pure _) (.pure _)

theorem keeps_selectStatement : c.Keeps (selectStatement r) :=
  (keeps_withClause hr).bind fun _ => (keeps_queryTerm hr).bind fun _ =>
    (keeps_manyWhile (keeps_atAnyKeyword _) (keeps_setOperation hr)).bind fun _ => .pure _

/-! ### Statements -/

theorem keeps_assignment : c.Keeps (assignment r) :=
  (hr.expression _).bind fun _ => keeps_current.bind fun _ =>
    .ite (keeps_advance.bind fun _ => (hr.expression _).bind fun _ => .pure _)
      (keeps_mismatched _)

theorem keeps_updateStatement : c.Keeps (updateStatement r) :=
  keeps_advance.bind fun _ => keeps_qualifiedName.bind fun _ =>
    keeps_aliasClause?.bind fun _ => (keeps_expectKeyword "SET").bind fun _ =>
      (keeps_commaList (keeps_assignment hr)).bind fun _ =>
        (keeps_condition? hr _).bind fun _ => .pure _

theorem keeps_deleteStatement : c.Keeps (deleteStatement r) :=
  keeps_advance.bind fun _ => (keeps_eatKeyword _).bind fun _ =>
    keeps_qualifiedName.bind fun _ => keeps_aliasClause?.bind fun _ =>
      (keeps_condition? hr _).bind fun _ => .pure _

theorem keeps_statement : c.Keeps (statement r) := by
  refine (keeps_atKeyword "UPDATE").bind fun _ => ?_
  extract_lets atItsEnd
  have hrest : ∀ s, c.Keeps (atItsEnd s) := fun _ =>
    keeps_atEnd.bind fun _ => .ite (.pure _) (keeps_mismatched _)
  refine (keeps_atKeyword "DELETE").bind fun _ => (keeps_atAnyKeyword _).bind fun _ =>
    (keeps_atPunctuator "(").bind fun _ => (keeps_atKeyword "FROM").bind fun _ =>
      .dialect fun d e h => ?_
  rw [c.missingSelect h]
  refine .ite (((keeps_updateStatement hr).map _).bind hrest) ?_
  refine .ite (((keeps_deleteStatement hr).map _).bind hrest) ?_
  exact .ite (((keeps_selectStatement hr).map _).bind hrest) ((keeps_mismatched _).bind hrest)

end Clauses

end Comparison

end Jpql.Grammar
