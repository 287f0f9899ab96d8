import Jpql.Proofs.Derived.Syntax
import Jpql.Proofs.Grammar.Clauses
import Mathlib

/-! Predicates of readable queries are parsed as what they stand for. Of the operators
in a predicate only those between conditions nest, and they nest as they bind; so each part is parsed
as its own node, up to where the lexemes behind it bind no closer than it does. -/

namespace Jpql.Derived.SelectQuery

open Grammar
open Lexeme (ahead)

/-- A backtracking parse of the standard dialect. -/
structure Backtracks (s : Setting) : Prop where
  ends : s.Ends
  dialect : s.dialect = .jpql
  mode : s.mode = .backtracking

variable {q : SelectQuery} {s : Setting} {rest : List Lexeme}

/-! ### Where parts start -/

theorem Readable.startsOperand (hq : q.Readable) {e : Expression} (he : e.Readable)
    (rest : List Lexeme) : StartsOperand (q.expressionLexemes e ++ rest) ∧
      (ahead 0 (q.expressionLexemes e ++ rest)).isPunctuator "(" = false := by
  cases e with
  | path p => exact startsOperand_word (.inl (hq.aliasOf p.origin).2) _
  | parameter n =>
    exact ⟨⟨nofun, fun _ _ => rfl, fun _ _ => rfl⟩, rfl⟩
  | literal t => exact startsOperand_word (.inr he) _
  | function name argument =>
    have hname : ∀ n ∈ ["UPPER", "LOWER"], isReserved n = false := by decide
    exact startsOperand_word (.inl (hname name he.1)) _

theorem Readable.noQuery_expression (hq : q.Readable) {e : Expression} (he : e.Readable)
    (rest : List Lexeme) : NoQuery (q.expressionLexemes e ++ rest) := by
  obtain ⟨hstarts, hparen⟩ := hq.startsOperand he rest
  obtain ⟨l, ls, hls⟩ := hstarts.exists_cons
  rw [hls] at hstarts hparen ⊢
  have hwords : ∀ k ∈ ["SELECT", "WITH", "FROM"], k ∈ "SELECT" :: "WITH" :: argumentWords := by
    decide
  exact .start (fun k hk => hstarts.2.2 k (hwords k hk)) hparen

theorem Readable.noQuery (hq : q.Readable) {p : Predicate} (hp : p.Readable)
    (rest : List Lexeme) : NoQuery (q.predicateLexemes p ++ rest) := by
  induction p generalizing rest with
  | compare | like | between =>
    simp only [predicateLexemes, List.append_assoc]
    exact hq.noQuery_expression hp.1 _
  | inList | memberOf | is =>
    simp only [predicateLexemes, List.append_assoc]
    exact hq.noQuery_expression hp.1 _
  | and left right ihl =>
    rw [predicateLexemes, List.append_assoc]
    exact ihl hp.1 _
  | or left right ihl =>
    rw [predicateLexemes, List.append_assoc]
    exact ihl hp.1 _
  | nested inner ih =>
    rw [predicateLexemes, List.cons_append, List.cons_append, List.append_assoc]
    exact .paren (ih hp _)

/-! ### Expressions -/

theorem Readable.takes_operand (hq : q.Readable) (hs : Backtracks s) {e : Expression} (he : e.Readable)
    {n : Nat} (hn : (q.expressionLexemes e).length ≤ n) (hrest : EndsOperand rest) :
    Takes s (operand (rules n)) (q.expressionLexemes e ++ rest) (q.expressionSyntax e) rest := by
  induction e generalizing n rest with
  | path p => exact takes_operand_path hs.ends (hq.aliasOf p.origin).2 _ hrest
  | parameter k => exact takes_operand_parameter hs.ends _ rest
  | literal t =>
    have hall : ∀ t ∈ ["TRUE", "FALSE"], t ∈ ["TRUE", "FALSE", "NULL"] ∧
        (Lexeme.word t).isKeyword t = true := by decide
    obtain ⟨ht, hword⟩ := hall t he
    exact takes_operand_keyword hs.ends ht hword rest
  | function name argument ih =>
    have hlength : (q.expressionLexemes argument).length + 3 ≤ n := by
      simp only [expressionLexemes, List.length_append, List.length_cons, List.length_nil] at hn
      omega
    obtain ⟨n, rfl⟩ : ∃ k, n = k + 1 := ⟨n - 1, by omega⟩
    obtain ⟨hstarts, hparen⟩ := hq.startsOperand he.2 (.punctuator ")" :: rest)
    have hargument : Takes s ((rules (n + 1)).expression .lowest)
        (q.expressionLexemes argument ++ .punctuator ")" :: rest) (q.expressionSyntax argument)
        (.punctuator ")" :: rest) :=
      takes_expression_of_operand hs.ends (ih he.2 (by omega) ⟨rfl, rfl⟩) (Nat.le_refl _)
    have hname : ∀ n ∈ ["UPPER", "LOWER"], isReserved n = false ∧
        Dialect.jpql.acceptsFunction n = true := by decide
    have hcall := takes_functionCall hs.ends (show s.dialect.acceptsFunction name = true by
        rw [hs.dialect]
        exact (hname name he.1).2)
      (takes_argument hs.ends none (by simp) hargument hstarts hparen)
      (hstarts.2.1 ")" (by decide))
    have hall := takes_operand_function hs.ends (hname name he.1).1 hcall
    simpa [expressionLexemes, expressionSyntax] using hall

theorem Readable.takes_expression (hq : q.Readable) (hs : Backtracks s) {e : Expression}
    (he : e.Readable) {n : Nat} (hn : (q.expressionLexemes e).length ≤ n) {precedence : Precedence}
    (hrest : EndsOperand rest) (hstop : (nextOf rest).rank ≤ precedence.rank) :
    Takes s (expression (rules n) precedence) (q.expressionLexemes e ++ rest)
      (q.expressionSyntax e) rest :=
  takes_expression_of_operand hs.ends (hq.takes_operand hs he hn hrest) hstop

/-! ### Predicates -/

/-- A condition is an operand with one operator behind it. -/
theorem takes_condition (he : s.Ends) {n : Nat} {input tail rest behind : List Lexeme}
    {left node e : Expr} {precedence : Precedence}
    (hleft : Takes s (operand (rules n)) (input ++ tail) left tail)
    (htail : nextOf tail = .comparison) (hprecedence : precedence.rank < Precedence.comparison.rank)
    (hextend : Takes s (extend (rules n) left .comparison) tail node rest)
    (hlength : rest.length < tail.length) (hgo : GoesOn s (rules n) precedence node rest e behind) :
    Takes s (expression (rules n) precedence) (input ++ tail) e behind := by
  obtain ⟨k, hk⟩ : ∃ k, tail.length = k + 1 := ⟨tail.length - 1, by omega⟩
  refine hleft.bind (.bounded ?_)
  rw [hk]
  refine takes_extendWhile_step he (by rw [htail]; exact hprecedence) (by rw [htail]; exact hextend)
    (hgo k (by omega))

theorem phrase_negated (negative : Bool) {w : String} (h : w ∈ ["LIKE", "IN", "MEMBER"]) :
    Lexeme.phrase (negated negative w) = (notWord negative).toList.map Lexeme.word ++ [Lexeme.word w] := by
  have hall : ∀ w ∈ ["LIKE", "IN", "MEMBER"], ∀ negative, Lexeme.phrase (negated negative w) =
      (notWord negative).toList.map Lexeme.word ++ [Lexeme.word w] := by decide
  exact hall w h negative

theorem eq_not_of_mem_notWord {negative : Bool} : ∀ n ∈ notWord negative, n = "NOT" := by
  cases negative <;> simp [notWord]

theorem exists_of_test {test : String} (h : test ∈ ["NULL", "NOT NULL", "EMPTY", "NOT EMPTY"]) :
    ∃ negative w, w ∈ ["NULL", "EMPTY", "TRUE", "FALSE"] ∧
      Lexeme.phrase test = (notWord negative).toList.map Lexeme.word ++ [Lexeme.word w] ∧
      "IS " ++ test = " ".intercalate ("IS" :: (notWord negative).toList ++ [w]) := by
  simp only [List.mem_cons, List.not_mem_nil, or_false] at h
  rcases h with rfl | rfl | rfl | rfl
  · exact ⟨false, "NULL", by decide⟩
  · exact ⟨true, "NULL", by decide⟩
  · exact ⟨false, "EMPTY", by decide⟩
  · exact ⟨true, "EMPTY", by decide⟩

/-- A test behind an operand, negated or not. -/
theorem takes_test (he : s.Ends) {n : Nat} (negative : Bool) {w : String}
    (hw : w ∈ ["LIKE", "IN", "BETWEEN", "MEMBER"]) {input tail rest behind : List Lexeme}
    {left node e : Expr} {precedence : Precedence}
    (hleft : ∀ {tail}, EndsOperand tail → Takes s (operand (rules n)) (input ++ tail) left tail)
    (htest : Takes s (testBehind (rules n) left ((notWord negative).toList ++ [w]) w) tail node rest)
    (hlength : rest.length ≤ tail.length)
    (hprecedence : precedence.rank < Precedence.comparison.rank)
    (hgo : GoesOn s (rules n) precedence node rest e behind) :
    Takes s (expression (rules n) precedence)
      (input ++ ((notWord negative).toList.map .word ++ .word w :: tail)) e behind := by
  have hall : ∀ w ∈ ["LIKE", "IN", "BETWEEN", "MEMBER"],
      (Lexeme.word "NOT").precedence (.word w) = .comparison ∧
      (Lexeme.word w).isKeyword "NOT" = false ∧
      (Lexeme.word w).precedence .eof = .comparison := by decide
  obtain ⟨hnegated, hnot, hplain⟩ := hall w hw
  have hnext : nextOf ((notWord negative).toList.map .word ++ .word w :: tail) = .comparison := by
    cases negative with
    | false => exact (nextOf_word hnot tail).trans hplain
    | true => exact hnegated
  have hend : EndsOperand ((notWord negative).toList.map .word ++ .word w :: tail) := by
    cases negative <;> exact endsOperand_word _ _
  refine takes_condition he (hleft hend) hnext hprecedence
    (takes_extend_test he hw eq_not_of_mem_notWord htest) ?_ hgo
  simp only [List.length_append, List.length_cons]
  omega

theorem nextOf_operator {op : String} (h : op ∈ Lexer.comparisonOperators) (ls : List Lexeme) :
    nextOf (.operator op :: ls) = .comparison := by
  have hall : ∀ op ∈ Lexer.comparisonOperators,
      op ∈ ["=", "<>", "!=", "^=", "<", ">", "<=", ">="] := by decide
  change (Lexeme.operator op).precedence _ = _
  simp [Lexeme.precedence, Lexeme.operator, hall op h]

/-- A connective takes a right side that binds closer than itself. -/
theorem goesOn_connective (he : s.Ends) {n : Nat} {w : String} {c precedence : Precedence}
    {left right e : Expr} {input rest behind : List Lexeme} (hw : (w, c) ∈ [("AND", .and), ("OR", .or)])
    (hright : Takes s ((rules n).expression c) input right rest) (hlength : rest.length ≤ input.length)
    (hprecedence : precedence.rank < c.rank)
    (hgo : GoesOn s (rules n) precedence (.binary left w right) rest e behind) :
    GoesOn s (rules n) precedence left (.word w :: input) e behind := by
  have hall : ∀ x ∈ [("AND", Precedence.and), ("OR", .or)],
      (Lexeme.word x.1).isKeyword "NOT" = false ∧ (Lexeme.word x.1).precedence .eof = x.2 ∧
      ((Lexeme.word x.1).isKeyword "AND" = true ∨ (Lexeme.word x.1).isKeyword "OR" = true) := by
    decide
  obtain ⟨hnot, hbinds, hbinary⟩ := hall _ hw
  exact goesOn_binary he (.inr hbinary) ((nextOf_word hnot input).trans hbinds) hright hlength
    hprecedence hgo

theorem Readable.takes_predicate (hq : q.Readable) (hs : Backtracks s) {p : Predicate}
    (hp : p.Readable) {n : Nat} (hn : (q.predicateLexemes p).length ≤ n) {precedence : Precedence}
    (hprecedence : precedence.rank < p.precedence.rank) {behind : List Lexeme} {e : Expr}
    (hrest : EndsOperand rest) (hstop : (nextOf rest).rank ≤ p.precedence.rank)
    (hgo : GoesOn s (rules n) precedence (q.predicateSyntax p) rest e behind) :
    Takes s (expression (rules n) precedence) (q.predicateLexemes p ++ rest) e behind := by
  induction p generalizing n precedence rest behind e with
  | compare left operator right =>
    obtain ⟨hleft, hop, hright⟩ := hp
    simp only [predicateLexemes, List.length_append, List.length_cons] at hn
    obtain ⟨n, rfl⟩ : ∃ k, n = k + 1 := ⟨n - 1, by omega⟩
    have hvalue : Takes s ((rules (n + 1)).expression .comparison)
        (q.expressionLexemes right ++ rest) (q.expressionSyntax right) rest :=
      hq.takes_expression hs hright (by omega) hrest hstop
    rw [predicateLexemes, List.append_assoc]
    exact takes_condition hs.ends (hq.takes_operand hs hleft (by omega) ⟨rfl, rfl⟩)
      (nextOf_operator hop _) hprecedence (takes_extend_binary hs.ends (.inl rfl) hvalue)
      (by simp only [List.length_cons, List.length_append]; omega) hgo
  | like left negative right escape =>
    obtain ⟨hleft, hright, -⟩ := hp
    simp only [predicateLexemes, List.length_append, List.length_cons] at hn
    obtain ⟨n, rfl⟩ : ∃ k, n = k + 1 := ⟨n - 1, by omega⟩
    have hpattern : Takes s ((rules (n + 1)).expression .comparison)
        (q.expressionLexemes right ++ .word "ESCAPE" ::
          ⟨.string, String.ofList ['\'', escape, '\'']⟩ :: rest) (q.expressionSyntax right) _ :=
      hq.takes_expression hs hright (by omega) (endsOperand_word _ _)
        (by rw [nextOf_word (by decide)]; decide)
    have hall := takes_test (w := "LIKE") hs.ends negative (by decide)
      (hq.takes_operand hs hleft (by omega)) (takes_likeTest hs.ends hpattern) (by simp; omega)
      hprecedence hgo
    simpa [predicateLexemes, phrase_negated] using hall
  | between tested lower upper =>
    obtain ⟨htested, hlower, hupper⟩ := hp
    simp only [predicateLexemes, List.length_append, List.length_cons] at hn
    obtain ⟨n, rfl⟩ : ∃ k, n = k + 1 := ⟨n - 1, by omega⟩
    have hlow : Takes s ((rules (n + 1)).expression .comparison)
        (q.expressionLexemes lower ++ .word "AND" :: (q.expressionLexemes upper ++ rest))
        (q.expressionSyntax lower) _ :=
      hq.takes_expression hs hlower (by omega) (endsOperand_word _ _)
        (by rw [nextOf_word (by decide)]; decide)
    have hhigh : Takes s ((rules (n + 1)).expression .comparison)
        (q.expressionLexemes upper ++ rest) (q.expressionSyntax upper) rest :=
      hq.takes_expression hs hupper (by omega) hrest hstop
    have hall := takes_test (w := "BETWEEN") hs.ends false (by decide)
      (hq.takes_operand hs htested (by omega)) (takes_betweenTest hs.ends hlow hhigh)
      (by simp; omega) hprecedence hgo
    simpa [predicateLexemes, notWord] using hall
  | inList tested negative values =>
    obtain ⟨htested, hvalues⟩ := hp
    simp only [predicateLexemes, List.length_append, List.length_cons] at hn
    obtain ⟨n, rfl⟩ : ∃ k, n = k + 1 := ⟨n - 1, by omega⟩
    obtain ⟨hstarts, hparen⟩ := hq.startsOperand hvalues (.punctuator ")" :: rest)
    have hvalue : Takes s ((rules (n + 1)).expression .lowest)
        (q.expressionLexemes values ++ .punctuator ")" :: rest) (q.expressionSyntax values) _ :=
      hq.takes_expression hs hvalues (by omega) ⟨rfl, rfl⟩ (Nat.zero_le _)
    have hall := takes_test (w := "IN") hs.ends negative (by decide)
      (hq.takes_operand hs htested (by omega)) (takes_inTest hs.ends hvalue hstarts hparen)
      (by simp; omega) hprecedence hgo
    simpa [predicateLexemes, phrase_negated] using hall
  | memberOf value negative collection =>
    obtain ⟨hvalue, hcollection⟩ := hp
    have hphrase : Lexeme.phrase (negated negative "MEMBER OF") =
        (notWord negative).toList.map Lexeme.word ++ [Lexeme.word "MEMBER", .word "OF"] := by
      cases negative <;> decide
    have htext : negated negative "MEMBER OF" =
        " ".intercalate ((notWord negative).toList ++ ["MEMBER"] ++ ["OF"]) := by
      cases negative <;> decide
    rw [predicateSyntax, htext] at hgo
    simp only [predicateLexemes, hphrase, List.length_append, List.length_cons] at hn
    obtain ⟨n, rfl⟩ : ∃ k, n = k + 1 := ⟨n - 1, by omega⟩
    have hright : Takes s ((rules (n + 1)).expression .comparison)
        (q.expressionLexemes collection ++ rest) (q.expressionSyntax collection) rest :=
      hq.takes_expression hs hcollection (by omega) hrest hstop
    have hall := takes_test (w := "MEMBER") hs.ends negative (by decide)
      (hq.takes_operand hs hvalue (by omega)) (takes_memberTest hs.ends hright)
      (by simp; omega) hprecedence hgo
    simpa [predicateLexemes, hphrase] using hall
  | is tested test =>
    obtain ⟨htested, htest⟩ := hp
    obtain ⟨negative, w, hw, hphrase, htext⟩ := exists_of_test htest
    rw [predicateSyntax, htext] at hgo
    simp only [predicateLexemes, hphrase, List.length_append, List.length_cons] at hn
    have hnext : nextOf (.word "IS" :: ((notWord negative).toList.map .word ++ .word w :: rest)) =
        .comparison := nextOf_word (by decide) _
    have hall := takes_condition hs.ends (hq.takes_operand hs htested (by omega)
      (endsOperand_word "IS" _)) hnext hprecedence
      (takes_extend_is hs.ends hw eq_not_of_mem_notWord rest) (by simp; omega) hgo
    simpa [predicateLexemes, hphrase] using hall
  | and left right ihl ihr =>
    obtain ⟨hleft, hright, hbindsLeft, hbindsRight⟩ := hp
    simp only [predicateLexemes, List.length_append, List.length_cons] at hn
    obtain ⟨n, rfl⟩ : ∃ k, n = k + 1 := ⟨n - 1, by omega⟩
    have hvalue : Takes s ((rules (n + 1)).expression .and) (q.predicateLexemes right ++ rest)
        (q.predicateSyntax right) rest :=
      ihr hright (by omega) hbindsRight hrest (Nat.le_trans hstop (Nat.le_of_lt hbindsRight)) fun k _ =>
        takes_extendWhile_stop hs.ends hstop k
    rw [predicateLexemes, List.append_assoc]
    have hnext : nextOf (.word "AND" :: (q.predicateLexemes right ++ rest)) = .and :=
      nextOf_word (by decide) _
    exact ihl hleft (by omega) (Nat.lt_of_lt_of_le hprecedence hbindsLeft) (endsOperand_word "AND" _)
      (hnext ▸ hbindsLeft) (goesOn_connective hs.ends (by decide) hvalue (by simp) hprecedence hgo)
  | or left right ihl ihr =>
    obtain ⟨hleft, hright, hbindsLeft, hbindsRight⟩ := hp
    simp only [predicateLexemes, List.length_append, List.length_cons] at hn
    obtain ⟨n, rfl⟩ : ∃ k, n = k + 1 := ⟨n - 1, by omega⟩
    have hvalue : Takes s ((rules (n + 1)).expression .or) (q.predicateLexemes right ++ rest)
        (q.predicateSyntax right) rest :=
      ihr hright (by omega) hbindsRight hrest (Nat.le_trans hstop (Nat.le_of_lt hbindsRight)) fun k _ =>
        takes_extendWhile_stop hs.ends hstop k
    rw [predicateLexemes, List.append_assoc]
    have hnext : nextOf (.word "OR" :: (q.predicateLexemes right ++ rest)) = .or :=
      nextOf_word (by decide) _
    exact ihl hleft (by omega) (Nat.lt_of_lt_of_le hprecedence hbindsLeft) (endsOperand_word "OR" _)
      (hnext ▸ hbindsLeft) (goesOn_connective hs.ends (by decide) hvalue (by simp) hprecedence hgo)
  | nested inner ih =>
    simp only [predicateLexemes, List.length_append, List.length_cons] at hn
    obtain ⟨n, rfl⟩ : ∃ k, n = k + 1 := ⟨n - 1, by omega⟩
    have hlow : Precedence.lowest.rank < inner.precedence.rank := by
      cases inner <;> exact Nat.succ_pos _
    have hinner : Takes s ((rules (n + 1)).expression .lowest)
        (q.predicateLexemes inner ++ .punctuator ")" :: rest) (q.predicateSyntax inner)
        (.punctuator ")" :: rest) :=
      ih hp (by omega) hlow ⟨rfl, rfl⟩ (Nat.zero_le _) fun k _ =>
        takes_extendWhile_stop hs.ends (Nat.zero_le _) k
    rw [predicateLexemes, List.cons_append, List.cons_append, List.append_assoc]
    have hquery := hq.noQuery (show inner.Readable from hp) (.punctuator ")" :: rest)
    have hoperand := takes_operand_nested hs.ends hs.mode hquery hinner
    exact hoperand.bind (.bounded (hgo _ (Nat.le_refl _)))

end Jpql.Derived.SelectQuery
