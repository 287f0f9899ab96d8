import Jpql.Proofs.Grammar.Taking

/-! Runs of the parsers for expressions: which lexemes an operand takes, and what each operator makes
of the lexemes behind it. All rules are about any rules for the expressions inside. -/

namespace Jpql

open Grammar (Precedence)

/-- The precedence with which a lexeme goes on after an operand. -/
def Lexeme.precedence (l next : Lexeme) : Precedence :=
  if l.kind == .keyword then
    if l.isKeyword "OR" then .or
    else if l.isKeyword "AND" then .and
    else if ["IS", "LIKE", "IN", "BETWEEN", "MEMBER"].any l.isKeyword then .comparison
    else if l.isKeyword "NOT" && ["LIKE", "IN", "BETWEEN", "MEMBER"].any next.isKeyword then
      .comparison
    else .lowest
  else if l.kind == .operator then
    if l.literal ∈ ["=", "<>", "!=", "^=", "<", ">", "<=", ">="] then .comparison
    else if l.literal ∈ ["+", "-", "||"] then .sum
    else if l.literal ∈ ["*", "/", "%"] then .product
    else .lowest
  else .lowest

namespace Grammar

open Jpql.Grammar.Parser
open Lexeme (ahead)

variable {α β : Type} {s : Setting} {r : Rules} {input rest behind : List Lexeme} {a : α}
  {left e : Expr} {precedence : Precedence}

/-- The precedence with which the lexemes go on after an operand. -/
def nextOf (input : List Lexeme) : Precedence := (ahead 0 input).precedence (ahead 1 input)

/-- No operand goes on here: neither its path nor its arguments. -/
def EndsOperand (rest : List Lexeme) : Prop :=
  (ahead 0 rest).isPunctuator "." = false ∧ (ahead 0 rest).isPunctuator "(" = false

/-- The lexemes behind an expression on its own: nothing of them belongs to it. -/
structure EndsExpression (rest : List Lexeme) : Prop where
  operand : EndsOperand rest
  next : nextOf rest = .lowest

theorem EndsExpression.stop {rest : List Lexeme} (h : EndsExpression rest)
    (precedence : Precedence) : (nextOf rest).rank ≤ precedence.rank := by
  rw [h.next]
  exact Nat.zero_le _

theorem endsOperand_word (w : String) (ls : List Lexeme) : EndsOperand (.word w :: ls) :=
  ⟨Lexeme.isPunctuator_word w ".", Lexeme.isPunctuator_word w "("⟩

theorem nextOf_word {w : String} (h : (Lexeme.word w).isKeyword "NOT" = false) (ls : List Lexeme) :
    nextOf (.word w :: ls) = (Lexeme.word w).precedence .eof := by
  change (Lexeme.word w).precedence _ = _
  simp [Lexeme.precedence, h]

theorem endsExpression_word {w : String} (hnot : (Lexeme.word w).isKeyword "NOT" = false)
    (hw : (Lexeme.word w).precedence .eof = .lowest) (ls : List Lexeme) :
    EndsExpression (.word w :: ls) :=
  ⟨endsOperand_word w ls, (nextOf_word hnot ls).trans hw⟩

theorem endsExpression_name {w : String} (h : isReserved w = false) (ls : List Lexeme) :
    EndsExpression (.word w :: ls) := by
  refine endsExpression_word (Lexeme.isKeyword_word h _) ?_ ls
  simp [Lexeme.precedence, Lexeme.kind_word_of_isReserved h]

/-! ### Operands -/

variable (he : s.Ends)

include he

/-- An operand is parsed by the kind of its first token. -/
theorem takes_operand_parameter (t : String) (rest : List Lexeme) :
    Takes s (operand r) (⟨.parameter, t⟩ :: rest) (.parameter t) rest :=
  .current he fun t' ht => by
    have hkind : t'.kind = .parameter := congrArg Lexeme.kind ht
    simp only [hkind]
    exact (takes_advance _ _).bind (.pure _ _)

theorem takes_operand_literal {l : Lexeme} (h : l.kind ∈ [TokenKind.string, .integer, .decimal])
    (rest : List Lexeme) : Takes s (operand r) (l :: rest) (.literal l.literal) rest := by
  refine .current he fun t ht => ?_
  have hkind : t.kind = l.kind := congrArg Lexeme.kind ht
  have htake : Takes s (advance >>= fun text => pure (Expr.literal text)) (l :: rest)
      (.literal l.literal) rest := (takes_advance l rest).bind (.pure _ _)
  simp only [List.mem_cons, List.not_mem_nil, or_false] at h
  rcases h with h | h | h
  all_goals
    simp only [hkind, h]
    exact htake

theorem takes_operand_path {first : String} (hfirst : isReserved first = false)
    (names : List String) (hrest : EndsOperand rest) :
    Takes s (operand r) (Lexeme.dotted first names ++ rest) (.path (first :: names)) rest := by
  refine .current he fun t ht => ?_
  have hkind : t.kind = .identifier := by
    have ht : t.lexeme = .word first := ht
    rw [← Lexeme.kind_word_of_isReserved hfirst, ← ht]
    rfl
  have hparen : (ahead 1 (Lexeme.dotted first names ++ rest)).isPunctuator "(" = false := by
    cases names with
    | nil => exact hrest.2
    | cons n names => rfl
  simp only [hkind]
  refine (takes_nextIsOpenParen he _).bind ?_
  rw [hparen]
  refine .ite_false rfl ?_
  exact (takes_advance (.word first) _).bind ((takes_pathSteps he names hrest.1).bind (.pure _ _))

theorem takes_operand_keyword {l : Lexeme} {k : String} (hk : k ∈ ["TRUE", "FALSE", "NULL"])
    (hl : l.isKeyword k = true) (rest : List Lexeme) :
    Takes s (operand r) (l :: rest) (.literal l.literal) rest := by
  have hother : ∀ k ∈ ["TRUE", "FALSE", "NULL"],
      eqIgnoringCase k "NOT" = false ∧ eqIgnoringCase k "EXISTS" = false := by decide
  obtain ⟨hnot, hexists⟩ := hother k hk
  have hliteral : ["TRUE", "FALSE", "NULL"].any l.isKeyword = true := List.any_eq_true.2 ⟨k, hk, hl⟩
  refine .current he fun t ht => ?_
  have ht : t.lexeme = l := ht
  have hkind : t.kind = .keyword := by
    rw [← ht] at hl
    exact eq_of_beq (Bool.and_eq_true_iff.1 hl).1
  simp only [hkind]
  refine .current he fun t' ht' => ?_
  obtain rfl : t'.lexeme = l := ht'
  refine .ite_false (Lexeme.isKeyword_eq_false hl hnot) ?_
  refine .ite_false (Lexeme.isKeyword_eq_false hl hexists) ?_
  exact .ite_true hliteral ((takes_advance _ rest).bind (.pure _ _))

theorem takes_operand_braces {parts : List Lexeme}
    (hparts : ∀ part ∈ parts, part.isPunctuator closeBrace = false) (rest : List Lexeme) :
    Takes s (operand r) (.punctuator openBrace :: (parts ++ .punctuator closeBrace :: rest))
      (.literal (openBrace ++ " ".intercalate (parts.map (·.literal)) ++ closeBrace)) rest := by
  let goesOn : Parser Bool := do return !((← atPunctuator closeBrace) || (← atEnd))
  have htest (input : List Lexeme) : Takes s goesOn input
      (!((ahead 0 input).isPunctuator closeBrace || input.isEmpty)) input :=
    (takes_atPunctuator he closeBrace input).bind ((takes_atEnd input).bind (.pure _ _))
  have htrue : ∀ part ∈ parts, ∀ rest, Takes s goesOn ([part] ++ rest) true ([part] ++ rest) :=
    fun part hpart rest => by simpa [hparts part hpart] using htest ([part] ++ rest)
  have hmany : Takes s (manyWhile goesOn advance)
      (parts.flatMap (fun part => [part]) ++ .punctuator closeBrace :: rest)
      (parts.map (·.literal)) (.punctuator closeBrace :: rest) :=
    takes_manyWhile (fun _ => True) htrue (fun part _ rest _ => takes_advance part rest)
      (fun _ _ _ => trivial) trivial (htest _) (fun _ _ => List.cons_ne_nil _ _)
  rw [List.flatMap_singleton'] at hmany
  refine .current he fun t ht => ?_
  have hkind : t.kind = .punctuator := congrArg Lexeme.kind ht
  have hliteral : t.literal = openBrace := congrArg Lexeme.literal ht
  simp only [hkind, hliteral]
  refine .ite_false (by decide) (.ite_true (by decide) ((takes_advance _ _).bind ?_))
  exact hmany.bind ((takes_expectPunctuator he (by decide) _).bind (.pure _ _))

/-! ### Function calls -/

theorem takes_functionCall {name : String} (hname : s.dialect.acceptsFunction name = true)
    {fragments : List Fragment} (hargument : Takes s (argument r) input fragments
      (.punctuator ")" :: rest)) (hinput : (ahead 0 input).isPunctuator ")" = false) :
    Takes s (functionCall r) (.word name :: .punctuator "(" :: input)
      (.function name [fragments]) rest := by
  refine (takes_dialect _).bind (.current he fun t ht => ?_)
  have hliteral : t.literal = name := congrArg Lexeme.literal ht
  rw [hliteral, hname]
  refine .ite_false rfl ((takes_advance _ _).bind ?_)
  refine (takes_expectPunctuator he (by decide) _).bind ?_
  refine (takes_eatPunctuator_false he hinput).bind (.ite_false rfl ?_)
  refine Takes.bind (.bounded ?_) (.pure _ _)
  exact hargument.bind
    ((takes_eatPunctuator he (by decide) rest).bind (.ite_true rfl (.pure _ _)))

theorem takes_operand_function {name : String} (hname : isReserved name = false)
    (hcall : Takes s (functionCall r) (.word name :: .punctuator "(" :: input) e rest) :
    Takes s (operand r) (.word name :: .punctuator "(" :: input) e rest := by
  refine .current he fun t ht => ?_
  have hkind : t.kind = .identifier := by
    have ht : t.lexeme = .word name := ht
    rw [← Lexeme.kind_word_of_isReserved hname, ← ht]
    rfl
  simp only [hkind]
  exact (takes_nextIsOpenParen he _).bind (.ite_true rfl hcall)

/-- Where an operand may start: behind an opening parenthesis, this is no query, and in an argument
no word of its own. -/
def StartsOperand (input : List Lexeme) : Prop :=
  (ahead 0 input).kind ≠ .eof ∧ (∀ p ∈ [")", ","], (ahead 0 input).isPunctuator p = false) ∧
    ∀ k ∈ "SELECT" :: "WITH" :: argumentWords, (ahead 0 input).isKeyword k = false

omit he in
theorem StartsOperand.exists_cons (h : StartsOperand input) : ∃ l ls, input = l :: ls := by
  cases input with
  | nil => exact absurd rfl h.1
  | cons l ls => exact ⟨l, ls, rfl⟩

omit he in
theorem startsOperand_word {w : String} (h : isReserved w = false ∨ w ∈ ["TRUE", "FALSE"])
    (ls : List Lexeme) : StartsOperand (.word w :: ls) ∧
      (ahead 0 (Lexeme.word w :: ls)).isPunctuator "(" = false := by
  refine ⟨⟨?_, fun p _ => Lexeme.isPunctuator_word w p, fun k hk => ?_⟩,
    Lexeme.isPunctuator_word w "("⟩
  · rw [Lexeme.ahead_zero, Lexeme.word]
    split <;> simp
  · rw [Lexeme.ahead_zero]
    rcases h with h | h
    · exact Lexeme.isKeyword_word h k
    · have hall : ∀ w ∈ ["TRUE", "FALSE"], ∀ k ∈ "SELECT" :: "WITH" :: argumentWords,
          (Lexeme.word w).isKeyword k = false := by decide
      exact hall w h k hk

theorem takes_argumentGoesOn (input : List Lexeme) : Takes s argumentGoesOn input
    (!((ahead 0 input).isPunctuator "," || (ahead 0 input).isPunctuator ")" || input.isEmpty))
    input :=
  (takes_atPunctuator he "," input).bind <| (takes_atPunctuator he ")" input).bind <|
    (takes_atEnd input).bind (.pure _ _)

/-- An argument is an expression, behind `DISTINCT` if the argument is distinct. -/
theorem takes_argument (distinct : Option String) (hdistinct : ∀ w ∈ distinct, w = "DISTINCT")
    (hexpression : Takes s (r.expression .lowest) input e (.punctuator ")" :: rest))
    (hinput : StartsOperand input) (hparen : (ahead 0 input).isPunctuator "(" = false) :
    Takes s (argument r) (distinct.toList.map Lexeme.word ++ input)
      (distinct.toList.map Fragment.word ++ [Fragment.expr e]) (.punctuator ")" :: rest) := by
  obtain ⟨-, hends, hwords⟩ := id hinput
  obtain ⟨l, ls, rfl⟩ := hinput.exists_cons
  have hgoes : Takes s argumentGoesOn (l :: ls) true (l :: ls) := by
    have := takes_argumentGoesOn he (l :: ls)
    rwa [hends "," (by decide), hends ")" (by decide)] at this
  have hend : Takes s argumentGoesOn (.punctuator ")" :: rest) false (.punctuator ")" :: rest) :=
    takes_argumentGoesOn he (.punctuator ")" :: rest)
  have hexpr : Takes s (argumentFragment r) (l :: ls) (.expr e) (.punctuator ")" :: rest) := by
    have hnoWord : argumentWords.any l.isKeyword = false := by
      refine List.any_eq_false.2 fun k hk => ?_
      simpa using hwords k (List.mem_cons_of_mem _ (List.mem_cons_of_mem _ hk))
    refine (takes_atAnyKeyword he argumentWords _).bind ((takes_nextIsOpenParen he _).bind ?_)
    refine .ite_false ?_ (hexpression.bind (.pure _ _))
    rw [Lexeme.ahead_zero, hnoWord]
    rfl
  have hrun (n : Nat) : Takes s (itemsWhile argumentGoesOn (argumentFragment r) (n + 1)) (l :: ls)
      [.expr e] (.punctuator ")" :: rest) :=
    takes_itemsWhile_cons hgoes hexpr (takes_itemsWhile_nil hend n)
  cases distinct with
  | none =>
    exact Takes.bind (.bounded (hrun ls.length)) (.ite_false rfl (.pure _ _))
  | some w =>
    obtain rfl := hdistinct w rfl
    have hword : Takes s (argumentFragment r) (.word "DISTINCT" :: l :: ls) (.word "DISTINCT")
        (l :: ls) := by
      refine (takes_atAnyKeyword he argumentWords _).bind ((takes_nextIsOpenParen he _).bind ?_)
      refine .ite_true ?_ ((takes_advance (.word "DISTINCT") _).bind (.pure _ _))
      rw [Lexeme.ahead_succ, hparen, Lexeme.ahead_zero]
      decide
    have hfirst := takes_itemsWhile_cons
      (takes_argumentGoesOn he (.word "DISTINCT" :: l :: ls)) hword (hrun ls.length)
    exact Takes.bind (.bounded hfirst) (.ite_false rfl (.pure _ _))

/-! ### Parentheses -/

/-- No query starts here, though maybe behind parentheses another expression. -/
inductive NoQuery : List Lexeme → Prop
  | start {l : Lexeme} {ls : List Lexeme}
      (hwords : ∀ k ∈ ["SELECT", "WITH", "FROM"], l.isKeyword k = false)
      (hparen : l.isPunctuator "(" = false) : NoQuery (l :: ls)
  | paren {ls : List Lexeme} (h : NoQuery ls) : NoQuery (.punctuator "(" :: ls)

/-- Even where a query may lack its select clause, it starts with some word. -/
theorem rejects_querySpec {l : Lexeme} (hselect : l.isKeyword "SELECT" = false)
    (hfrom : l.isKeyword "FROM" = false) (ls : List Lexeme) :
    Rejects s (querySpec r) (l :: ls) := by
  cases hmissing : s.dialect.allowsMissingSelect with
  | false =>
    refine .bind_left (.bind_right (takes_atKeyword he "SELECT" _) (.ite_false hselect ?_))
    exact .bind_right (takes_dialect _) (.ite_false hmissing (.reject _ _))
  | true =>
    have hclause : Takes s (selectClause r) (l :: ls) ("", none, []) (l :: ls) :=
      (takes_atKeyword he "SELECT" _).bind <| .ite_false hselect <|
        (takes_dialect _).bind (.ite_true hmissing (.pure _ _))
    have hroots : Takes s (fromClause r) (l :: ls) ("", []) (l :: ls) :=
      (takes_atKeyword he "FROM" _).bind <| .ite_false hfrom <|
        (takes_dialect _).bind (.ite_true hmissing (.pure _ _))
    exact .bind_right hclause (.bind_right hroots (.ite_true rfl (.reject _ _)))

theorem rejects_select (h : NoQuery input) (n : Nat) : Rejects s (rules n).select input := by
  induction h generalizing n with
  | start hwords hparen =>
    cases n with
    | zero => exact .reject _ _
    | succ n =>
      have hwith := hwords "WITH" (by decide)
      refine .bind_right ((takes_atKeyword he "WITH" _).bind (.ite_false hwith (.pure _ _))) ?_
      refine .bind_left (.bind_right (takes_eatPunctuator_false he hparen) (.ite_false rfl ?_))
      exact .bind_left (rejects_querySpec he (hwords "SELECT" (by decide))
        (hwords "FROM" (by decide)) _)
  | paren h ih =>
    cases n with
    | zero => exact .reject _ _
    | succ n =>
      refine .bind_right ((takes_atKeyword he "WITH" _).bind (.ite_false rfl (.pure _ _))) ?_
      refine .bind_left (.bind_right (takes_eatPunctuator he (by decide) _) (.ite_true rfl ?_))
      exact .bind_left (ih n)

/-- In front of an expression there is no query, be it in parentheses itself. -/
theorem takes_nestedQuery?_none (hmode : s.mode = .backtracking) (h : NoQuery input) (n : Nat) :
    Takes s (nestedQuery? (rules n)) (.punctuator "(" :: input) none
      (.punctuator "(" :: input) := by
  refine (takes_nextIsOpenParen he _).bind ?_
  cases hparen : (ahead 1 (.punctuator "(" :: input)).isPunctuator "(" with
  | false => exact .ite_false rfl (.pure _ _)
  | true =>
    refine .ite_true rfl ((takes_setting _).bind ?_)
    rw [hmode]
    refine .attempt_none (.bind_right (takes_expectPunctuator he (by decide) _) ?_)
    exact .bind_left (rejects_select he h n)

theorem takes_operand_nested (hmode : s.mode = .backtracking) {n : Nat} (hquery : NoQuery input)
    (hinput : Takes s ((rules n).expression .lowest) input e (.punctuator ")" :: rest)) :
    Takes s (operand (rules n)) (.punctuator "(" :: input) (.nested e) rest := by
  have hword : ["SELECT", "WITH"].any (ahead 0 input).isKeyword = false := by
    cases hquery with
    | start hwords => simp [hwords]
    | paren => rfl
  refine .current he fun t ht => ?_
  have hkind : t.kind = .punctuator := congrArg Lexeme.kind ht
  have hliteral : t.literal = "(" := congrArg Lexeme.literal ht
  simp only [hkind, hliteral]
  refine .ite_true rfl ?_
  refine (takes_nestedQuery?_none he hmode hquery n).bind ?_
  refine (takes_expectPunctuator he (by decide) _).bind ?_
  refine (takes_atAnyKeyword he _ _).bind (.ite_false hword (hinput.bind ?_))
  refine (takes_atPunctuator he _ _).bind (.ite_false rfl ?_)
  exact (takes_expectPunctuator he (by decide) _).bind (.pure _ _)

/-! ### Operators -/

theorem takes_nextPrecedence (input : List Lexeme) :
    Takes s nextPrecedence input (nextOf input) input := by
  refine .current he fun t ht => .peekAt he 1 fun next hnext => ?_
  have hpure : Takes s (Pure.pure (t.lexeme.precedence next.lexeme)) input
      (t.lexeme.precedence next.lexeme) input := .pure _ _
  rw [nextOf, ← ht, ← hnext]
  unfold Lexeme.precedence at hpure ⊢
  simp only [apply_ite (Pure.pure : _ → Parser Precedence)] at hpure
  exact hpure

theorem takes_extendWhile_stop (h : (nextOf input).rank ≤ precedence.rank) (n : Nat) :
    Takes s (extendWhile r precedence left n) input left input := by
  cases n with
  | zero => exact .pure _ _
  | succ n =>
    refine (takes_nextPrecedence he input).bind ?_
    rw [if_pos h]
    exact .pure _ _

theorem takes_extendWhile_step {n : Nat} {e' : Expr} (h : precedence.rank < (nextOf input).rank)
    (hextend : Takes s (extend r left (nextOf input)) input e rest)
    (hrest : Takes s (extendWhile r precedence e n) rest e' behind) :
    Takes s (extendWhile r precedence left (n + 1)) input e' behind := by
  refine (takes_nextPrecedence he input).bind ?_
  rw [if_neg (Nat.not_le.2 h)]
  exact hextend.bind hrest

theorem takes_extend_binary {l : Lexeme} (hl : l.kind = .operator ∨ l.isKeyword "AND" = true ∨
      l.isKeyword "OR" = true) (hright : Takes s (r.expression precedence) input e rest) :
    Takes s (extend r left precedence) (l :: input) (.binary left l.literal e) rest := by
  refine .current he fun t ht => .ite_true ?_ ((takes_advance l input).bind
    (hright.bind (.pure _ _)))
  have ht : t.lexeme = l := ht
  subst ht
  rcases hl with h | h | h
  · have h : t.kind = .operator := h
    simp [h]
  · have h : t.isKeyword "AND" = true := h
    simp [h]
  · have h : t.isKeyword "OR" = true := h
    simp [h]

theorem takes_expression_of_operand (h : Takes s (operand r) input e rest)
    (hrest : (nextOf rest).rank ≤ precedence.rank) :
    Takes s (expression r precedence) input e rest :=
  h.bind (.bounded (takes_extendWhile_stop he hrest _))

theorem takes_path {n : Nat} {precedence : Precedence} {first : String}
    (hfirst : isReserved first = false) (names : List String) (hrest : EndsExpression rest) :
    Takes s ((rules (n + 1)).expression precedence) (Lexeme.dotted first names ++ rest)
      (.path (first :: names)) rest :=
  takes_expression_of_operand he (takes_operand_path he hfirst names hrest.operand) (hrest.stop _)

/-- A call with a path as its argument, which may be distinct. -/
theorem takes_pathCall {n : Nat} {name first : String} (hname : isReserved name = false)
    (haccepts : s.dialect.acceptsFunction name = true) (distinct : Option String)
    (hdistinct : ∀ w ∈ distinct, w = "DISTINCT") (hfirst : isReserved first = false)
    (names : List String) (hrest : EndsExpression rest) :
    Takes s ((rules (n + 2)).expression precedence) (.word name :: .punctuator "(" ::
        (distinct.toList.map Lexeme.word ++ (Lexeme.dotted first names ++ .punctuator ")" :: rest)))
      (.function name [distinct.toList.map Fragment.word ++ [Fragment.expr (.path (first :: names))]])
      rest := by
  have hpath : Takes s ((rules (n + 1)).expression .lowest)
      (Lexeme.dotted first names ++ .punctuator ")" :: rest) (.path (first :: names))
      (.punctuator ")" :: rest) := takes_path he hfirst names ⟨⟨rfl, rfl⟩, rfl⟩
  obtain ⟨hstarts, hparen⟩ := startsOperand_word (.inl hfirst)
    (names.flatMap (fun n => [Lexeme.punctuator ".", .word n]) ++ .punctuator ")" :: rest)
  have hargument := takes_argument he distinct hdistinct hpath hstarts hparen
  have hclose : (ahead 0 (distinct.toList.map Lexeme.word ++
      (Lexeme.dotted first names ++ .punctuator ")" :: rest))).isPunctuator ")" = false := by
    cases distinct <;> exact Lexeme.isPunctuator_word _ _
  exact takes_expression_of_operand he (takes_operand_function he hname
    (takes_functionCall he haccepts hargument hclose)) (hrest.stop _)

/-- What is parsed so far is gone on with, however many rounds are left. -/
def GoesOn (s : Setting) (r : Rules) (precedence : Precedence) (left : Expr) (rest : List Lexeme)
    (e : Expr) (behind : List Lexeme) : Prop :=
  ∀ n, rest.length ≤ n → Takes s (extendWhile r precedence left n) rest e behind

theorem goesOn_stop (h : (nextOf rest).rank ≤ precedence.rank) :
    GoesOn s r precedence left rest left rest := fun n _ => takes_extendWhile_stop he h n

/-- An operator takes a right side that binds closer than itself. -/
theorem goesOn_binary {l : Lexeme} {p : Precedence} {right : Expr} (hl : l.kind = .operator ∨
      l.isKeyword "AND" = true ∨ l.isKeyword "OR" = true) (hnext : nextOf (l :: input) = p)
    (hright : Takes s (r.expression p) input right rest) (hlength : rest.length ≤ input.length)
    (hprecedence : precedence.rank < p.rank)
    (hgo : GoesOn s r precedence (.binary left l.literal right) rest e behind) :
    GoesOn s r precedence left (l :: input) e behind := by
  intro n hn
  rw [List.length_cons] at hn
  obtain ⟨n, rfl⟩ : ∃ k, n = k + 1 := ⟨n - 1, by omega⟩
  refine takes_extendWhile_step he (by rwa [hnext]) ?_ (hgo n (by omega))
  rw [hnext]
  exact takes_extend_binary he hl hright

/-- The tests that may be negated, each by what it makes of the lexemes behind its word. -/
def testBehind (r : Rules) (left : Expr) (words : List String) (w : String) : Parser Expr :=
  if eqIgnoringCase w "LIKE" then likeTest r left (" ".intercalate words)
  else if eqIgnoringCase w "IN" then inTest r left (" ".intercalate words)
  else if eqIgnoringCase w "BETWEEN" then betweenTest r left (" ".intercalate words)
  else if eqIgnoringCase w "MEMBER" then memberTest r left words
  else noAlternative

theorem takes_extend_test {w : String} (hw : w ∈ ["LIKE", "IN", "BETWEEN", "MEMBER"])
    {notWord : Option String} (hnot : ∀ n ∈ notWord, n = "NOT")
    (h : Takes s (testBehind r left (notWord.toList ++ [w]) w) input e rest) :
    Takes s (extend r left precedence) (notWord.toList.map .word ++ .word w :: input) e rest := by
  have hall : ∀ w ∈ ["LIKE", "IN", "BETWEEN", "MEMBER", "NOT"], (Lexeme.word w).kind = .keyword ∧
      ∀ k ∈ ["AND", "OR", "IS"], (Lexeme.word w).isKeyword k = false := by decide
  have hnone : ∀ w ∈ ["LIKE", "IN", "BETWEEN", "MEMBER"],
      (Lexeme.word w).isKeyword "NOT" = false := by decide
  -- what follows once the negation is taken
  have htest : Takes s (Grammar.current >>= fun t => advance >>= fun word =>
      if eqIgnoringCase t.literal "LIKE" then
        likeTest r left (" ".intercalate (notWord.toList ++ [word]))
      else if eqIgnoringCase t.literal "IN" then
        inTest r left (" ".intercalate (notWord.toList ++ [word]))
      else if eqIgnoringCase t.literal "BETWEEN" then
        betweenTest r left (" ".intercalate (notWord.toList ++ [word]))
      else if eqIgnoringCase t.literal "MEMBER" then memberTest r left (notWord.toList ++ [word])
      else noAlternative) (.word w :: input) e rest := by
    refine .current he fun t ht => (takes_advance _ _).bind ?_
    have hliteral : t.literal = w := congrArg Lexeme.literal ht
    rw [hliteral]
    exact h
  have hstart {v : String} (hv : v ∈ ["LIKE", "IN", "BETWEEN", "MEMBER", "NOT"])
      {t : Token} (ht : t.lexeme = .word v) :
      (t.kind == .operator || t.isKeyword "AND" || t.isKeyword "OR") = false ∧
        t.isKeyword "IS" = false := by
    obtain ⟨hkind, hwords⟩ := hall v hv
    rw [← ht] at hkind hwords
    have hkind : t.kind = .keyword := hkind
    have hand : t.isKeyword "AND" = false := hwords "AND" (by decide)
    have hor : t.isKeyword "OR" = false := hwords "OR" (by decide)
    exact ⟨by simp [hkind, hand, hor], hwords "IS" (by decide)⟩
  cases notWord with
  | none =>
    refine .current he fun t ht => ?_
    obtain ⟨hbinary, his⟩ := hstart (List.mem_append_left ["NOT"] hw) ht
    refine .ite_false hbinary (.ite_false his ((takes_eatKeyword_none he ?_).bind htest))
    exact hnone w hw
  | some n =>
    obtain rfl := hnot n rfl
    refine .current he fun t ht => ?_
    obtain ⟨hbinary, his⟩ := hstart (v := "NOT") (by decide) ht
    exact .ite_false hbinary (.ite_false his ((takes_eatKeyword he (by decide) _).bind htest))

theorem takes_likeTest {words t : String} (hpattern : Takes s (r.expression .comparison) input e
      (.word "ESCAPE" :: ⟨.string, t⟩ :: rest)) :
    Takes s (likeTest r left words) input (.likeEscaped left words e "ESCAPE" (.literal t)) rest :=
  hpattern.bind ((takes_eatKeyword he (by decide) _).bind
    ((takes_operand_literal he (l := ⟨.string, t⟩) List.mem_cons_self rest).bind (.pure _ _)))

theorem takes_betweenTest {words : String} {high : Expr}
    (hlow : Takes s (r.expression .comparison) input e (.word "AND" :: rest))
    (hhigh : Takes s (r.expression .comparison) rest high behind) :
    Takes s (betweenTest r left words) input (.between left words e "AND" high) behind :=
  hlow.bind ((takes_expectKeyword he (by decide) _).bind (hhigh.bind (.pure _ _)))

/-- A list of one value. -/
theorem takes_inTest {n : Nat} {words : String}
    (hvalue : Takes s ((rules n).expression .lowest) input e (.punctuator ")" :: rest))
    (hinput : StartsOperand input) (hparen : (ahead 0 input).isPunctuator "(" = false) :
    Takes s (inTest (rules n) left words) (.punctuator "(" :: input) (.inValues left words [e])
      rest := by
  obtain ⟨-, hends, hwords⟩ := hinput
  refine (takes_atPunctuator he _ _).bind (.ite_false rfl ?_)
  have hnone : Takes s (nestedQuery? (rules n)) (.punctuator "(" :: input) none
      (.punctuator "(" :: input) :=
    (takes_nextIsOpenParen he _).bind (.ite_false hparen (.pure _ _))
  refine hnone.bind (.peekAt he 1 fun next hnext => ?_)
  have hquery : ["SELECT", "WITH"].any next.isKeyword = false := by
    have hnext : next.lexeme = ahead 0 input := hnext
    rw [← hnext] at hwords
    have hselect : next.isKeyword "SELECT" = false := hwords "SELECT" (by decide)
    have hwith : next.isKeyword "WITH" = false := hwords "WITH" (by decide)
    simp [hselect, hwith]
  refine .ite_false hquery ((takes_advance _ _).bind ?_)
  refine (takes_eatPunctuator_false he (hends ")" (by decide))).bind (.ite_false rfl ?_)
  have hlist : Takes s (rules n).expressions input [e] (.punctuator ")" :: rest) := by
    refine hvalue.bind (Takes.bind (.bounded ?_) (.pure _ _))
    exact (takes_eatPunctuator_false he rfl).bind (.ite_false rfl (.pure _ _))
  exact hlist.bind ((takes_expectPunctuator he (by decide) _).bind (.pure _ _))

theorem takes_memberTest {words : List String}
    (hcollection : Takes s (r.expression .comparison) input e rest) :
    Takes s (memberTest r left words) (.word "OF" :: input)
      (.member left (" ".intercalate (words ++ ["OF"])) e) rest :=
  (takes_eatKeyword he (by decide) _).bind (hcollection.bind (.pure _ _))

theorem takes_extend_is {w : String} (hw : w ∈ ["NULL", "EMPTY", "TRUE", "FALSE"])
    {notWord : Option String} (hnot : ∀ n ∈ notWord, n = "NOT") (rest : List Lexeme) :
    Takes s (extend r left precedence)
      (.word "IS" :: (notWord.toList.map .word ++ .word w :: rest))
      (.is left (" ".intercalate ("IS" :: notWord.toList ++ [w])) none) rest := by
  have hall : ∀ w ∈ ["NULL", "EMPTY", "TRUE", "FALSE"],
      (Lexeme.word w).isKeyword "NOT" = false ∧ (Lexeme.word w).isKeyword "DISTINCT" = false ∧
      ["NULL", "EMPTY", "TRUE", "FALSE"].any (Lexeme.word w).isKeyword = true := by decide
  obtain ⟨hnone, hdistinct, hany⟩ := hall w hw
  refine .current he fun t ht => ?_
  have ht : t.lexeme = .word "IS" := ht
  have hbinary : (t.kind == .operator || t.isKeyword "AND" || t.isKeyword "OR") = false := by
    change (t.lexeme.kind == .operator || t.lexeme.isKeyword "AND" || t.lexeme.isKeyword "OR") = _
    rw [ht]
    decide
  have his : t.isKeyword "IS" = true := by
    change t.lexeme.isKeyword "IS" = true
    rw [ht]
    decide
  refine .ite_false hbinary (.ite_true his ((takes_advance _ _).bind ?_))
  have hword := takes_eatAnyKeyword he hany rest
  have hnoDistinct : Takes s (eatKeyword "DISTINCT") (.word w :: rest) none (.word w :: rest) :=
    takes_eatKeyword_none he hdistinct
  cases notWord with
  | none =>
    refine (takes_eatKeyword_none he ?_).bind
      (hnoDistinct.bind (hword.bind (Takes.bind (.pure _ _) (.pure _ _))))
    exact hnone
  | some n =>
    obtain rfl := hnot n rfl
    exact (takes_eatKeyword he (by decide) _).bind
      (hnoDistinct.bind (hword.bind (Takes.bind (.pure _ _) (.pure _ _))))

end Grammar

end Jpql
