import Jpql.Proofs.Grammar.Modes

/-! One dialect inside another. The extended dialect knows more functions than the standard one and
is the same otherwise, so what the standard dialect parses the extended one should parse alike. The
danger is a query that only the extended dialect finds behind two opening parentheses, for it takes
the place of the expression that the standard dialect goes on to look for. There is no such
expression: up to the second closing parenthesis the query is a query by itself, and an expression
that starts with it cannot go on with the set operation that stopped the standard dialect. -/

namespace Jpql.Grammar

open Jpql.Grammar.Parser
open Comparison

variable {α β : Type}

/-- What the standard dialect parses, the extended one parses to the same. -/
def extension : Comparison where
  Dialects d e := d = .jpql ∧ e = .eql
  Modes m n := m = .backtracking ∧ n = .backtracking
  Rel x y := ∀ v, x = .ok v → y = .ok v
  missingSelect := by rintro _ _ ⟨rfl, rfl⟩; rfl
  paging := by rintro _ _ ⟨rfl, rfl⟩; rfl
  accepts := by
    rintro _ _ name ⟨rfl, rfl⟩ h
    simp only [Dialect.acceptsFunction, List.any_append, Bool.or_eq_true] at h ⊢
    exact .inl h
  rejects _ _ _ _ _ _ := nofun
  same _ _ h := h
  andThen := by
    intro α β x y f g hx hfg v h
    rcases x with e | ⟨a, rest⟩
    · cases h
    · rw [hx _ rfl]
      exact hfg a rest v h

/-! ### Single steps -/

section Steps

variable {r : Rules} {s t : Setting} {ts : List Token}

/-- The token a parser is at. -/
def front (s : Setting) (ts : List Token) : Token := ts[0]?.getD s.eof

theorem bind_ok_iff {p : Parser α} {f : α → Parser β} {v : β × List Token} :
    (p >>= f) s ts = .ok v ↔ ∃ a rest, p s ts = .ok (a, rest) ∧ f a s rest = .ok v := by
  rw [bind_eq]
  rcases p s ts with e | ⟨a, rest⟩
  · simp
  · constructor
    · exact fun h => ⟨a, rest, rfl, h⟩
    · rintro ⟨_, _, h, hf⟩
      cases h
      exact hf

theorem atAnyKeyword_eq (ks : List String) :
    atAnyKeyword ks s ts = .ok (ks.any (front s ts).isKeyword, ts) := rfl

theorem atPunctuator_eq (p : String) :
    atPunctuator p s ts = .ok ((front s ts).isPunctuator p, ts) := rfl

theorem eatPunctuator_eq (p : String) : eatPunctuator p s ts =
    .ok ((front s ts).isPunctuator p, if (front s ts).isPunctuator p then ts.tail else ts) := by
  show ((eatIf ((front s ts).isPunctuator p) >>= fun found => pure found.isSome) : Parser Bool) s ts
    = _
  cases (front s ts).isPunctuator p with
  | true => rfl
  | false => rfl

theorem expectPunctuator_ok_iff {p : String} {v : Unit × List Token} :
    expectPunctuator p s ts = .ok v ↔ (front s ts).isPunctuator p = true ∧ v = ((), ts.tail) := by
  unfold expectPunctuator
  rw [bind_eq, eatPunctuator_eq]
  cases (front s ts).isPunctuator p with
  | true => simp [pure, eq_comm]
  | false => simp [mismatched, reject]

theorem peek_eq : peek s ts = .ok (front s ts.tail, ts) := by
  simp [peek, peekAt, front, List.getElem?_tail]

theorem isKeyword_of_isPunctuator {t : Token} {p : String} (h : t.isPunctuator p = true)
    (k : String) : t.isKeyword k = false := by
  simp only [Token.isPunctuator, Bool.and_eq_true, beq_iff_eq] at h
  simp [Token.isKeyword, h.1]

theorem isPunctuator_of_ne {t : Token} {p q : String} (h : t.isPunctuator p = true)
    (hne : p ≠ q) : t.isPunctuator q = false := by
  simp only [Token.isPunctuator, Bool.and_eq_true, beq_iff_eq] at h
  simp [Token.isPunctuator, h.2, hne]

/-- A list ends where no comma follows. -/
theorem commaTail_of_not {item : Parser α} (h : (front s ts).isPunctuator "," = false) :
    bounded (commaTail item) s ts = .ok ([], ts) := by
  show commaTail item ts.length s ts = _
  cases ts.length with
  | zero => rfl
  | succ n =>
    rw [commaTail, bind_eq, eatPunctuator_eq, h]
    rfl

theorem nextIsOpenParen_eq :
    nextIsOpenParen s ts = .ok ((front s ts.tail).isPunctuator "(", ts) := by
  show (peek >>= fun next => pure (next.isPunctuator "(") : Parser Bool) s ts = _
  rw [bind_eq, peek_eq]
  rfl

theorem nestedQuery?_eq (hs : s.mode = .backtracking) : nestedQuery? r s ts =
    if (front s ts.tail).isPunctuator "(" then attempt (parenthesizedQuery r) s ts
    else .ok (none, ts) := by
  obtain ⟨dialect, mode, last⟩ := s
  obtain rfl : mode = .backtracking := hs
  rw [nestedQuery?, bind_eq, nextIsOpenParen_eq]
  cases (front _ ts.tail).isPunctuator "(" with
  | true => rfl
  | false => rfl

/-- A query in parentheses, from its outcome. -/
theorem parenthesizedQuery_ok_iff {query : SelectStatement} {rest : List Token} :
    parenthesizedQuery r s ts = .ok (query, rest) ↔ (front s ts).isPunctuator "(" = true ∧
      ∃ behind, r.select s ts.tail = .ok (query, behind) ∧
        (front s behind).isPunctuator ")" = true ∧ rest = behind.tail := by
  simp only [parenthesizedQuery, bind_ok_iff, expectPunctuator_ok_iff]
  constructor
  · rintro ⟨_, _, ⟨hopen, h⟩, _, behind, hselect, _, _, ⟨hclose, h'⟩, hv⟩
    cases h; cases h'; cases hv
    exact ⟨hopen, behind, hselect, hclose, rfl⟩
  · rintro ⟨hopen, behind, hselect, hclose, rfl⟩
    exact ⟨_, _, ⟨hopen, rfl⟩, _, _, hselect, _, _, ⟨hclose, rfl⟩, rfl⟩

theorem operand_of_open (h : (front s ts).isPunctuator "(" = true) :
    operand r s ts = parenthesized r s ts := by
  simp only [Token.isPunctuator, Bool.and_eq_true] at h
  rw [operand, bind_eq, show current s ts = .ok (front s ts, ts) from rfl]
  simp only [beq_iff_eq.1 h.1, h.2, if_true]

end Steps

/-! ### Set operations -/

section SetOperations

variable {r : Rules} {s t : Setting} {ts : List Token}

def setOperationWords : List String := ["UNION", "INTERSECT", "EXCEPT"]

/-- A set operation starts here. -/
def AtSetOperation (s : Setting) (ts : List Token) : Prop :=
  setOperationWords.any (front s ts).isKeyword = true

theorem AtSetOperation.kind (h : AtSetOperation s ts) : (front s ts).kind = .keyword := by
  obtain ⟨k, -, hk⟩ := List.any_eq_true.1 h
  simp only [Token.isKeyword, Bool.and_eq_true, beq_iff_eq] at hk
  exact hk.1

theorem AtSetOperation.isPunctuator (h : AtSetOperation s ts) (p : String) :
    (front s ts).isPunctuator p = false := by
  simp [Token.isPunctuator, h.kind]

/-- A word that starts a set operation is no other word. -/
theorem AtSetOperation.isKeyword (h : AtSetOperation s ts) {k : String}
    (hk : ∀ w ∈ setOperationWords, eqIgnoringCase w k = false) :
    (front s ts).isKeyword k = false := by
  obtain ⟨w, hw, hword⟩ := List.any_eq_true.1 h
  simp only [Token.isKeyword, Bool.and_eq_true, eqIgnoringCase, beq_iff_eq] at hword
  have := hk w hw
  rw [eqIgnoringCase, ← hword.2] at this
  rw [Token.isKeyword, eqIgnoringCase, this, Bool.and_false]

theorem AtSetOperation.nextPrecedence (h : AtSetOperation s ts) :
    nextPrecedence s ts = .ok (.lowest, ts) := by
  unfold Grammar.nextPrecedence
  rw [bind_eq, show current s ts = .ok (front s ts, ts) from rfl]
  show (peek >>= _) s ts = _
  rw [bind_eq, peek_eq]
  simp only [h.kind, List.any_cons, List.any_nil, h.isKeyword (k := "OR") (by decide),
    h.isKeyword (k := "AND") (by decide), h.isKeyword (k := "IS") (by decide),
    h.isKeyword (k := "LIKE") (by decide), h.isKeyword (k := "IN") (by decide),
    h.isKeyword (k := "BETWEEN") (by decide), h.isKeyword (k := "MEMBER") (by decide),
    h.isKeyword (k := "NOT") (by decide)]
  rfl

/-- An expression ends in front of a set operation. -/
theorem AtSetOperation.extendWhile (h : AtSetOperation s ts) (left : Expr) (n : Nat) :
    extendWhile r .lowest left n s ts = .ok (left, ts) := by
  cases n with
  | zero => rfl
  | succ n =>
    rw [Grammar.extendWhile, bind_eq, h.nextPrecedence]
    rfl

def setOperations (r : Rules) : Parser (List SetOperation) :=
  manyWhile (atAnyKeyword setOperationWords) (setOperation r)

theorem setOperations_of_not (h : ¬ AtSetOperation s ts) :
    setOperations r s ts = .ok ([], ts) := by
  have htest : atAnyKeyword setOperationWords s ts = .ok (false, ts) := by
    rw [atAnyKeyword_eq, Bool.eq_false_iff.2 h]
  show itemsWhile _ _ ts.length s ts = _
  cases ts.length with
  | zero => rfl
  | succ n =>
    rw [itemsWhile, bind_eq, htest]
    rfl

theorem withClause_of_not (h : (front s ts).isKeyword "WITH" = false) :
    withClause r s ts = .ok (("", []), ts) := by
  show (if (front s ts).isKeyword "WITH" then _ else Pure.pure ("", []) : Parser _) s ts = _
  rw [h]
  rfl

theorem queryTerm_of_open (h : (front s ts).isPunctuator "(" = true) {term : QueryTerm}
    {rest : List Token} : queryTerm r s ts = .ok (term, rest) ↔
      ∃ nested, parenthesizedQuery r s ts = .ok (nested, rest) ∧ term = .nested nested := by
  have hterm : queryTerm r s ts =
      (r.select >>= fun nested => expectPunctuator ")" >>= fun _ =>
        pure (QueryTerm.nested nested)) s ts.tail := by
    rw [queryTerm, bind_eq, eatPunctuator_eq, h]
    rfl
  rw [hterm]
  simp only [bind_ok_iff, expectPunctuator_ok_iff, parenthesizedQuery_ok_iff, h, true_and]
  constructor
  · rintro ⟨nested, behind, hselect, _, _, ⟨hclose, hv⟩, hterm⟩
    cases hv
    cases hterm
    exact ⟨nested, ⟨behind, hselect, hclose, rfl⟩, rfl⟩
  · rintro ⟨nested, ⟨behind, hselect, hclose, rfl⟩, rfl⟩
    exact ⟨nested, behind, hselect, _, _, ⟨hclose, rfl⟩, rfl⟩

/-- A statement whose first query stands in parentheses. -/
theorem selectStatement_of_open (h : (front s ts).isPunctuator "(" = true)
    {query : SelectStatement} {rest : List Token} :
    selectStatement r s ts = .ok (query, rest) ↔ ∃ nested mid operations,
      parenthesizedQuery r s ts = .ok (nested, mid) ∧
        setOperations r s mid = .ok (operations, rest) ∧
          query = ⟨"", [], .nested nested, operations⟩ := by
  simp only [selectStatement, bind_ok_iff, withClause_of_not (isKeyword_of_isPunctuator h _)]
  constructor
  · rintro ⟨_, _, hwith, term, mid, hterm, operations, _, hops, hv⟩
    cases hwith
    cases hv
    obtain ⟨nested, hnested, rfl⟩ := (queryTerm_of_open h).1 hterm
    exact ⟨nested, mid, operations, hnested, hops, rfl⟩
  · rintro ⟨nested, mid, operations, hnested, hops, rfl⟩
    exact ⟨_, _, rfl, _, _, (queryTerm_of_open h).2 ⟨nested, hnested, rfl⟩, _, _, hops, rfl⟩

theorem querySpec_starts {v : QuerySpec × List Token}
    (hd : s.dialect.allowsMissingSelect = false) (h : querySpec r s ts = .ok v) :
    (front s ts).isKeyword "SELECT" = true := by
  obtain ⟨clause, rest, hclause, -⟩ := bind_ok_iff.1 h
  cases hs : (front s ts).isKeyword "SELECT" with
  | true => rfl
  | false =>
    have : selectClause r s ts = mismatched "SELECT" s ts := by
      show (if (front s ts).isKeyword "SELECT" then _ else dialect >>= _ : Parser _) s ts = _
      rw [hs]
      show (if s.dialect.allowsMissingSelect then Pure.pure ("", none, [])
        else mismatched "SELECT" : Parser _) s ts = _
      rw [hd]
      rfl
    rw [this] at hclause
    cases hclause

/-- Without a missing select clause, statements start with one of two words or a parenthesis. -/
theorem selectStatement_starts {v : SelectStatement × List Token}
    (hd : s.dialect.allowsMissingSelect = false) (h : selectStatement r s ts = .ok v) :
    ["SELECT", "WITH"].any (front s ts).isKeyword = true ∨
      (front s ts).isPunctuator "(" = true := by
  cases hwith : (front s ts).isKeyword "WITH" with
  | true => exact .inl (by simp [hwith])
  | false =>
    cases hopen : (front s ts).isPunctuator "(" with
    | true => exact .inr rfl
    | false =>
      simp only [selectStatement, bind_ok_iff, withClause_of_not hwith] at h
      obtain ⟨_, _, hempty, _, _, hterm, -⟩ := h
      cases hempty
      have : queryTerm r s ts = (QueryTerm.spec <$> querySpec r) s ts := by
        rw [queryTerm, bind_eq, eatPunctuator_eq, hopen]
        rfl
      rw [this] at hterm
      obtain ⟨_, _, hspec, -⟩ := bind_ok_iff.1 hterm
      exact .inl (by simp [querySpec_starts hd hspec])

end SetOperations

/-! ### Two opening parentheses -/

section Parentheses

variable {r : Rules} {s t : Setting} {ts : List Token}

/-- Behind two opening parentheses only the second of two ways finds a query. -/
structure FoundLater (r : Rules) (s t : Setting) (ts : List Token) : Prop where
  next : (front s ts.tail).isPunctuator "(" = true
  fails : ∀ v, parenthesizedQuery r s ts ≠ .ok v
  succeeds : ∃ v, parenthesizedQuery r t ts = .ok v

/-- Where only the extended dialect finds a query, an expression behind the first parenthesis ends
in front of a set operation. -/
def Excludes (r : Rules) : Prop :=
  ∀ ⦃s t ts⦄, extension.Pair s t → FoundLater r s t ts → ∀ ⦃left rest⦄,
    r.expression .lowest s ts.tail = .ok (left, rest) → AtSetOperation s rest

/-- No word stands in front of the second parenthesis. -/
theorem FoundLater.noWord (h : FoundLater r s t ts) (ks : List String) :
    ks.any (front s ts.tail).isKeyword = false := by
  rw [List.any_eq_false]
  intro k _
  rw [isKeyword_of_isPunctuator h.next]
  exact Bool.false_ne_true

theorem Excludes.withoutQuery_ne (hx : Excludes r) (hp : extension.Pair s t)
    (h : FoundLater r s t ts) (v : Expr × List Token) : withoutQuery r s ts ≠ .ok v := by
  intro hv
  obtain ⟨_, _, hopen, hv⟩ := bind_ok_iff.1 hv
  cases (expectPunctuator_ok_iff.1 hopen).2
  rw [bind_eq, atAnyKeyword_eq, h.noWord] at hv
  obtain ⟨first, rest, hfirst, hv⟩ := bind_ok_iff.1 hv
  have hat := hx hp h hfirst
  rw [bind_eq, atPunctuator_eq, hat.isPunctuator] at hv
  obtain ⟨_, _, hclose, -⟩ := bind_ok_iff.1 hv
  rw [expectPunctuator_ok_iff, hat.isPunctuator] at hclose
  cases hclose.1

theorem Excludes.listWithoutQuery_ne (hx : Excludes r) (hp : extension.Pair s t)
    (h : FoundLater r s t ts) (left : Expr) (words : String) (v : Expr × List Token) :
    listWithoutQuery r left words s ts ≠ .ok v := by
  intro hv
  rw [listWithoutQuery, bind_eq, peek_eq] at hv
  simp only [h.noWord, Bool.false_eq_true, if_false] at hv
  obtain ⟨_, _, hopen, hv⟩ := bind_ok_iff.1 hv
  cases hopen
  rw [bind_eq, eatPunctuator_eq, isPunctuator_of_ne h.next (by decide)] at hv
  obtain ⟨values, rest, hvalues, hv⟩ := bind_ok_iff.1 hv
  obtain ⟨first, mid, hfirst, htail⟩ := bind_ok_iff.1 hvalues
  have hat := hx hp h hfirst
  obtain ⟨_, _, hclose, -⟩ := bind_ok_iff.1 hv
  obtain ⟨_, _, hnone, hrest⟩ := bind_ok_iff.1 htail
  cases hrest
  rw [commaTail_of_not (hat.isPunctuator _)] at hnone
  cases hnone
  rw [expectPunctuator_ok_iff, hat.isPunctuator] at hclose
  cases hclose.1

/-- Parsers that first look for a query keep their outcomes, if what they do without one fails where
only the extended dialect finds one. -/
theorem keeps_behindNestedQuery (hr : extension.KeepsRules r) {f : SelectStatement → Parser β}
    {p : Parser β} (hf : ∀ query, extension.Keeps (f query)) (hp : extension.Keeps p)
    (hne : ∀ ⦃s t ts⦄, extension.Pair s t → FoundLater r s t ts → ∀ v, p s ts ≠ .ok v) :
    extension.Keeps (nestedQuery? r >>= fun found => match found with
      | some query => f query
      | none => p) := by
  intro s t h ts v hv
  have hfront (ts : List Token) : front t ts = front s ts := by rw [front, front, h.eof]
  rw [bind_eq, nestedQuery?_eq h.modes.1] at hv
  rw [bind_eq, nestedQuery?_eq h.modes.2, hfront]
  cases hnext : (front s ts.tail).isPunctuator "(" with
  | false =>
    rw [hnext] at hv
    exact hp h ts v hv
  | true =>
    rw [hnext] at hv
    simp only [if_true, attempt] at hv ⊢
    rcases hs : parenthesizedQuery r s ts with e | ⟨query, rest⟩
    · rw [hs] at hv
      rcases ht : parenthesizedQuery r t ts with e' | w
      · exact hp h ts v hv
      · exact absurd hv (hne h ⟨hnext, by simp [hs], _, ht⟩ v)
    · rw [hs] at hv
      rw [keeps_parenthesizedQuery hr h ts _ hs]
      exact hf query h rest v hv

variable (hr : extension.KeepsRules r) (hx : Excludes r)

include hr hx

theorem extension_parenthesized : extension.Keeps (parenthesized r) :=
  keeps_behindNestedQuery hr (fun _ => .pure _) (keeps_withoutQuery hr)
    fun _ _ _ hp h v => hx.withoutQuery_ne hp h v

theorem extension_inTest (left : Expr) (words : String) : extension.Keeps (inTest r left words) := by
  refine (keeps_atPunctuator "(").bind fun _ =>
    .ite ((keeps_operand hr (extension_parenthesized hr hx)).bind fun _ => .pure _) ?_
  exact keeps_behindNestedQuery hr (fun _ => .pure _) (keeps_listWithoutQuery hr left words)
    fun _ _ _ hp h v => hx.listWithoutQuery_ne hp h left words v

end Parentheses

/-! ### The grammar -/

theorem select_starts (n : Nat) {s : Setting} {ts : List Token} {v : SelectStatement × List Token}
    (hd : s.dialect.allowsMissingSelect = false) (h : (rules n).select s ts = .ok v) :
    ["SELECT", "WITH"].any (front s ts).isKeyword = true ∨
      (front s ts).isPunctuator "(" = true := by
  cases n with
  | zero => cases h
  | succ n => exact selectStatement_starts hd h

/-- In front of a select statement, `withoutQuery` is the query in parentheses. -/
theorem withoutQuery_of_select {r : Rules} {s : Setting} {ts rest : List Token} {e : Expr}
    (hword : ["SELECT", "WITH"].any (front s ts.tail).isKeyword = true)
    (h : withoutQuery r s ts = .ok (e, rest)) :
    ∃ query, parenthesizedQuery r s ts = .ok (query, rest) := by
  obtain ⟨_, _, hopen, h⟩ := bind_ok_iff.1 h
  obtain ⟨hopens, hv⟩ := expectPunctuator_ok_iff.1 hopen
  cases hv
  rw [bind_eq, atAnyKeyword_eq, hword] at h
  obtain ⟨query, behind, hselect, h⟩ := bind_ok_iff.1 h
  obtain ⟨_, _, hclose, h⟩ := bind_ok_iff.1 h
  obtain ⟨hcloses, hv⟩ := expectPunctuator_ok_iff.1 hclose
  cases hv
  cases h
  exact ⟨query, parenthesizedQuery_ok_iff.2 ⟨hopens, behind, hselect, hcloses, rfl⟩⟩

/-- Where the extended dialect finds a query, the standard dialect finds nothing else. -/
theorem parenthesizedQuery_of_parenthesized {n : Nat} (hx : Excludes (rules n)) {s t : Setting}
    (hp : extension.Pair s t) {ts rest : List Token} {e : Expr}
    (ht : ∃ v, parenthesizedQuery (rules n) t ts = .ok v)
    (hs : parenthesized (rules n) s ts = .ok (e, rest)) :
    ∃ query, parenthesizedQuery (rules n) s ts = .ok (query, rest) := by
  rw [parenthesized, bind_eq, nestedQuery?_eq hp.modes.1] at hs
  cases hnext : (front s ts.tail).isPunctuator "(" with
  | true =>
    rw [hnext] at hs
    simp only [if_true, attempt] at hs
    rcases hq : parenthesizedQuery (rules n) s ts with e' | ⟨query, behind⟩
    · rw [hq] at hs
      exact absurd hs (hx.withoutQuery_ne hp ⟨hnext, by simp [hq], ht⟩ _)
    · rw [hq] at hs
      cases hs
      exact ⟨query, rfl⟩
  | false =>
    rw [hnext] at hs
    obtain ⟨⟨query, last⟩, hquery⟩ := ht
    obtain ⟨-, behind, hselect, -, -⟩ := parenthesizedQuery_ok_iff.1 hquery
    have hd : t.dialect.allowsMissingSelect = false := by rw [hp.dialects.2]; rfl
    have hstart := select_starts n hd hselect
    rw [front, ← hp.eof, ← front, hnext] at hstart
    exact withoutQuery_of_select (hstart.resolve_right Bool.false_ne_true) hs

theorem excludes_succ {n : Nat} (hr : extension.KeepsRules (rules n)) (hx : Excludes (rules n)) :
    Excludes (rules (n + 1)) := by
  intro s t ts hp h left rest hleft
  have hfront (ts : List Token) : front t ts = front s ts := by rw [front, front, hp.eof]
  obtain ⟨⟨query, last⟩, hquery⟩ := h.succeeds
  obtain ⟨hopen, behind, hselect, hclose, -⟩ := parenthesizedQuery_ok_iff.1 hquery
  have hnext := h.next
  rw [← hfront] at hnext
  obtain ⟨nested, mid, operations, hnested, hops, -⟩ := (selectStatement_of_open hnext).1 hselect
  -- The operand is the query up to the second closing parenthesis, in both dialects.
  obtain ⟨e, mid', hoperand, hbehind⟩ := bind_ok_iff.1 hleft
  rw [operand_of_open h.next] at hoperand
  obtain ⟨nested', hnested'⟩ := parenthesizedQuery_of_parenthesized hx hp ⟨_, hnested⟩ hoperand
  have hsame := keeps_parenthesizedQuery hr hp _ _ hnested'
  rw [hnested, Except.ok.injEq, Prod.mk.injEq] at hsame
  obtain ⟨rfl, rfl⟩ := hsame
  have hat : AtSetOperation s mid := by
    by_cases hat : AtSetOperation s mid
    · exact hat
    · -- Without a set operation, the standard dialect would have found the query.
      have hat' : ¬ AtSetOperation t mid := by rwa [AtSetOperation, hfront]
      rw [setOperations_of_not hat', Except.ok.injEq, Prod.mk.injEq] at hops
      obtain ⟨-, rfl⟩ := hops
      have hfound : (rules (n + 1)).select s ts.tail = .ok (⟨"", [], .nested nested, []⟩, mid) :=
        (selectStatement_of_open h.next).2
          ⟨nested, mid, [], hnested', setOperations_of_not hat, rfl⟩
      rw [hfront] at hopen hclose
      exact absurd (parenthesizedQuery_ok_iff.2 ⟨hopen, mid, hfound, hclose, rfl⟩) (h.fails _)
  rw [show bounded (extendWhile (rules n) .lowest e) s mid = _ from hat.extendWhile e _] at hbehind
  cases hbehind
  exact hat

theorem extension_rules (n : Nat) : extension.KeepsRules (rules n) ∧ Excludes (rules n) := by
  induction n with
  | zero =>
    refine ⟨⟨fun _ => keeps_noAlternative, keeps_noAlternative⟩, ?_⟩
    intro s t ts hp h left rest hleft
    cases hleft
  | succ n ih =>
    obtain ⟨hr, hx⟩ := ih
    exact ⟨⟨keeps_expression hr (extension_parenthesized hr hx) (extension_inTest hr hx),
      keeps_selectStatement hr⟩, excludes_succ hr hx⟩

theorem parseTokens_extends {tokens : List Token} {st : Statement}
    (h : parseTokens tokens .jpql .backtracking = .ok st) :
    parseTokens tokens .eql .backtracking = .ok st := by
  obtain ⟨hr, -⟩ := extension_rules (tokens.length + 1)
  have hkeeps := keeps_statement hr (s := ⟨.jpql, .backtracking, tokens.getLast?.getD ⟨.eof, "", {}⟩⟩)
    (t := ⟨.eql, .backtracking, tokens.getLast?.getD ⟨.eof, "", {}⟩⟩) ⟨rfl, ⟨rfl, rfl⟩, ⟨rfl, rfl⟩⟩
    tokens.dropLast
  rw [parseTokens_eq] at h ⊢
  rcases hs : statement (rules (tokens.length + 1))
    ⟨.jpql, .backtracking, tokens.getLast?.getD ⟨.eof, "", {}⟩⟩ tokens.dropLast with e | v
  · rw [Setting.inMode, hs] at h
    cases h
  · rw [Setting.inMode, hs] at h
    rw [Setting.inMode, hkeeps v hs]
    exact h

theorem parse_ok_iff {query : String} {d : Dialect} {s : Statement} :
    parse query d = .ok s ↔ parseTokens (tokenize query) d .backtracking = .ok s := by
  have hne := parseTokens_backtracking_ne (tokenize query) d
  have hmap {x : Except Failure Statement} {f : Failure → GrammarError} :
      x.mapError f = .ok s ↔ x = .ok s := by
    constructor
    · intro hx
      cases x with
      | ok a => cases hx; rfl
      | error e => cases hx
    · rintro rfl
      rfl
  unfold parse
  rw [hmap]
  rcases parseTokens_fast (tokenize query) d with h | h
  · rw [h]
  · rw [h]
    split
    next hb => exact absurd hb hne
    next => rfl

/-- The extended dialect parses every query of the standard dialect, and to the same statement. -/
theorem eql_extends_jpql (query : String) (s : Statement) (h : parse query .jpql = .ok s) :
    parse query .eql = .ok s :=
  parse_ok_iff.2 (parseTokens_extends (parse_ok_iff.1 h))

theorem eql_extends_jpql_behind_parentheses :
    ∃ s, parse "select u from User u where ((u.age) + 1) > 2 and u.id in ((select 1 from V v))"
        .jpql = .ok s ∧
      parse "select u from User u where ((u.age) + 1) > 2 and u.id in ((select 1 from V v))"
        .eql = .ok s := by
  have hsome : (parse
      "select u from User u where ((u.age) + 1) > 2 and u.id in ((select 1 from V v))"
      .jpql).toOption.isSome := by
    decide +kernel
  rcases h : parse "select u from User u where ((u.age) + 1) > 2 and u.id in ((select 1 from V v))"
    .jpql with e | s
  · simp [h, Except.toOption] at hsome
  · exact ⟨s, rfl, eql_extends_jpql _ s h⟩

end Jpql.Grammar
