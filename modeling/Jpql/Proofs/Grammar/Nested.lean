import Jpql.Proofs.Grammar.Carrying

/-! Two opening parentheses up to a seam. -/

namespace Jpql.Grammar

open Jpql.Grammar.Parser
open Comparison (withoutQuery listWithoutQuery)
open Lexeme (ahead)

variable {α β : Type} {e : Edge}

/-! ### Where no query was found -/

section WithoutQuery

variable {r : Rules} {s : Setting} {ts : List Token}

/-- What stands behind the first expression in parentheses. -/
def behindFirst (r : Rules) (first : Expr) : Parser Expr := do
  if ← atPunctuator "," then
    let rest ← bounded (commaTail (r.expression .lowest))
    expectPunctuator ")"
    return .tuple (first :: rest)
  expectPunctuator ")"
  return .nested first

/-- What stands behind the first value of a list. -/
def behindValue (r : Rules) (left : Expr) (words : String) (first : Expr) : Parser Expr := do
  let values ← bounded (commaTail (r.expression .lowest))
  expectPunctuator ")"
  return .inValues left words (first :: values)

/-- Where no query starts behind the parenthesis, an expression is looked for. -/
theorem withoutQuery_of_not (hno : ["SELECT", "WITH"].any (front s ts.tail).isKeyword = false)
    {v : Expr × List Token} (h : withoutQuery r s ts = .ok v) :
    ∃ first mid, r.expression .lowest s ts.tail = .ok (first, mid) ∧
      behindFirst r first s mid = .ok v := by
  obtain ⟨_, _, hopen, h⟩ := bind_ok_iff.1 h
  cases (expectPunctuator_ok_iff.1 hopen).2
  rw [bind_eq, atAnyKeyword_eq, hno] at h
  exact bind_ok_iff.1 h

theorem noQueryWord_of_open (hnext : (front s ts.tail).isPunctuator "(" = true) :
    ["SELECT", "WITH"].any (front s ts.tail).isKeyword = false :=
  List.any_eq_false.2 fun k _ => by simp [isKeyword_of_isPunctuator hnext]

theorem listWithoutQuery_of_open (hnext : (front s ts.tail).isPunctuator "(" = true)
    {left : Expr} {words : String} {v : Expr × List Token}
    (h : listWithoutQuery r left words s ts = .ok v) :
    ∃ first mid, r.expression .lowest s ts.tail = .ok (first, mid) ∧
      behindValue r left words first s mid = .ok v := by
  rw [listWithoutQuery, bind_eq, peek_eq] at h
  simp only [noQueryWord_of_open hnext, Bool.false_eq_true, if_false] at h
  obtain ⟨_, _, hopen, h⟩ := bind_ok_iff.1 h
  cases hopen
  rw [bind_eq, eatPunctuator_eq, isPunctuator_of_ne hnext (by decide)] at h
  obtain ⟨values, rest, hvalues, h⟩ := bind_ok_iff.1 h
  obtain ⟨first, mid, hfirst, htail⟩ := bind_ok_iff.1 hvalues
  obtain ⟨more, behind, hmore, hpure⟩ := bind_ok_iff.1 htail
  cases hpure
  exact ⟨first, mid, hfirst, bind_ok_iff.2 ⟨more, rest, hmore, h⟩⟩

/-- No list and no closing parenthesis starts with a set operation. -/
theorem AtSetOperation.behindFirst_ne (h : AtSetOperation s ts) (first : Expr)
    (v : Expr × List Token) : behindFirst r first s ts ≠ .ok v := by
  intro hv
  rw [behindFirst, bind_eq, atPunctuator_eq, h.isPunctuator] at hv
  obtain ⟨_, _, hclose, -⟩ := bind_ok_iff.1 hv
  rw [expectPunctuator_ok_iff, h.isPunctuator] at hclose
  cases hclose.1

theorem AtSetOperation.behindValue_ne (h : AtSetOperation s ts) (left : Expr) (words : String)
    (first : Expr) (v : Expr × List Token) : behindValue r left words first s ts ≠ .ok v := by
  intro hv
  rw [behindValue, bind_eq, commaTail_of_not (h.isPunctuator _)] at hv
  obtain ⟨_, _, hclose, -⟩ := bind_ok_iff.1 hv
  rw [expectPunctuator_ok_iff, h.isPunctuator] at hclose
  cases hclose.1

/-- Either a query was taken, or nothing was. -/
theorem nestedQuery?_cases {found : Option SelectStatement} {rest : List Token}
    (h : nestedQuery? r s ts = .ok (found, rest)) :
    (found = none ∧ rest = ts) ∨
      ∃ query, found = some query ∧ parenthesizedQuery r s ts = .ok (query, rest) := by
  rw [nestedQuery?, bind_eq, nextIsOpenParen_eq] at h
  cases hnext : (front s ts.tail).isPunctuator "(" with
  | false =>
    rw [hnext] at h
    cases h
    exact .inl ⟨rfl, rfl⟩
  | true =>
    rw [hnext] at h
    obtain ⟨dialect, mode, last⟩ := s
    cases mode with
    | fast => cases h
    | backtracking =>
      change attempt (parenthesizedQuery r) _ ts = _ at h
      rw [attempt] at h
      split at h
      next query behind hquery =>
        cases h
        exact .inr ⟨query, rfl, hquery⟩
      next =>
        cases h
        exact .inl ⟨rfl, rfl⟩

/-- No expression starts with `from`. -/
theorem operand_from_ne (h : (front s ts).isKeyword "FROM" = true) (v : Expr × List Token) :
    operand r s ts ≠ .ok v := by
  intro hv
  have hother {k : String} (hk : eqIgnoringCase "FROM" k = false) :
      (front s ts).isKeyword k = false := Lexeme.isKeyword_eq_false (l := (front s ts).lexeme) h hk
  have hkind : (front s ts).kind = .keyword := eq_of_beq (Bool.and_eq_true_iff.1 h).1
  rw [operand, bind_eq, show current s ts = .ok (front s ts, ts) from rfl] at hv
  simp only [hkind] at hv
  rw [keywordOperand, bind_eq, show current s ts = .ok (front s ts, ts) from rfl] at hv
  simp only [List.any_cons, List.any_nil, hother (k := "NOT") (by decide),
    hother (k := "EXISTS") (by decide), hother (k := "TRUE") (by decide),
    hother (k := "FALSE") (by decide), hother (k := "NULL") (by decide),
    hother (k := "CASE") (by decide), hother (k := "NEW") (by decide),
    hother (k := "ALL") (by decide), hother (k := "ANY") (by decide),
    hother (k := "SOME") (by decide), hother (k := "LEFT") (by decide), Bool.or_false,
    Bool.false_and, Bool.false_eq_true, if_false] at hv
  cases hv

end WithoutQuery

/-- An opening parenthesis is next. -/
def AtOpenParen (ls : List Lexeme) : Prop := (ahead 0 ls).isPunctuator "(" = true

theorem AtOpenParen.solid {ls : List Lexeme} (h : AtOpenParen ls) : Solid ls :=
  solid_of_isPunctuator (by decide) ls h

theorem listWithoutQuery_eq (r : Rules) (left : Expr) (words : String) :
    listWithoutQuery r left words =
      (peekAt 1 >>= fun t => pure (["SELECT", "WITH"].any t.lexeme.isKeyword)) >>= fun found =>
        if found then parenthesizedQuery r >>= fun query => pure (.inQuery left words query)
        else advance >>= fun _ => eatPunctuator ")" >>= fun closed =>
          if closed then pure (.inValues left words [])
          else r.expressions >>= fun values => expectPunctuator ")" >>= fun _ =>
            pure (.inValues left words values) := rfl

section Carried

variable {r r' : Rules} (hr : CarriedRules r r')

include hr

theorem carried_behindFirst (first : Expr) :
    Carried Anything 1 e (behindFirst r first) (behindFirst r' first) := by
  refine .look (looks_atPunctuator ",") (steady_first_within (·.isPunctuator ",")) fun _ =>
    .ite ?_ ((carried_expectPunctuator (by decide)).taking fun _ => .pure _)
  exact .andThen (carried_commaTail (e := .within) (by decide)
    ((hr.expression _ _).weaken (Nat.zero_le 1))) fun _ =>
      (carried_expectPunctuator (by decide)).taking fun _ => .pure _

theorem carried_behindValue (left : Expr) (words : String) (first : Expr) :
    Carried Anything 1 e (behindValue r left words first) (behindValue r' left words first) :=
  .andThen (carried_commaTail (e := .within) (by decide)
    ((hr.expression _ _).weaken (Nat.zero_le 1))) fun _ =>
      (carried_expectPunctuator (by decide)).taking fun _ => .pure _

theorem carried_listWithoutQuery (left : Expr) (words : String) :
    Carried AtOpenParen 1 e (listWithoutQuery r left words) (listWithoutQuery r' left words) := by
  rw [listWithoutQuery_eq, listWithoutQuery_eq]
  refine .look (looks_peekAt 1 fun l => ["SELECT", "WITH"].any l.isKeyword)
    (steady_second_within (fun l => ["SELECT", "WITH"].any l.isKeyword) false fun _ _ h => ?_)
    fun _ => .ite ((carried_parenthesizedQuery hr).anywhere.taking fun _ => .pure _) ?_
  · have hall : ∀ k ∈ ["SELECT", "WITH"], ∀ w ∈ ["ORDER", "FETCH"], eqIgnoringCase w k = false := by
      decide
    exact List.any_eq_false.2 fun k hk => by simp [h.isKeyword (hall k hk)]
  · refine .andThen (carried_advance.mono fun _ => AtOpenParen.solid) fun _ => ?_
    refine .eatPunctuator (by decide) (steady_first_within (·.isPunctuator ")")) le_rfl (.pure _) ?_
    exact .andThen (carried_expressions hr (e := .within) (by decide)) fun _ =>
      (carried_expectPunctuator (by decide)).taking fun _ => .pure _

end Carried

/-! ### Where a query is found in one text only -/

section Found

variable {r r' : Rules} {z : Seam} {ts ts' rest : List Token}

theorem Seam.front_lexeme (ts : List Token) :
    (front z.setting ts).lexeme = ahead 0 (ts.map Token.lexeme) := lexeme_getD z.setting_ends 0 ts

theorem Seam.front_image (h : z.Reaches .within ts) (hts' : ts'.map Token.lexeme = z.image ts) :
    (front z.goal ts').lexeme = (front z.setting ts).lexeme := by
  rw [front_lexeme, ← h.ahead_zero, ← hts']
  exact lexeme_getD z.goal_ends 0 ts'

/-- Behind two opening parentheses a query is found in the other text only. -/
structure FoundBeyond (r r' : Rules) (z : Seam) (ts : List Token) : Prop where
  joint : z.Joint ts
  next : (front z.setting ts.tail).isPunctuator "(" = true
  fails : ∀ v, parenthesizedQuery r z.setting ts ≠ .ok v
  succeeds : ∃ ts' v, ts'.map Token.lexeme = z.image ts ∧ parenthesizedQuery r' z.goal ts' = .ok v

/-- There, an expression behind the first parenthesis that stops in front of the seam stops in
front of a set operation. -/
def ExcludesBeyond (r r' : Rules) : Prop :=
  ∀ ⦃z ts⦄, FoundBeyond r r' z ts → ∀ ⦃left rest⦄,
    r.expression .lowest z.setting ts.tail = .ok (left, rest) → z.Reaches .within rest →
      AtSetOperation z.setting rest

variable (hr : CarriedRules r r') (hx : ExcludesBeyond r r')

include hr hx

theorem ExcludesBeyond.withoutQuery_ne (h : FoundBeyond r r' z ts) (hreach : z.Reaches e rest)
    (value : Expr) : withoutQuery r z.setting ts ≠ .ok (value, rest) := by
  intro hv
  obtain ⟨first, mid, hfirst, hbehind⟩ := withoutQuery_of_not (noQueryWord_of_open h.next) hv
  have hmid := (carried_behindFirst (e := e) hr first).takes z.setting_ends trivial hbehind
  have hat := hx h hfirst (hreach.before hmid.suffix hmid.length)
  exact hat.behindFirst_ne first _ hbehind

theorem ExcludesBeyond.listWithoutQuery_ne (h : FoundBeyond r r' z ts) (hreach : z.Reaches e rest)
    (left : Expr) (words : String) (value : Expr) :
    listWithoutQuery r left words z.setting ts ≠ .ok (value, rest) := by
  intro hv
  obtain ⟨first, mid, hfirst, hbehind⟩ := listWithoutQuery_of_open h.next hv
  have hmid := (carried_behindValue (e := e) hr left words first).takes z.setting_ends trivial hbehind
  have hat := hx h hfirst (hreach.before hmid.suffix hmid.length)
  exact hat.behindValue_ne left words first _ hbehind

omit hx in
/-- Parsers that first look for a query, if what they do without one does not reach the seam where
only the other text has one. -/
theorem carried_behindNestedQuery {K : List Lexeme → Prop}
    {f : SelectStatement → Parser β} {p p' : Parser β}
    (hf : ∀ query, Carried Anything 0 e (f query) (f query)) (hp : Carried K 1 e p p')
    (hne : ∀ ⦃z ts⦄, FoundBeyond r r' z ts → ∀ ⦃rest⦄, z.Reaches e rest → ∀ v,
      p z.setting ts ≠ .ok (v, rest)) :
    Carried K 1 e
      (nestedQuery? r >>= fun found => match found with
        | some query => f query
        | none => p)
      (nestedQuery? r' >>= fun found => match found with
        | some query => f query
        | none => p') where
  takes s ts rest a he hs h := by
    obtain ⟨found, mid, hfound, hrun⟩ := bind_ok_iff.1 h
    obtain ⟨rfl, rfl⟩ | ⟨query, rfl, hquery⟩ := nestedQuery?_cases hfound
    · exact hp.takes he hs hrun
    · exact (((carried_parenthesizedQuery hr).takes he trivial hquery).before 0).append
        ((hf query).takes he trivial hrun)
  carries z ts rest a hs hz h hreach := by
    have hsteady (hrest : Taken 1 e ts rest) :
        (ahead 1 (z.image ts)).isPunctuator "(" = (front z.setting ts.tail).isPunctuator "(" := by
      have hnext : (front z.setting ts.tail).lexeme = ahead 1 (ts.map Token.lexeme) := by
        rw [← lexeme_getD z.setting_ends 1 ts, front, List.getElem?_tail]
      refine (steady_nextIsOpenParen hz (hreach.before hrest.suffix hrest.length)).trans ?_
      exact congrArg (·.isPunctuator "(") hnext.symm
    rw [bind_eq, nestedQuery?_eq rfl] at h
    cases hnext : (front z.setting ts.tail).isPunctuator "(" with
    | false =>
      rw [hnext] at h
      have hrest := hp.takes z.setting_ends hs h
      have hnone : Takes z.goal (nestedQuery? r') (z.image ts) none (z.image ts) :=
        (takes_nextIsOpenParen z.goal_ends _).bind <|
          .ite_false ((hsteady hrest).trans hnext) (.pure _ _)
      exact hnone.bind (hp.carries z hs hz h hreach)
    | true =>
      rw [hnext] at h
      have hnested {found : Option SelectStatement} {behind : List Lexeme}
          (hrest : Taken 1 e ts rest)
          (hfound : Takes z.goal (attempt (parenthesizedQuery r')) (z.image ts) found behind) :
          Takes z.goal (nestedQuery? r') (z.image ts) found behind :=
        (takes_nextIsOpenParen z.goal_ends _).bind <|
          .ite_true ((hsteady hrest).trans hnext) ((takes_setting _).bind hfound)
      simp only [if_true, attempt] at h
      rcases hquery : parenthesizedQuery r z.setting ts with e' | ⟨query, mid⟩
      · rw [hquery] at h
        have hrest := hp.takes z.setting_ends hs h
        have hrejects : Rejects z.goal (parenthesizedQuery r') (z.image ts) := by
          intro ts' hts'
          rcases hquery' : parenthesizedQuery r' z.goal ts' with e'' | v
          · exact ⟨e'', rfl⟩
          · exact absurd h (hne ⟨hz, hnext, by simp [hquery], ts', v, hts', hquery'⟩ hreach a)
        exact (hnested hrest (.attempt_none hrejects)).bind
          (hp.carries z hs hz h hreach)
      · rw [hquery] at h
        have hfirst := (carried_parenthesizedQuery (e := e) hr).takes z.setting_ends trivial hquery
        have hrest := (hf query).takes z.setting_ends trivial h
        have hmid : z.Reaches e mid := hreach.before (k := 0) hrest.suffix hrest.length
        have htaken := (carried_parenthesizedQuery hr).carries z trivial hz hquery hmid
        have hall : Taken 1 e ts rest := (hfirst.before 0).append hrest
        exact (hnested hall (.attempt_some htaken)).bind
          ((hf query).carries z trivial (hz.suffix hfirst.suffix) h hreach)

theorem carried_parenthesized : Carried Anything 1 e (parenthesized r) (parenthesized r') :=
  carried_behindNestedQuery hr (fun _ => .pure _) (carried_withoutQuery hr)
    fun _ _ h _ hreach => hx.withoutQuery_ne hr h hreach

theorem carried_inTest (left : Expr) (words : String) :
    Carried Anything 1 e (inTest r left words) (inTest r' left words) := by
  refine .test (looks_atPunctuator "(") (steady_first_within (·.isPunctuator "("))
    (fun _ _ h => h) ?_ ?_
  · exact carried_behindNestedQuery hr (fun _ => .pure _) (carried_listWithoutQuery hr left words)
      fun _ _ h _ hreach => hx.listWithoutQuery_ne hr h hreach left words
  · exact (carried_operand hr fun _ => carried_parenthesized hr hx).taking fun _ => .pure _

end Found

/-! ### Any depth -/

section Depth

variable {n m : Nat} {z : Seam} {ts ts' rest : List Token}
  (hr : CarriedRules (rules n) (rules m)) (hx : ExcludesBeyond (rules n) (rules m))

omit hr hx in
theorem map_tail_image (hts' : ts'.map Token.lexeme = z.image ts) (hsource : z.source <:+ ts.tail)
    (hne : ts.tail ≠ []) : ts'.tail.map Token.lexeme = z.image ts.tail := by
  obtain ⟨t, us, rfl⟩ : ∃ t us, ts = t :: us :=
    List.exists_cons_of_ne_nil fun h => hne (by rw [h]; rfl)
  rw [List.map_tail, hts', Seam.image_cons (show z.source <:+ us from hsource)]
  rfl

include hr

theorem ne_nil_of_expression {w : Expr × List Token}
    (hw : (rules n).expression .lowest z.setting ts = .ok w) : ts ≠ [] := by
  obtain ⟨value, behind⟩ := w
  have hlength := ((hr.expression .lowest .within).takes z.setting_ends trivial hw).length
  exact List.ne_nil_of_length_pos (by omega)

/-- Where the other text has a query without a word for it, the query starts with `from`, and no
expression does. -/
theorem expression_of_not_ne (hreach : z.Reaches .within ts)
    (hword : ["SELECT", "WITH"].any (front z.setting ts).isKeyword = false)
    (hnext : (front z.setting ts).isPunctuator "(" = false)
    (hts' : ts'.map Token.lexeme = z.image ts) {v : SelectStatement × List Token}
    (hselect : (rules m).select z.goal ts' = .ok v) (w : Expr × List Token) :
    (rules n).expression .lowest z.setting ts ≠ .ok w := by
  intro hw
  simp only [List.any_cons, List.any_nil, Bool.or_false, Bool.or_eq_false_iff] at hword
  have hfrom : (front z.setting ts).isKeyword "FROM" = true := by
    by_contra hfrom
    obtain ⟨l, ls, himage⟩ : ∃ l ls, z.image ts = l :: ls := by
      refine List.exists_cons_of_length_pos ((List.length_pos_of_ne_nil ?_).trans_le
        (Seam.length_le_image ts))
      exact ne_nil_of_expression hr hw
    obtain rfl : l = (front z.setting ts).lexeme := by
      rw [Seam.front_lexeme, ← hreach.ahead_zero, himage]
      rfl
    have hnone : NoQuery (z.image ts) := by
      rw [himage]
      refine .start ?_ hnext
      simpa using ⟨hword.1, hword.2, Bool.eq_false_iff.2 hfrom⟩
    obtain ⟨e, herror⟩ := rejects_select z.goal_ends hnone m ts' hts'
    rw [hselect] at herror
    cases herror
  cases n with
  | zero => cases hw
  | succ n =>
    obtain ⟨left, mid, hoperand, -⟩ := bind_ok_iff.1 hw
    exact operand_from_ne hfrom _ hoperand

include hr hx

/-- Where the other text has a query, this one has nothing else in front of the seam. -/
theorem parenthesizedQuery_of_image (hz : z.Joint ts) (hts' : ts'.map Token.lexeme = z.image ts)
    {v : SelectStatement × List Token} (hquery : parenthesizedQuery (rules m) z.goal ts' = .ok v)
    {value : Expr} (hrun : parenthesized (rules n) z.setting ts = .ok (value, rest))
    (hreach : z.Reaches .within rest) :
    ∃ query, parenthesizedQuery (rules n) z.setting ts = .ok (query, rest) := by
  obtain ⟨found, mid, hfound, hbehind⟩ := bind_ok_iff.1 hrun
  obtain ⟨rfl, rfl⟩ | ⟨query, rfl, hfirst⟩ := nestedQuery?_cases hfound
  · by_cases hword : ["SELECT", "WITH"].any (front z.setting mid.tail).isKeyword = true
    · exact withoutQuery_of_select hword hbehind
    · rw [Bool.not_eq_true] at hword
      cases hnext : (front z.setting mid.tail).isPunctuator "(" with
      | true =>
        have hfails : ∀ v, parenthesizedQuery (rules n) z.setting mid ≠ .ok v := by
          rintro ⟨query, last⟩ hv
          rw [nestedQuery?_eq rfl, hnext, if_pos rfl, attempt, hv] at hfound
          cases hfound
        exact absurd hbehind (hx.withoutQuery_ne hr ⟨hz, hnext, hfails, ts', v, hts', hquery⟩ hreach _)
      | false =>
        obtain ⟨first, behind, hfirst, hlast⟩ := withoutQuery_of_not hword hbehind
        have hlast := (carried_behindFirst (e := .within) hr first).takes z.setting_ends trivial hlast
        have htail := (hr.expression .lowest .within).takes z.setting_ends trivial hfirst
        have hreach : z.Reaches .within mid.tail :=
          (hreach.before hlast.suffix hlast.length).before htail.suffix htail.length
        have hts' := map_tail_image hts' hreach.suffix (ne_nil_of_expression hr hfirst)
        obtain ⟨-, behind', hselect, -, -⟩ := parenthesizedQuery_ok_iff.1 hquery
        exact absurd hfirst (expression_of_not_ne hr hreach hword hnext hts' hselect _)
  · cases hbehind
    exact ⟨query, hfirst⟩

theorem excludesBeyond_succ : ExcludesBeyond (rules (n + 1)) (rules (m + 1)) := by
  intro z ts h left rest hleft hreach
  have hparens (e : Edge) : Carried Anything 1 e (parenthesized (rules n)) (parenthesized (rules m)) :=
    carried_parenthesized hr hx
  -- The operand ends in front of the seam, and it is a query in the other text.
  obtain ⟨operand, mid, hoperand, hbehind⟩ := bind_ok_iff.1 hleft
  rw [operand_of_open h.next] at hoperand
  have htaken : Taken 0 .within mid rest := taken_extendWhile hr hparens
    (fun left words => carried_inTest hr hx left words) .lowest _ z.setting_ends hbehind
  have hmid : z.Reaches .within mid := hreach.before htaken.suffix htaken.length
  have hfirst := (hparens .within).takes z.setting_ends trivial hoperand
  have hne : ts.tail ≠ [] := List.ne_nil_of_length_pos (by have := hfirst.length; omega)
  have htail : z.Reaches .within ts.tail := hmid.before hfirst.suffix hfirst.length
  have hts : z.Reaches .within ts := htail.before (k := 0) (List.tail_suffix ts) (by simp)
  obtain ⟨ts', ⟨query, last⟩, hts', hquery⟩ := h.succeeds
  obtain ⟨hopen, behind, hselect, hclose, -⟩ := parenthesizedQuery_ok_iff.1 hquery
  have htail' := map_tail_image hts' htail.suffix hne
  have hnext : (front z.goal ts'.tail).isPunctuator "(" = true :=
    (congrArg (·.isPunctuator "(") (Seam.front_image htail htail')).trans h.next
  obtain ⟨nested, mid', operations, hnested, hops, -⟩ := (selectStatement_of_open hnext).1 hselect
  -- So it is a query here, too, and the same one.
  have hjoint : z.Joint ts.tail := h.joint.suffix (List.tail_suffix ts)
  obtain ⟨nested', hnested'⟩ := parenthesizedQuery_of_image hr hx hjoint htail' hnested hoperand hmid
  obtain ⟨mid'', hmid', hsame⟩ :=
    (carried_parenthesizedQuery hr).carries z trivial hjoint hnested' hmid ts'.tail htail'
  rw [hnested, Except.ok.injEq, Prod.mk.injEq] at hsame
  obtain ⟨rfl, rfl⟩ := hsame
  have hfront := Seam.front_image hmid hmid'
  have hat : AtSetOperation z.setting mid := by
    by_cases hat : AtSetOperation z.setting mid
    · exact hat
    · -- Without a set operation, the query would have been found behind both parentheses.
      have hwords := congrArg (fun l => setOperationWords.any l.isKeyword) hfront
      have hat' : ¬ AtSetOperation z.goal mid' := fun h => hat (hwords.symm.trans h)
      rw [setOperations_of_not hat', Except.ok.injEq, Prod.mk.injEq] at hops
      obtain ⟨-, rfl⟩ := hops
      have hfound : (rules (n + 1)).select z.setting ts.tail = .ok (⟨"", [], .nested nested, []⟩, mid) :=
        (selectStatement_of_open h.next).2 ⟨nested, mid, [], hnested', setOperations_of_not hat, rfl⟩
      have hopens : (front z.setting ts).isPunctuator "(" = true :=
        (congrArg (·.isPunctuator "(") (Seam.front_image hts hts').symm).trans hopen
      have hcloses : (front z.setting mid).isPunctuator ")" = true :=
        (congrArg (·.isPunctuator ")") hfront.symm).trans hclose
      exact absurd (parenthesizedQuery_ok_iff.2 ⟨hopens, mid, hfound, hcloses, rfl⟩) (h.fails _)
  rw [show bounded (extendWhile (rules n) .lowest operand) z.setting mid = _ from
    hat.extendWhile operand _] at hbehind
  cases hbehind
  exact hat

end Depth

end Jpql.Grammar
