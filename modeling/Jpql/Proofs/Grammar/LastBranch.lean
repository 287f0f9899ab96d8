import Jpql.Proofs.Grammar.Insertion

/-! Orders added to the last branch of a statement. What stands in front of that branch is parsed as
before, also where the branch is in parentheses, and so is what stands behind it; so a text that is
parsed to a select statement has a place where the orders can be put in. -/

namespace Jpql.Grammar

open Jpql.Grammar.Parser
open Lexeme (ahead)

variable {α β : Type}

/-! ### Queries inside others -/

section Statements

variable {d : Dialect} {eof eof' : Token} (ends : Setting.Ends ⟨d, .backtracking, eof⟩)
  (ends' : Setting.Ends ⟨d, .backtracking, eof'⟩) {added : QuerySpec → AddedOrders} {n m : Nat}

theorem insertedLexemes_ne_nil (q : QuerySpec) : q.insertedLexemes added ≠ [] := by
  rw [QuerySpec.insertedLexemes]
  split
  · exact List.cons_ne_nil _ _
  · exact List.cons_ne_nil _ _

section

variable {s s' : Setting} {q : QuerySpec} {ts us mid rest : List Token} {z : Seam}

theorem GrowsAt.length_lt {p : Parser α} {grown : α} (h : GrowsAt added s s' p q grown ts rest z) :
    z.source.length < ts.length := by
  refine Nat.lt_of_le_of_ne h.reaches.suffix.length_le fun hlength => ?_
  have hopens := h.reaches.opens (h.reaches.suffix.eq_of_length hlength).symm
  have htarget := h.target
  rw [hopens.2] at htarget
  exact insertedLexemes_ne_nil q (List.append_eq_nil_iff.1 htarget.symm).1

/-- Something in front of a query that grows. -/
theorem GrowsAt.behind {K : List Lexeme → Prop} {k : Nat} {p p' : Parser β} {f' : β → Parser α}
    {grown : α} {b : β} (hp : Carried K k .within p p') (hs : K (ts.map Token.lexeme))
    (hrun : p s ts = .ok (b, us)) (h : GrowsAt added s s' (f' b) q grown us rest z) :
    GrowsAt added s s' (p' >>= f') q grown ts rest z := by
  obtain ⟨rfl, rfl⟩ := And.intro h.setting h.goal
  have hus := hp.takes z.setting_ends hs hrun
  have hlength := h.length_lt
  have hjoint : z.Joint ts := fun t ht => by
    have hsuffix := List.suffix_of_suffix_length_le ht hus.suffix
      (show (t :: z.source).length ≤ us.length by rw [List.length_cons]; omega)
    exact h.joint t hsuffix
  exact ⟨rfl, rfl, h.target, h.reaches.before (k := 0) hus.suffix hus.suffix.length_le, hjoint,
    h.suffix, h.named.suffix hus.suffix, (hp.carries z hs hjoint hrun h.reaches).bind h.takes⟩

/-- Something behind a query that grows. -/
theorem GrowsAt.andThen {p : Parser α} {grown : α} {f' : α → Parser β} {b : β}
    (h : GrowsAt added s s' p q grown ts mid z) (hrest : rest <:+ mid)
    (hf : Takes s' (f' grown) (mid.map Token.lexeme) b (rest.map Token.lexeme)) :
    GrowsAt added s s' (p >>= f') q b ts rest z :=
  ⟨h.setting, h.goal, h.target, h.reaches, h.joint, hrest.trans h.suffix, h.named, h.takes.bind hf⟩

end

theorem carried_eatPunctuator {K : List Lexeme → Prop} {p : String} (hp : p ≠ ".") :
    Carried K 0 .within (eatPunctuator p) (eatPunctuator p) := by
  rw [← bind_pure (eatPunctuator p)]
  exact .eatPunctuator hp (steady_first_within (·.isPunctuator p)) (Nat.zero_le 1) (.pure _) (.pure _)

theorem carried_eatAnyKeyword {K : List Lexeme → Prop} (ws : List String) :
    Carried K 0 .within (eatAnyKeyword ws) (eatAnyKeyword ws) := by
  rw [← bind_pure (eatAnyKeyword ws)]
  exact .eatAnyKeyword (fun w _ => steady_first_within (·.isKeyword w)) (Nat.zero_le 1)
    (fun _ => .pure _) (.pure _)

theorem exists_of_isPunctuator {p : String} {ls : List Lexeme}
    (h : (ahead 0 ls).isPunctuator p = true) : ∃ rest, ls = .punctuator p :: rest := by
  cases ls with
  | nil => cases h
  | cons l rest => exact ⟨rest, congrArg (· :: rest) (Lexeme.eq_of_isPunctuator h)⟩

include ends ends'

theorem grows_queryTerm (hm : n + 2 ≤ m) (hselect : Grows added ⟨d, .backtracking, eof⟩
      ⟨d, .backtracking, eof'⟩ (rules n).select (rules m).select SelectStatement.lastSpec
      (·.mapLastSpec (·.grown added))) :
    Grows added ⟨d, .backtracking, eof⟩ ⟨d, .backtracking, eof'⟩ (queryTerm (rules n))
      (queryTerm (rules m)) QueryTerm.lastSpec (·.mapLastSpec (·.grown added)) := by
  intro ts rest term hrun hreg hend hfits
  obtain ⟨found, us, hfound, hrun⟩ := bind_ok_iff.1 hrun
  have hopen := carried_eatPunctuator (K := Anything) (show "(" ≠ "." by decide)
  have hus := hopen.takes ends trivial hfound
  cases found with
  | true =>
    obtain ⟨nested, mid, hnested, hrun⟩ := bind_ok_iff.1 hrun
    obtain ⟨_, _, hclose, hrun⟩ := bind_ok_iff.1 hrun
    cases hrun
    obtain ⟨hparen, hv⟩ := expectPunctuator_ok_iff.1 hclose
    cases hv
    obtain ⟨behind, hmid⟩ : ∃ behind, mid.map Token.lexeme = .punctuator ")" :: behind :=
      exists_of_isPunctuator ((congrArg (·.isPunctuator ")") (lexeme_getD ends 0 mid)).symm.trans hparen)
    obtain ⟨z, hz⟩ := hselect hnested (hreg.suffix hus.suffix) (.inr (congrArg (ahead 0) hmid)) hfits
    refine ⟨z, .behind hopen trivial hfound (hz.andThen (List.tail_suffix mid) ?_)⟩
    rw [List.map_tail, hmid]
    exact (takes_expectPunctuator ends' rfl _).bind (.pure _ _)
  | false =>
    obtain ⟨q, _, hq, hrun⟩ := bind_ok_iff.1 hrun
    cases hrun
    obtain ⟨z, hz⟩ := grows_querySpec ends ends' added hm hq (hreg.suffix hus.suffix) hend hfits
    exact ⟨z, .behind hopen trivial hfound (hz.andThen List.suffix_rfl (.pure _ _))⟩

theorem grows_setOperation (hm : n + 2 ≤ m) (hselect : Grows added ⟨d, .backtracking, eof⟩
      ⟨d, .backtracking, eof'⟩ (rules n).select (rules m).select SelectStatement.lastSpec
      (·.mapLastSpec (·.grown added))) :
    Grows added ⟨d, .backtracking, eof⟩ ⟨d, .backtracking, eof'⟩ (setOperation (rules n))
      (setOperation (rules m)) (·.term.lastSpec)
      (fun o => ⟨o.words, o.term.mapLastSpec (·.grown added)⟩) := by
  intro ts rest o hrun hreg hend hfits
  obtain ⟨word, us, hword, hrun⟩ := bind_ok_iff.1 hrun
  obtain ⟨quantifier, vs, hquantifier, hrun⟩ := bind_ok_iff.1 hrun
  obtain ⟨term, _, hterm, hrun⟩ := bind_ok_iff.1 hrun
  cases hrun
  have hus := carried_advance_within.takes (K := Anything) ends trivial hword
  have hvs := (carried_eatAnyKeyword (K := Anything) _).takes ends trivial hquantifier
  obtain ⟨z, hz⟩ := grows_queryTerm ends ends' hm hselect hterm
    ((hreg.suffix hus.suffix).suffix hvs.suffix) hend hfits
  exact ⟨z, .behind (carried_advance_within (K := Anything)) trivial hword <|
    .behind (carried_eatAnyKeyword (K := Anything) _) trivial hquantifier <|
      hz.andThen List.suffix_rfl (.pure _ _)⟩

omit ends ends' in
theorem EndsQuery.noOperation {ls : List Lexeme} (h : EndsQuery ls) :
    setOperationWords.any (ahead 0 ls).isKeyword = false := by
  rcases h with h | h
  · rw [h]
    rfl
  · rw [h]
    rfl

omit ends ends' in
theorem carried_atOperation {K : List Lexeme → Prop} : Carried K 0 .within
    (atAnyKeyword setOperationWords) (atAnyKeyword setOperationWords) := by
  rw [← bind_pure (atAnyKeyword setOperationWords)]
  exact .look (looks_atAnyKeyword _) (steady_first_within fun l => setOperationWords.any l.isKeyword)
    fun _ => .pure _

omit ends ends' in
/-- The first of the items that are there, and what stands behind it. -/
theorem itemsWhile_cons {test : Parser Bool} {view : Dialect → List Lexeme → Bool} {item : Parser α}
    {s : Setting} {k : Nat} {ts rest : List Token} {a : α} {as : List α} (h : Looks test view)
    (he : s.Ends) (hrun : itemsWhile test item k s ts = .ok (a :: as, rest)) :
    view s.dialect (ts.map Token.lexeme) = true ∧ test s ts = .ok (true, ts) ∧
      ∃ mid j, item s ts = .ok (a, mid) ∧ itemsWhile test item j s mid = .ok (as, rest) := by
  cases k with
  | zero => cases hrun
  | succ k =>
    obtain ⟨found, _, hfound, hrun⟩ := bind_ok_iff.1 hrun
    cases hfound.symm.trans (h he ts)
    split at hrun
    next hview =>
      obtain ⟨_, mid, ha, hrun⟩ := bind_ok_iff.1 hrun
      obtain ⟨_, _, has, hrun⟩ := bind_ok_iff.1 hrun
      cases hrun
      exact ⟨hview, hview ▸ hfound, mid, k, ha, has⟩
    next => cases hrun

omit ends ends' in
theorem itemsWhile_nil {test : Parser Bool} {view : Dialect → List Lexeme → Bool} {item : Parser α}
    {s : Setting} {k : Nat} {ts rest : List Token} (h : Looks test view)
    (he : s.Ends) (hrun : itemsWhile test item k s ts = .ok ([], rest)) : rest = ts := by
  cases k with
  | zero =>
    cases hrun
    rfl
  | succ k =>
    obtain ⟨found, mid, hfound, hrun⟩ := bind_ok_iff.1 hrun
    cases hfound.symm.trans (h he ts)
    split at hrun
    next =>
      obtain ⟨_, _, -, hrun⟩ := bind_ok_iff.1 hrun
      obtain ⟨_, _, -, hrun⟩ := bind_ok_iff.1 hrun
      cases hrun
    next =>
      cases hrun
      rfl

/-- The last operation grows, and those in front of it stay. -/
theorem grows_operations (hm : n + 2 ≤ m) (hselect : Grows added ⟨d, .backtracking, eof⟩
      ⟨d, .backtracking, eof'⟩ (rules n).select (rules m).select SelectStatement.lastSpec
      (·.mapLastSpec (·.grown added))) (q : QuerySpec) {o : SetOperation} {os : List SetOperation}
    {ts rest : List Token} {k : Nat}
    (hrun : itemsWhile (atAnyKeyword setOperationWords) (setOperation (rules n)) k
      ⟨d, .backtracking, eof⟩ ts = .ok (o :: os, rest))
    (hreg : Regular ts) (hend : EndsQuery (rest.map Token.lexeme))
    (hfits : Fits ⟨d, .backtracking, eof'⟩ (added (lastOperationSpec q (o :: os)))) :
    ∃ z, ∀ j, os.length < j → GrowsAt added ⟨d, .backtracking, eof⟩ ⟨d, .backtracking, eof'⟩
      (itemsWhile (atAnyKeyword setOperationWords) (setOperation (rules m)) j)
      (lastOperationSpec q (o :: os)) (mapLastOperation (·.grown added) (o :: os)) ts rest z := by
  have hr : CarriedRules (rules n) (rules m) := (carried_rules (by omega)).1
  induction os generalizing q o ts k with
  | nil =>
    rw [lastOperationSpec_cons, lastOperationSpec] at hfits ⊢
    rw [mapLastOperation_singleton]
    obtain ⟨hview, htest, mid, k, ho, hnil⟩ := itemsWhile_cons (looks_atAnyKeyword _) ends hrun
    obtain rfl := itemsWhile_nil (looks_atAnyKeyword _) ends hnil
    obtain ⟨z, hz⟩ := grows_setOperation ends ends' hm hselect ho hreg hend hfits
    refine ⟨z, fun j hj => ?_⟩
    obtain ⟨j, rfl⟩ : ∃ i, j = i + 1 := ⟨j - 1, by simp at hj; omega⟩
    have hstop := takes_atAnyKeyword ends' setOperationWords (rest.map Token.lexeme)
    rw [hend.noOperation] at hstop
    exact .behind (carried_atOperation (K := Anything)) trivial htest <|
      hz.andThen List.suffix_rfl ((takes_itemsWhile_nil hstop j).bind (.pure _ _))
  | cons o' os ih =>
    rw [lastOperationSpec_cons] at hfits ⊢
    rw [mapLastOperation]
    obtain ⟨hview, htest, mid, k, ho, hrest⟩ := itemsWhile_cons (looks_atAnyKeyword _) ends hrun
    have hsolid : Solid (ts.map Token.lexeme) :=
      solid_of (g := fun l => setOperationWords.any l.isKeyword) rfl rfl hview
    have hmid := (carried_setOperation hr).takes ends hsolid ho
    obtain ⟨z, hz⟩ := ih o.term.lastSpec hrest (hreg.suffix hmid.suffix) hfits
    refine ⟨z, fun j hj => ?_⟩
    obtain ⟨j, rfl⟩ : ∃ i, j = i + 1 := ⟨j - 1, by simp at hj; omega⟩
    exact .behind (carried_atOperation (K := Anything)) trivial htest <|
      .behind ((carried_setOperation hr).weaken (Nat.zero_le 1)) hsolid ho <|
        (hz j (by simpa using hj)).andThen List.suffix_rfl (.pure _ _)

theorem grows_selectStatement (hm : n + 2 ≤ m) (hselect : Grows added ⟨d, .backtracking, eof⟩
      ⟨d, .backtracking, eof'⟩ (rules n).select (rules m).select SelectStatement.lastSpec
      (·.mapLastSpec (·.grown added))) :
    Grows added ⟨d, .backtracking, eof⟩ ⟨d, .backtracking, eof'⟩ (selectStatement (rules n))
      (selectStatement (rules m)) SelectStatement.lastSpec (·.mapLastSpec (·.grown added)) := by
  intro ts rest statement hrun hreg hend hfits
  have hr : CarriedRules (rules n) (rules m) := (carried_rules (by omega)).1
  obtain ⟨⟨withWords, ctes⟩, us, hwith, hrun⟩ := bind_ok_iff.1 hrun
  obtain ⟨first, vs, hfirst, hrun⟩ := bind_ok_iff.1 hrun
  obtain ⟨operations, _, hoperations, hrun⟩ := bind_ok_iff.1 hrun
  cases hrun
  have hus := (carried_withClause (K := Anything) hr).takes ends trivial hwith
  have hvs := (carried_queryTerm (K := Anything) hr).takes ends trivial hfirst
  cases operations with
  | nil =>
    obtain rfl := itemsWhile_nil (looks_atAnyKeyword _) ends hoperations
    obtain ⟨z, hz⟩ := grows_queryTerm ends ends' hm hselect hfirst (hreg.suffix hus.suffix) hend hfits
    have hstop := takes_atAnyKeyword ends' setOperationWords (rest.map Token.lexeme)
    rw [hend.noOperation] at hstop
    exact ⟨z, .behind (carried_withClause (K := Anything) hr) trivial hwith <|
      hz.andThen List.suffix_rfl (Takes.bind (.bounded (takes_itemsWhile_nil hstop _)) (.pure _ _))⟩
  | cons o os =>
    obtain ⟨z, hz⟩ := grows_operations ends ends' hm hselect first.lastSpec hoperations
      ((hreg.suffix hus.suffix).suffix hvs.suffix) hend hfits
    have htaken : Taken (o :: os).length .within vs rest :=
      taken_itemsWhile (looks_atAnyKeyword _)
        (fun _ _ => solid_of (g := fun l => setOperationWords.any l.isKeyword) rfl rfl)
        (carried_setOperation hr) _ ends hoperations
    have hcount : os.length < (z.image vs).length := by
      have hlength := htaken.length
      have himage := z.length_le_image vs
      rw [List.length_cons] at hlength
      omega
    have hlist : GrowsAt added ⟨d, .backtracking, eof⟩ ⟨d, .backtracking, eof'⟩
        (manyWhile (atAnyKeyword setOperationWords) (setOperation (rules m)))
        (lastOperationSpec first.lastSpec (o :: os))
        (mapLastOperation (·.grown added) (o :: os)) vs rest z :=
      { hz _ hcount with takes := .bounded (hz _ hcount).takes }
    exact ⟨z, .behind (carried_withClause (K := Anything) hr) trivial hwith <|
      .behind (carried_queryTerm (K := Anything) hr) trivial hfirst <|
        hlist.andThen List.suffix_rfl (.pure _ _)⟩

theorem grows_select (hm : n + 2 ≤ m) : Grows added ⟨d, .backtracking, eof⟩
    ⟨d, .backtracking, eof'⟩ (rules n).select (rules m).select SelectStatement.lastSpec
    (·.mapLastSpec (·.grown added)) := by
  induction n generalizing m with
  | zero => exact fun _ _ _ hrun => nomatch hrun
  | succ n ih =>
    obtain ⟨m, rfl⟩ : ∃ j, m = j + 1 := ⟨m - 1, by omega⟩
    exact grows_selectStatement ends ends' (by omega) (ih (by omega))

end Statements

/-! ### Texts -/

section Texts

variable {r : Rules} {s : Setting} {ts rest : List Token} {d : Dialect}

/-- The lexeme that a select statement starts with. -/
def StartsSelect (d : Dialect) (l : Lexeme) : Prop :=
  l.isKeyword "UPDATE" = false ∧ l.isKeyword "DELETE" = false ∧
    (["SELECT", "WITH"].any l.isKeyword || l.isPunctuator "(" ||
      (l.isKeyword "FROM" && d.allowsMissingSelect)) = true

theorem statement_select {query : SelectStatement} (he : s.Ends)
    (h : statement r s ts = .ok (.select query, rest)) :
    StartsSelect s.dialect (ahead 0 (ts.map Token.lexeme)) ∧
      selectStatement r s ts = .ok (query, []) ∧ rest = [] := by
  simp only [statement, bind_eq, looks_atKeyword _ he, looks_atAnyKeyword _ he,
    looks_atPunctuator _ he, looks_dialect he] at h
  -- each kind of statement is read to the end, and has its own constructor
  have hend {st : Statement} {us : List Token}
      (h : (do if ← atEnd then return st else mismatched "<EOF>" : Parser Statement) s us =
        .ok (.select query, rest)) : st = .select query ∧ us = [] ∧ rest = [] := by
    obtain ⟨_, _, hat, h⟩ := bind_ok_iff.1 h
    cases hat
    cases us with
    | nil =>
      cases h
      exact ⟨rfl, rfl, rfl⟩
    | cons t us => cases h
  split at h
  next =>
    obtain ⟨_, _, hst, h⟩ := bind_ok_iff.1 h
    obtain ⟨_, _, -, hst⟩ := bind_ok_iff.1 hst
    cases hst
    cases (hend h).1
  next hupdate =>
    split at h
    next =>
      obtain ⟨_, _, hst, h⟩ := bind_ok_iff.1 h
      obtain ⟨_, _, -, hst⟩ := bind_ok_iff.1 hst
      cases hst
      cases (hend h).1
    next hdelete =>
      split at h
      next hselect =>
        obtain ⟨_, _, hst, h⟩ := bind_ok_iff.1 h
        obtain ⟨_, _, hquery, hst⟩ := bind_ok_iff.1 hst
        cases hst
        obtain ⟨hsame, rfl, rfl⟩ := hend h
        cases hsame
        exact ⟨⟨eq_false_of_ne_true hupdate, eq_false_of_ne_true hdelete, hselect⟩, hquery, rfl⟩
      next =>
        obtain ⟨_, _, hst, -⟩ := bind_ok_iff.1 h
        cases hst

theorem takes_statement_select {query : SelectStatement} (he : s.Ends) {input : List Lexeme}
    (hstarts : StartsSelect s.dialect (ahead 0 input))
    (h : Takes s (selectStatement r) input query []) :
    Takes s (statement r) input (.select query) [] := by
  obtain ⟨hupdate, hdelete, hselect⟩ := hstarts
  have hatEnd : Takes s (do
      if ← atEnd then return Statement.select query else mismatched "<EOF>") [] (.select query) [] :=
    (takes_atEnd []).bind (.ite_true rfl (.pure _ _))
  refine (takes_atKeyword he "UPDATE" _).bind ((takes_atKeyword he "DELETE" _).bind ?_)
  refine (takes_atAnyKeyword he _ _).bind ((takes_atPunctuator he "(" _).bind ?_)
  refine (takes_atKeyword he "FROM" _).bind ((takes_dialect _).bind ?_)
  exact .ite_false hupdate (.ite_false hdelete (.ite_true hselect
    ((h.map Statement.select).bind hatEnd)))

theorem parseTokens_ok_iff {place : Position} {st : Statement} :
    parseTokens (ts ++ [⟨.eof, "", place⟩]) d .backtracking = .ok st ↔
      ∃ rest, statement (rules (ts.length + 2)) ⟨d, .backtracking, ⟨.eof, "", place⟩⟩ ts =
        .ok (st, rest) := by
  rw [parseTokens, List.getLast?_concat, List.dropLast_concat, List.length_append, Option.getD_some]
  change (statement (rules (ts.length + 2)) _ ts).map _ = _ ↔ _
  rcases statement (rules (ts.length + 2)) _ ts with e | ⟨st', rest⟩
  · simp [Except.map]
  · simp [Except.map]

/-- What a text is parsed to depends on its lexemes. -/
theorem parse_of_lexes {place : Position} {st : Statement} {text : String}
    (h : parseTokens (ts ++ [⟨.eof, "", place⟩]) d .backtracking = .ok st)
    (htext : Lexer.Lexes text.toList (ts.map Token.lexeme)) : Jpql.parse text d = .ok st := by
  obtain ⟨us, place', hus, hlexemes⟩ := htext.tokenize
  obtain ⟨rest, hrun⟩ := parseTokens_ok_iff.1 h
  have hlength : us.length = ts.length := by simpa using congrArg List.length hlexemes
  have ends (place : Position) : Setting.Ends ⟨d, .backtracking, ⟨.eof, "", place⟩⟩ := rfl
  obtain ⟨rest', -, hrun'⟩ := Carried.takes_plain (ends place) (ends place')
    (carried_statement (K := Anything) (carried_self _)) trivial hrun us hlexemes
  rw [parse_eq_backtracking, hus, parseTokens_ok_iff.2 ⟨rest', hlength ▸ hrun'⟩]
  rfl

/-- In the text of a select statement is a place where orders for its last branch can be put in. -/
theorem parseTokens_grown {added : QuerySpec → AddedOrders} {place : Position}
    {query : SelectStatement}
    (h : parseTokens (ts ++ [⟨.eof, "", place⟩]) d .backtracking = .ok (.select query))
    (hreg : Regular ts)
    (hfits : Fits ⟨d, .backtracking, ⟨.eof, "", place⟩⟩ (added query.lastSpec))
    (hadded : 2 ≤ (query.lastSpec.insertedLexemes added).length) :
    NamedIn query.lastSpec.primaryAlias? ts ∧ ∃ front back, ts = front ++ back ∧
      ∀ us : List Token, us.map Token.lexeme = query.lastSpec.insertedLexemes added →
        parseTokens (front ++ us ++ back ++ [⟨.eof, "", place⟩]) d .backtracking =
          .ok (.select (query.mapLastSpec (·.grown added))) := by
  have ends : Setting.Ends ⟨d, .backtracking, ⟨.eof, "", place⟩⟩ := rfl
  let count := (query.lastSpec.insertedLexemes added).length
  obtain ⟨rest, hrun⟩ := parseTokens_ok_iff.1 h
  obtain ⟨hstarts, hselect, rfl⟩ := statement_select ends hrun
  have hdepth : ts.length + 2 + 2 ≤ ts.length + count + 2 := by
    have : 2 ≤ count := hadded
    omega
  obtain ⟨z, hz⟩ := grows_selectStatement ends ends hdepth (grows_select ends ends hdepth) hselect hreg
    (.inl rfl) hfits
  obtain ⟨front, hfront⟩ := hz.reaches.suffix
  refine ⟨hz.named, front, z.source, hfront.symm, fun us hus => parseTokens_ok_iff.2 ?_⟩
  have himage : (front ++ us ++ z.source).map Token.lexeme = z.image ts := by
    rw [← hfront, Seam.image_append, hz.target, List.map_append, List.map_append, hus,
      List.append_assoc]
  have hahead : ahead 0 (z.image ts) = ahead 0 (ts.map Token.lexeme) := hz.reaches.ahead_zero
  obtain ⟨rest, -, hrun'⟩ := takes_statement_select ends (hahead ▸ hstarts) hz.takes
    (front ++ us ++ z.source) himage
  have hlength : (front ++ us ++ z.source).length = ts.length + count := by
    change _ = ts.length + (query.lastSpec.insertedLexemes added).length
    rw [← hfront, ← hus]
    simp only [List.length_append, List.length_map]
    omega
  rw [hlength]
  exact ⟨rest, hrun'⟩

end Texts

end Jpql.Grammar
