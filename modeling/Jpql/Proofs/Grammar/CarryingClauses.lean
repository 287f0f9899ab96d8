import Jpql.Proofs.Grammar.Nested

/-! The parsers of clauses and statements on texts that agree up to a seam. Up to the orders of a query
they may come to the seam; all others stay in front of it. -/

namespace Jpql.Grammar

open Jpql.Grammar.Parser
open Lexeme (ahead)

variable {α β : Type} {K : List Lexeme → Prop} {k : Nat} {e : Edge}

theorem bind_pure (p : Parser α) : p >>= pure = p := by
  funext s ts
  rw [bind_eq]
  rcases p s ts with _ | ⟨a, rest⟩
  · rfl
  · rfl

/-! ### Aliases and conditions -/

/-- A paging clause starts with such a word, where the dialect has one. -/
def startsPaging (d : Dialect) (ls : List Lexeme) : Bool :=
  if d.allowsPaging then (ahead 0 ls).isWord "LIMIT" || (ahead 0 ls).isWord "OFFSET" else false

/-- Whether an alias without `as` starts here. -/
def startsAlias (d : Dialect) (ls : List Lexeme) : Bool :=
  (ahead 0 ls).kind == .identifier && !(startsPaging d ls || startsJoin ls)

theorem atClauseWord_eq : atClauseWord =
    (dialect >>= fun d => (if d.allowsPaging then
        atWord "LIMIT" >>= fun limit => atWord "OFFSET" >>= fun offset => pure (limit || offset)
      else pure false) >>= fun paging => atJoin >>= fun join => pure (paging || join)) := by
  refine congrArg (dialect >>= ·) (funext fun d => ?_)
  cases d.allowsPaging with
  | true => rfl
  | false => rfl

theorem looks_atClauseWord :
    Looks atClauseWord fun d ls => startsPaging d ls || startsJoin ls := by
  rw [atClauseWord_eq]
  have hpaging (d : Dialect) : Looks (if d.allowsPaging then
      atWord "LIMIT" >>= fun limit => atWord "OFFSET" >>= fun offset => pure (limit || offset)
    else pure false) fun _ => startsPaging d := by
    cases hd : d.allowsPaging with
    | true =>
      have hview : startsPaging d = fun ls =>
          (ahead 0 ls).isWord "LIMIT" || (ahead 0 ls).isWord "OFFSET" := funext fun _ => if_pos hd
      rw [hview]
      exact (looks_atWord "LIMIT").bind fun _ => (looks_atWord "OFFSET").bind fun _ => .pure _
    | false =>
      have hview : startsPaging d = fun _ => false := funext fun _ => if_neg (by simp [hd])
      rw [hview]
      exact .pure false
  exact looks_dialect.bind fun d => (hpaging d).bind fun _ => looks_atJoin.bind fun _ => .pure _

theorem looks_startsAlias : Looks (current >>= fun t => atClauseWord >>= fun b =>
    pure (t.kind == .identifier && !b)) startsAlias := by
  have hcurrent := (looks_peekAt 0 fun l => l.kind == .identifier).bind fun found =>
    looks_atClauseWord.bind fun b => .pure (found && !b)
  exact hcurrent

theorem startsAlias_of_silent {d : Dialect} {ls : List Lexeme} (h : (ahead 0 ls).Silent d) :
    startsAlias d ls = false := by
  rw [startsAlias]
  rcases h with h | h | h | ⟨hkind, -⟩ | ⟨hpaging, hkind, w, hw, hword⟩
  · simp [h, Lexeme.eof]
  · simp [h, Lexeme.punctuator]
  · simp [h, Lexeme.punctuator]
  · simp [hkind]
  · have hlimit : startsPaging d ls = true := by
      simp only [List.mem_cons, List.not_mem_nil, or_false] at hw
      rcases hw with rfl | rfl
      · simp [startsPaging, hpaging, Lexeme.isWord, Lexeme.isAnyWord, hkind, hword]
      · simp [startsPaging, hpaging, Lexeme.isWord, Lexeme.isAnyWord, hkind, hword]
    simp [hlimit]

/-- At the seam no alias starts. -/
theorem steady_startsAlias : Steady e startsAlias := by
  intro z ts hz hr
  have hjoin : startsJoin (z.image ts) = startsJoin (ts.map Token.lexeme) := steady_startsJoin hz hr
  obtain ⟨mid, rfl⟩ := hr.suffix
  cases mid with
  | nil =>
    rw [List.nil_append, Seam.image_source]
    exact (startsAlias_of_silent z.silent').trans (startsAlias_of_silent z.silent).symm
  | cons t mid =>
    have hfirst : ahead 0 (z.image (t :: mid ++ z.source)) =
        ahead 0 ((t :: mid ++ z.source).map Token.lexeme) := by
      rw [Seam.image_append]
      rfl
    rw [startsAlias, startsAlias, startsPaging, startsPaging, hfirst, hjoin]

theorem carried_aliasClause? : Carried K 0 e aliasClause? aliasClause? := by
  have hnone : (current >>= fun t => atClauseWord >>= fun b =>
        if t.kind == .identifier && !b then advance >>= fun w => pure (some (⟨none, w⟩ : Alias))
        else pure none) =
      (current >>= fun t => atClauseWord >>= fun b => pure (t.kind == .identifier && !b)) >>= fun b =>
        if b then advance >>= fun w => pure (some ⟨none, w⟩) else pure none := by
    rw [bind_bind]
    refine congrArg _ (funext fun t => ?_)
    rw [bind_bind]
    rfl
  refine .eatKeyword (steady_isKeyword (by decide)) (Nat.zero_le 1)
    (fun _ => (carried_expectName.weaken (Nat.zero_le 1)).taking fun _ => .pure _) ?_
  dsimp only
  rw [hnone]
  refine .test looks_startsAlias steady_startsAlias (fun d ls h => ?_)
    ((carried_advance.taking fun _ => .pure _).weaken (Nat.zero_le 1)) (.pure none)
  exact solid_of (g := fun l => l.kind == .identifier) rfl rfl (Bool.and_eq_true_iff.1 h).1

section Clauses

variable {r r' : Rules} (hr : CarriedRules r r')

include hr

theorem carried_condition? {ks : List String} (hks : ∀ w ∈ ks, ∀ v ∈ ["ORDER", "FETCH"],
    eqIgnoringCase v w = false) : Carried K 0 e (condition? r ks) (condition? r' ks) :=
  .eatAnyKeyword (fun w hw => steady_isKeyword (hks w hw)) (Nat.zero_le 1)
    (fun _ => ((hr.expression _ _).weaken (Nat.zero_le 1)).taking fun _ => .pure _) (.pure none)

/-! ### Select, from and join -/

theorem carried_selectItem : Carried Anything 1 e (selectItem r) (selectItem r') :=
  (hr.expression _ _).taking fun _ => carried_aliasClause?.taking fun _ => .pure _

omit hr in
/-- Inside parentheses or in front of more, a token is taken even where there may be none. -/
theorem carried_advance_within : Carried K 0 .within advance advance where
  takes s ts rest w _ _ h := by
    cases h
    exact ⟨List.tail_suffix ts, by simp, fun h => absurd rfl h⟩
  carries z ts rest w _ _ h hr := by
    cases h
    cases ts with
    | nil =>
      have hopens := hr.opens (List.suffix_nil.1 hr.suffix).symm
      rw [List.tail_nil, Seam.image_of_plain hopens]
      rintro ts' hts'
      obtain rfl := List.map_eq_nil_iff.1 hts'
      have hliteral : z.goal.eof.literal = z.setting.eof.literal :=
        (congrArg Lexeme.literal z.ends').trans (congrArg Lexeme.literal z.ends).symm
      exact ⟨[], rfl, congrArg (fun w => Except.ok (w, [])) hliteral⟩
    | cons t ts =>
      rw [Seam.image_cons (show z.source <:+ ts from hr.suffix)]
      exact takes_advance t.lexeme _

theorem carried_join : Carried Anything 1 e (join r) (join r') := by
  have htest : Looks (do return !(← atKeyword "JOIN")) fun _ ls => !(ahead 0 ls).isKeyword "JOIN" :=
    (looks_atKeyword "JOIN").bind fun _ => .pure _
  refine .andThen (carried_skip htest ((steady_isKeyword (by decide)).map (! ·))) fun _ =>
    .andThen carried_advance_within fun _ => ?_
  have hrest {c : Expr → Option Alias → Option Condition → Join} : Carried Anything 1 e
      (r.expression .sign >>= fun target => aliasClause? >>= fun a =>
        condition? r ["ON", "WITH"] >>= fun on => pure (c target a on))
      (r'.expression .sign >>= fun target => aliasClause? >>= fun a =>
        condition? r' ["ON", "WITH"] >>= fun on => pure (c target a on)) :=
    (hr.expression _ _).taking fun _ => carried_aliasClause?.taking fun _ =>
      (carried_condition? hr (by decide)).taking fun _ => .pure _
  exact .eatKeyword (steady_first_within (·.isKeyword "FETCH")) le_rfl
    (fun _ => hrest.weaken (Nat.zero_le 1)) hrest

theorem carried_rootSource : Carried Anything 1 e (rootSource r) (rootSource r') := by
  have hrest {K : List Lexeme → Prop} : Carried K 1 e
      (atPunctuator "(" >>= fun b => dialect >>= fun d =>
        if b && d.allowsMissingSelect then RootSource.subquery <$> parenthesizedQuery r
        else RootSource.entity <$> qualifiedName)
      (atPunctuator "(" >>= fun b => dialect >>= fun d =>
        if b && d.allowsMissingSelect then RootSource.subquery <$> parenthesizedQuery r'
        else RootSource.entity <$> qualifiedName) :=
    .look (looks_atPunctuator "(") (steady_first_within (·.isPunctuator "(")) fun _ =>
      .look looks_dialect (steady_const id) fun _ =>
        .ite ((carried_parenthesizedQuery hr).anywhere.map _) (carried_qualifiedName.map _)
  refine .test (looks_atKeyword "IN") (steady_first_within (·.isKeyword "IN"))
    (fun _ => solid_of_isKeyword) ?_ ?_
  · refine .look looks_nextIsOpenParen steady_nextIsOpenParen fun _ => .ite ?_ hrest
    exact carried_advance.andThen fun _ => (carried_expectPunctuator (by decide)).andThen fun _ =>
      (hr.expression _ _).andThen fun _ => (carried_expectPunctuator (by decide)).taking fun _ =>
        .pure _
  · exact .look looks_nextIsOpenParen steady_nextIsOpenParen fun _ => hrest

theorem carried_fromRoot : Carried Anything 1 e (fromRoot r) (fromRoot r') :=
  (carried_rootSource hr).taking fun _ => carried_aliasClause?.taking fun _ =>
    (carried_manyWhile looks_atJoin steady_startsJoin (fun _ => rfl) (fun _ _ _ => trivial)
      (carried_join hr)).taking fun _ => .pure _

/-! ### Orders -/

/-- What stands behind the expression of an order and its direction. -/
def nullsBehind (value : Expr) (direction : Option String) : Parser OrderItem := do
  match ← eatKeyword "NULLS" with
  | some nulls =>
    let place ← orMismatched "\x7bFIRST, LAST\x7d" (← eatAnyWord ["FIRST", "LAST"])
    return ⟨value, direction, some (nulls ++ " " ++ place)⟩
  | none => return ⟨value, direction, none⟩

omit hr in
theorem carried_nullsBehind (value : Expr) (direction : Option String) :
    Carried Anything 0 e (nullsBehind value direction) (nullsBehind value direction) := by
  have hplaces : ∀ w ∈ ["FIRST", "LAST"], ∀ v ∈ ["ORDER", "FETCH", "LIMIT", "OFFSET"],
      eqIgnoringCase v w = false := by decide
  refine .eatKeyword (steady_isKeyword (by decide)) (Nat.zero_le 1) (fun _ => ?_) (.pure _)
  exact .eatAnyWord
    (fun w hw => steady_first (·.isWord w) false fun _ _ h => h.isWord (hplaces w hw))
    (Nat.zero_le 1) (fun _ => .andThen (.pure _) fun _ => .pure _) (.of_fails fun _ _ _ => nofun)

theorem carried_orderItem : Carried Anything 1 e (orderItem r) (orderItem r') := by
  have hwords : ∀ w ∈ ["ASC", "DESC"], ∀ v ∈ ["ORDER", "FETCH"], eqIgnoringCase v w = false := by
    decide
  exact (hr.expression _ _).taking fun value => .eatAnyKeyword
    (fun w hw => steady_isKeyword (hwords w hw)) (Nat.zero_le 1)
    (fun direction => carried_nullsBehind value (some direction)) (carried_nullsBehind value none)

/-! ### Paging -/

/-- Words at which no clause starts. -/
def NoClauseWords (ws : List String) : Prop :=
  ∀ w ∈ ws, ∀ v ∈ ["ORDER", "FETCH", "LIMIT", "OFFSET"], eqIgnoringCase v w = false

omit hr in
theorem NoClauseWords.steady {ws : List String} (h : NoClauseWords ws) (w : String) (hw : w ∈ ws) :
    Steady e fun _ ls => (ahead 0 ls).isWord w :=
  steady_first (·.isWord w) false fun _ _ hl => hl.isWord (h w hw)

omit hr in
theorem carried_optionalWord {ws : List String} (hws : NoClauseWords ws) :
    Carried K 0 e (optionalWord ws) (optionalWord ws) :=
  .eatAnyWord hws.steady (Nat.zero_le 1) (fun _ => .pure _) (.pure _)

omit hr in
theorem noClauseWords_rows : NoClauseWords ["ROWS", "ROW"] := by
  unfold NoClauseWords
  decide

theorem carried_fetchClause (fetch : String) :
    Carried Anything 1 .within (fetchClause r fetch) (fetchClause r' fetch) := by
  refine .eatAnyWord (fun w _ => steady_first_within (·.isWord w)) le_rfl
    (fun _ => .andThen (.pure _) fun _ => ?_) (.of_fails fun _ _ _ => nofun)
  refine ((hr.expression _ _).weaken (Nat.zero_le 1)).taking fun _ =>
    (carried_optionalWord (by unfold NoClauseWords; decide)).andThen fun _ =>
    .eatAnyWord (fun w _ => steady_first_within (·.isWord w)) (Nat.zero_le 1)
      (fun _ => .andThen (.pure _) fun _ => ?_) (.of_fails fun _ _ _ => nofun)
  refine .eatWord (steady_first_within (·.isWord "ONLY")) (Nat.zero_le 1)
    (fun _ => .andThen (.pure _) fun _ => .pure _) ?_
  exact (Carried.andThen (carried_expectKeyword _) fun _ => (carried_expectWord _).taking fun _ =>
    .andThen (.pure _) fun _ => .pure _).weaken (Nat.zero_le 1)

/-- Where a paging clause was found a token was taken. -/
theorem carried_behindPaging {f f' : Option (List Fragment) → Parser β} (hk : k ≤ 1)
    (hsome : ∀ fragments, Carried Anything 0 .within (f (some fragments)) (f' (some fragments)))
    (hnone : Carried K k .within (f none) (f' none)) :
    Carried K k .within (pagingClause? r >>= f) (pagingClause? r' >>= f') := by
  have hcount : Carried Anything 0 .within (r.expression .sum) (r'.expression .sum) :=
    (hr.expression _ _).weaken (Nat.zero_le 1)
  have hfirst (g : Lexeme → Bool) : Steady (Edge.within.before k) fun _ ls => g (ahead 0 ls) := by
    rw [Edge.before_within]
    exact steady_first_within g
  rw [pagingClause?, pagingClause?, bind_bind, bind_bind]
  refine .eatWord (hfirst (·.isWord "LIMIT")) hk (fun limit => ?_) ?_
  · dsimp only
    rw [bind_bind, bind_bind]
    exact hcount.taking fun _ => hsome _
  dsimp only
  rw [bind_bind, bind_bind]
  refine .eatWord (hfirst (·.isWord "OFFSET")) hk (fun offset => ?_) ?_
  · dsimp only
    rw [bind_bind, bind_bind]
    refine hcount.taking fun count => ?_
    rw [bind_bind, bind_bind]
    exact (carried_optionalWord noClauseWords_rows).taking fun _ => hsome _
  dsimp only
  rw [bind_bind, bind_bind]
  refine .eatKeyword (hfirst (·.isKeyword "FETCH")) hk (fun fetch => ?_) hnone
  dsimp only
  rw [bind_bind, bind_bind]
  exact ((carried_fetchClause hr fetch).weaken (Nat.zero_le 1)).taking fun _ => hsome _

omit hr in
theorem pagingClauses_succ (n : Nat) : pagingClauses r (n + 1) =
    pagingClause? r >>= fun found => match found with
      | some fragments => (fragments ++ ·) <$> pagingClauses r n
      | none => pure [] := rfl

theorem carried_pagingClause? :
    Carried Anything 0 .within (pagingClause? r) (pagingClause? r') := by
  rw [← bind_pure (pagingClause? r), ← bind_pure (pagingClause? r')]
  exact carried_behindPaging hr (Nat.zero_le 1) (fun _ => .pure _) (.pure none)

theorem length_of_pagingClause? {s : Setting} {ts rest : List Token} {fragments : List Fragment}
    (he : s.Ends) (hrun : pagingClause? r s ts = .ok (some fragments, rest)) :
    rest.length + 1 ≤ ts.length := by
  let found : Option (List Fragment) → Parser (List Fragment)
    | some fragments => pure fragments
    | none => noAlternative
  have hcarried : Carried Anything 1 .within (pagingClause? r >>= found) (pagingClause? r' >>= found) :=
    carried_behindPaging hr le_rfl (fun _ => .pure _) (.reject _)
  exact (hcarried.takes he trivial (bind_ok_iff.2 ⟨_, _, hrun, rfl⟩)).length

theorem taken_pagingClauses (n : Nat) {s : Setting} {ts rest : List Token} {fragments : List Fragment}
    (he : s.Ends) (hrun : pagingClauses r n s ts = .ok (fragments, rest)) :
    Taken 0 .within ts rest := by
  induction n generalizing ts fragments with
  | zero =>
    cases hrun
    exact .nothing .within rest
  | succ n ih =>
    rw [pagingClauses_succ] at hrun
    obtain ⟨found, mid, hfound, hrun⟩ := bind_ok_iff.1 hrun
    have hmid := (carried_pagingClause? hr).takes he trivial hfound
    cases found with
    | none =>
      cases hrun
      exact hmid
    | some first =>
      obtain ⟨more, behind, hmore, hrun⟩ := bind_ok_iff.1 hrun
      cases hrun
      exact hmid.append (ih hmore)

omit hr in
theorem takes_pagingClauses_nil {s : Setting} (he : s.Ends) (n : Nat) :
    Takes s (pagingClauses r n) [] [] [] := by
  cases n with
  | zero => exact .pure _ _
  | succ n =>
    have hnone : Takes s (pagingClause? r) [] none [] :=
      (takes_eatWord_none he rfl).bind <| (takes_eatWord_none he rfl).bind <|
        (takes_eatKeyword_none he rfl).bind (.pure _ _)
    exact hnone.bind (.pure _ _)

theorem carries_pagingClauses {z : Seam} (n m : Nat) {ts rest : List Token}
    {fragments : List Fragment} (hn : ts.length ≤ n) (hm : ts.length ≤ m) (hz : z.Joint ts)
    (hrun : pagingClauses r n z.setting ts = .ok (fragments, rest)) (hreach : z.Reaches .within rest) :
    Takes z.goal (pagingClauses r' m) (z.image ts) fragments (z.image rest) := by
  induction n generalizing m ts fragments with
  | zero =>
    cases hrun
    obtain rfl : rest = [] := List.length_eq_zero_iff.1 (Nat.le_zero.1 hn)
    rw [Seam.image_of_plain (hreach.opens (List.suffix_nil.1 hreach.suffix).symm)]
    exact takes_pagingClauses_nil z.goal_ends m
  | succ n ih =>
    rw [pagingClauses_succ] at hrun
    obtain ⟨found, mid, hfound, hrun⟩ := bind_ok_iff.1 hrun
    have hmid := (carried_pagingClause? hr).takes z.setting_ends trivial hfound
    have hfirst := (carried_pagingClause? hr).carries z trivial hz hfound
    cases found with
    | none =>
      cases hrun
      cases m with
      | zero =>
        obtain rfl : ts = [] := List.length_eq_zero_iff.1 (Nat.le_zero.1 hm)
        obtain rfl : rest = [] := List.suffix_nil.1 hmid.suffix
        exact .pure _ _
      | succ m => exact (hfirst hreach).bind (.pure _ _)
    | some first =>
      obtain ⟨more, behind, hmore, hrun⟩ := bind_ok_iff.1 hrun
      cases hrun
      have hlength := length_of_pagingClause? hr z.setting_ends hfound
      have htaken := taken_pagingClauses hr n z.setting_ends hmore
      obtain ⟨m, rfl⟩ : ∃ j, m = j + 1 := ⟨m - 1, by omega⟩
      have hrest := ih m (by omega) (by omega) (hz.suffix hmid.suffix) hmore
      exact (hfirst (hreach.before htaken.suffix htaken.length)).bind (hrest.map _)

theorem carried_pagingClauses :
    Carried K 0 .within (bounded (pagingClauses r)) (bounded (pagingClauses r')) where
  takes _ ts _ _ he _ hrun := taken_pagingClauses hr ts.length he hrun
  carries z ts _ _ _ hz hrun hreach :=
    .bounded (carries_pagingClauses hr ts.length _ le_rfl (z.length_le_image ts) hz hrun hreach)

/-! ### Queries -/

theorem carried_selectClause (he : e ≠ .free) :
    Carried K 0 e (selectClause r) (selectClause r') := by
  refine .test (looks_atKeyword "SELECT") (steady_isKeyword (by decide)) (fun _ => solid_of_isKeyword)
    (Carried.weaken (k := 1) ?_ (Nat.zero_le 1)) ?_
  · exact carried_advance.taking fun _ => (carried_eatKeyword (steady_isKeyword (by decide))).taking
      fun _ => (carried_commaList he ((carried_selectItem hr).weaken (Nat.zero_le 1))
        ((carried_selectItem hr).weaken (Nat.zero_le 1))).taking fun _ => .pure _
  · exact .look looks_dialect (steady_const id) fun _ => .ite (.pure _) (.reject _)

theorem carried_fromClause (he : e ≠ .free) : Carried K 0 e (fromClause r) (fromClause r') := by
  refine .test (looks_atKeyword "FROM") (steady_isKeyword (by decide)) (fun _ => solid_of_isKeyword)
    (Carried.weaken (k := 1) ?_ (Nat.zero_le 1)) ?_
  · exact carried_advance.taking fun _ =>
      (carried_commaList he ((carried_fromRoot hr).weaken (Nat.zero_le 1))
        ((carried_fromRoot hr).weaken (Nat.zero_le 1))).taking fun _ => .pure _
  · exact .look looks_dialect (steady_const id) fun _ => .ite (.pure _) (.reject _)

omit hr in
theorem carried_listBehind {first second : String} {items items' : Parser (List α)}
    (hfirst : Steady e fun _ ls => (ahead 0 ls).isKeyword first)
    (hitems : Carried Anything 0 e items items') :
    Carried K 0 e (listBehind first second items) (listBehind first second items') :=
  .test (looks_atKeyword first) hfirst (fun _ => solid_of_isKeyword)
    (((carried_expectPair first second).weaken (Nat.zero_le 1)).taking fun _ =>
      hitems.taking fun _ => .pure _) (.pure _)

/-- The clauses of a query in front of its orders. -/
def querySpecHead (r : Rules) : Parser QuerySpec := do
  let (selectWord, distinct, items) ← selectClause r
  let (fromWord, roots) ← fromClause r
  if items.isEmpty && roots.isEmpty then mismatched "\x7bSELECT, FROM\x7d"
  else
    let filter ← condition? r ["WHERE"]
    let (groupWords, groups) ← listBehind "GROUP" "BY" r.expressions
    let groupFilter ← condition? r ["HAVING"]
    return { selectWord, distinct, items, fromWord, roots, filter, groupWords, groups,
             groupFilter, orderWords := "", orders := [], paging := [] }

/-- The paging clauses, where the dialect has them. -/
def pagingBehind (r : Rules) : Parser (List Fragment) := do
  if (← dialect).allowsPaging then bounded (pagingClauses r) else return []

omit hr in
theorem querySpec_eq (r : Rules) : querySpec r = do
    let q ← querySpecHead r
    let (orderWords, orders) ← listBehind "ORDER" "BY" (commaList (orderItem r))
    let paging ← pagingBehind r
    return { q with orderWords, orders, paging } := by
  rw [querySpecHead, bind_bind]
  refine congrArg _ (funext fun ⟨selectWord, distinct, items⟩ => ?_)
  dsimp only
  rw [bind_bind]
  refine congrArg _ (funext fun ⟨fromWord, roots⟩ => ?_)
  dsimp only
  split
  · rfl
  · rw [bind_bind]
    refine congrArg _ (funext fun filter => ?_)
    rw [bind_bind]
    refine congrArg _ (funext fun ⟨groupWords, groups⟩ => ?_)
    dsimp only
    rw [bind_bind]
    refine congrArg _ (funext fun groupFilter => ?_)
    refine congrArg (listBehind "ORDER" "BY" _ >>= ·) (funext fun ⟨orderWords, orders⟩ => ?_)
    dsimp only
    rw [pagingBehind, bind_bind]
    refine congrArg _ (funext fun d => ?_)
    cases d.allowsPaging with
    | true => rfl
    | false => rfl

theorem carried_querySpecHead (he : e ≠ .free) :
    Carried K 0 e (querySpecHead r) (querySpecHead r') := by
  refine (carried_selectClause hr he).taking fun _ => (carried_fromClause hr he).taking fun _ =>
    .ite (.reject _) ?_
  refine (carried_condition? hr (by decide)).taking fun _ => ?_
  refine (carried_listBehind (steady_isKeyword (by decide))
    ((carried_expressions hr he).weaken (Nat.zero_le 1))).taking fun _ => ?_
  exact (carried_condition? hr (by decide)).taking fun _ => .pure _

theorem carried_pagingBehind :
    Carried K 0 .within (pagingBehind r) (pagingBehind r') :=
  .look looks_dialect (steady_const id) fun _ => .ite (carried_pagingClauses hr) (.pure _)

theorem carried_querySpec : Carried K 0 .within (querySpec r) (querySpec r') := by
  rw [querySpec_eq, querySpec_eq]
  refine (carried_querySpecHead hr (by decide)).taking fun _ => ?_
  refine (carried_listBehind (steady_first_within (·.isKeyword "ORDER"))
    (carried_commaList (by decide) ((carried_orderItem hr).weaken (Nat.zero_le 1))
      ((carried_orderItem hr).weaken (Nat.zero_le 1)))).taking fun _ => ?_
  exact (carried_pagingBehind hr).taking fun _ => .pure _

theorem carried_queryTerm : Carried K 0 .within (queryTerm r) (queryTerm r') :=
  .eatPunctuator (by decide) (steady_first_within (·.isPunctuator "(")) (Nat.zero_le 1)
    (hr.select.taking fun _ =>
      ((carried_expectPunctuator (by decide)).weaken (Nat.zero_le 1)).taking fun _ => .pure _)
    ((carried_querySpec hr).taking fun _ => .pure _)

theorem carried_setOperation : Carried Solid 1 .within (setOperation r) (setOperation r') :=
  carried_advance.taking fun _ => .eatAnyKeyword (fun w _ => steady_first_within (·.isKeyword w))
    (Nat.zero_le 1) (fun _ => (carried_queryTerm hr).taking fun _ => .pure _)
      ((carried_queryTerm hr).taking fun _ => .pure _)

theorem carried_cte : Carried Anything 1 .within (cte r) (cte r') :=
  carried_expectName.andThen fun _ => (carried_expectKeyword _).andThen fun _ =>
    (carried_parenthesizedQuery hr).taking fun _ => .pure _

theorem carried_withClause : Carried K 0 .within (withClause r) (withClause r') := by
  have hrest {word : String} {recursive : Option String} : Carried Anything 0 .within
      (commaList (cte r) >>= fun ctes => pure (" ".intercalate (word :: recursive.toList), ctes))
      (commaList (cte r') >>= fun ctes => pure (" ".intercalate (word :: recursive.toList), ctes)) :=
    (carried_commaList (by decide) ((carried_cte hr).weaken (Nat.zero_le 1))
      ((carried_cte hr).weaken (Nat.zero_le 1))).taking fun _ => .pure _
  refine .test (looks_atKeyword "WITH") (steady_first_within (·.isKeyword "WITH"))
    (fun _ => solid_of_isKeyword) ((carried_advance.taking fun _ => ?_).weaken (Nat.zero_le 1))
    (.pure _)
  exact .eatWord (steady_first_within (·.isWord "RECURSIVE")) (Nat.zero_le 1) (fun _ => hrest) hrest

theorem carried_selectStatement :
    Carried K 0 .within (selectStatement r) (selectStatement r') :=
  (carried_withClause hr).taking fun _ => (carried_queryTerm hr).taking fun _ =>
    (carried_manyWhile (looks_atAnyKeyword _)
      (steady_first_within fun l => setOperationWords.any l.isKeyword) (fun _ => rfl)
      (fun _ _ => solid_of (g := fun l => setOperationWords.any l.isKeyword) rfl rfl)
      (carried_setOperation hr)).taking fun _ => .pure _

/-! ### Statements -/

theorem carried_assignment : Carried Anything 0 .within (assignment r) (assignment r') := by
  refine ((hr.expression _ _).weaken (Nat.zero_le 1)).taking fun _ => .current rfl fun kind literal _ _ =>
    .iteOf (fun hoperator => ?_) fun _ => .reject _
  exact carried_advance_within.taking fun _ =>
    ((hr.expression _ _).weaken (Nat.zero_le 1)).taking fun _ => .pure _

theorem carried_updateStatement :
    Carried K 0 .within (updateStatement r) (updateStatement r') :=
  carried_advance_within.taking fun _ => (carried_qualifiedName.weaken (Nat.zero_le 1)).taking fun _ =>
    carried_aliasClause?.taking fun _ => ((carried_expectKeyword _).weaken (Nat.zero_le 1)).taking
      fun _ => (carried_commaList (by decide) (carried_assignment hr) (carried_assignment hr)).taking
        fun _ => (carried_condition? hr (by decide)).taking fun _ => .pure _

theorem carried_deleteStatement :
    Carried K 0 .within (deleteStatement r) (deleteStatement r') :=
  carried_advance_within.taking fun _ => (carried_eatKeyword (steady_isKeyword (by decide))).taking
    fun _ => (carried_qualifiedName.weaken (Nat.zero_le 1)).taking fun _ =>
      carried_aliasClause?.taking fun _ => (carried_condition? hr (by decide)).taking fun _ => .pure _

theorem carried_statement : Carried K 0 .within (statement r) (statement r') := by
  have hend (st : Statement) : Carried Anything 0 .within
      (do if ← atEnd then return st else mismatched "<EOF>")
      (do if ← atEnd then return st else mismatched "<EOF>") :=
    .look looks_atEnd steady_isEmpty_within fun _ => .ite (.pure st) (.reject _)
  have hfirst (g : Lexeme → Bool) := steady_first_within g
  refine .look (looks_atKeyword "UPDATE") (hfirst (·.isKeyword "UPDATE")) fun _ => ?_
  refine .look (looks_atKeyword "DELETE") (hfirst (·.isKeyword "DELETE")) fun _ => ?_
  refine .look (looks_atAnyKeyword _) (hfirst fun l => ["SELECT", "WITH"].any l.isKeyword) fun _ => ?_
  refine .look (looks_atPunctuator "(") (hfirst (·.isPunctuator "(")) fun _ => ?_
  refine .look (looks_atKeyword "FROM") (hfirst (·.isKeyword "FROM")) fun _ => ?_
  refine .look looks_dialect (steady_const id) fun _ => ?_
  exact .ite (((carried_updateStatement hr).map _).taking hend) <|
    .ite (((carried_deleteStatement hr).map _).taking hend) <|
      .ite (((carried_selectStatement hr).map _).taking hend) (.reject _)

end Clauses

/-- Rules that are unfolded further go on alike. -/
theorem carried_rules {n m : Nat} (h : n ≤ m) :
    CarriedRules (rules n) (rules m) ∧ ExcludesBeyond (rules n) (rules m) := by
  induction n generalizing m with
  | zero =>
    refine ⟨⟨fun _ _ => .reject _, .reject _⟩, ?_⟩
    intro z ts hfound left rest hleft
    cases hleft
  | succ n ih =>
    obtain ⟨m, rfl⟩ : ∃ j, m = j + 1 := ⟨m - 1, by omega⟩
    obtain ⟨hr, hx⟩ := ih (m := m) (by omega)
    refine ⟨⟨fun p e => carried_expression hr (fun _ => carried_parenthesized hr hx)
      (carried_inTest hr hx) p, carried_selectStatement hr⟩, excludesBeyond_succ hr hx⟩

end Jpql.Grammar
