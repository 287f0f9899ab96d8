import Jpql.Proofs.Grammar.TranscribingExpressions

/-! Clauses and statements write what they were parsed from, so a statement is written as a text that
is read as the tokens of the query. -/

namespace Jpql.Grammar

open Jpql.Grammar.Parser
open Lexeme (ahead)
open Rendering

variable {α β : Type} {K : List Lexeme → Prop}

theorem transcribes_aliasClause? : Transcribes K [] aliasClause? Alias.renderings := by
  refine (transcribes_eatKeyword "AS").andThen fun found => ?_
  cases found with
  | some asWord =>
    exact transcribes_expectName.andThen fun name =>
      .pure ((becomes_text name).cons (word asWord))
  | none =>
    refine .current fun kind literal _ => .look looks_atClauseWord fun _ => .iteOf (fun hname => ?_)
      fun _ => .pure (.refl _)
    refine .advance (fun ls h => ?_) fun name => .pure (becomes_text name)
    refine present_of (g := fun l => l.kind == .identifier) rfl ?_
    rw [h.2]
    exact (Bool.and_eq_true_iff.1 hname).1

section Clauses

variable {r : Rules} (hr : TranscribingRules r)

include hr

theorem transcribes_condition? (ks : List String) :
    Transcribes K [] (condition? r ks) conditionRenderings := by
  refine (transcribes_eatAnyKeyword ks).andThen fun found => ?_
  cases found with
  | some keyword =>
    refine (hr.expression _).andThen fun e => .pure ?_
    rw [conditionRenderings]
    exact becomes_spaced _ _
  | none =>
    refine .pure ?_
    rw [conditionRenderings]
    exact .refl _

/-! ### Select, from and join -/

theorem transcribes_selectItem :
    Transcribes K [] (selectItem r) fun i => [i.rendering] :=
  (hr.expression _).anywhere.andThen fun _ => transcribes_aliasClause?.andThen fun _ =>
    .pure (becomes_spaced _ _)

/-- The word behind the modifiers of a join is there, since the target of the join is. -/
theorem transcribes_join : Transcribes K [] (join r) fun j => [j.rendering] := by
  have htest : Looks (do return !(← atKeyword "JOIN")) fun _ ls => !(ahead 0 ls).isKeyword "JOIN" :=
    (looks_atKeyword "JOIN").bind fun _ => .pure _
  refine (transcribes_skip htest).andThen fun modifiers => ?_
  have hrest (joinWord : String) : Transcribes Anything (modifiers.map word ++ [word joinWord])
      (eatKeyword "FETCH" >>= fun fetch => r.expression .sign >>= fun target =>
        aliasClause? >>= fun a => condition? r ["ON", "WITH"] >>= fun on =>
          pure (Join.mk (" ".intercalate (modifiers ++ joinWord :: fetch.toList)) target a on))
      fun j => [j.rendering] := by
    refine (transcribes_eatKeyword "FETCH").andThen fun fetch => (hr.expression _).andThen
      fun target => transcribes_aliasClause?.andThen fun a =>
        (transcribes_condition? hr _).andThen fun on => .pure ?_
    have hwords : Becomes ((modifiers ++ joinWord :: fetch.toList).map word)
        [word (" ".intercalate (modifiers ++ joinWord :: fetch.toList))] :=
      becomes_words (by simp)
    have hjoined := hwords.append
      (.refl (target.rendering :: Alias.renderings a ++ conditionRenderings on))
    refine Becomes.trans ?_ (becomes_spaced _ _)
    simpa [optionalWord_toList] using hjoined
  refine .of_present (.advance (fun _ => id) hrest) fun he v h => ?_
  -- at the end of the text no target is found
  obtain ⟨joinWord, _, hword, h⟩ := bind_ok_iff.1 h
  cases hword
  obtain ⟨fetch, mid, hfetch, h⟩ := bind_ok_iff.1 h
  obtain ⟨target, _, htarget, -⟩ := bind_ok_iff.1 h
  obtain ⟨taken, hmid, -⟩ :=
    transcribes_eatKeyword (K := Anything) "FETCH" he (List.forall_mem_nil _) trivial hfetch
  obtain rfl : mid = [] := (List.append_eq_nil_iff.1 hmid.symm).2
  exact hr.starts _ he _ htarget

theorem transcribes_rootSource :
    Transcribes K [] (rootSource r) fun source => [source.rendering] := by
  have hrest {K : List Lexeme → Prop} : Transcribes K []
      (atPunctuator "(" >>= fun b => dialect >>= fun d =>
        if b && d.allowsMissingSelect then RootSource.subquery <$> parenthesizedQuery r
        else RootSource.entity <$> qualifiedName) fun source => [source.rendering] := by
    refine .look (looks_atPunctuator "(") fun _ => .look looks_dialect fun _ => .ite ?_ ?_
    · refine (transcribes_parenthesizedQuery hr).map _ fun q => ?_
      rw [RootSource.rendering]
      exact .refl _
    · refine transcribes_qualifiedName.map _ fun name => ?_
      rw [RootSource.rendering]
      exact .refl _
  refine .test (looks_atKeyword "IN") (fun _ => present_of_isKeyword) ?_ ?_
  · refine .look looks_nextIsOpenParen fun _ => .ite ?_ hrest
    refine .advance (fun _ => id) fun keyword => (transcribes_expectPunctuator "(").andThen fun _ =>
      (hr.expression _).andThen fun path => (transcribes_expectPunctuator ")").andThen fun _ =>
        .pure ?_
    rw [RootSource.rendering]
    exact ((becomes_text keyword).append (becomes_parenthesized path.rendering)).trans
      (becomes_call_of keyword path.rendering)
  · exact .look looks_nextIsOpenParen fun _ => hrest

theorem transcribes_fromRoot : Transcribes K [] (fromRoot r) fun root => [root.rendering] := by
  refine (transcribes_rootSource hr).andThen fun source => transcribes_aliasClause?.andThen fun a =>
    (transcribes_manyWhile (J := Anything) looks_atJoin (fun _ _ _ => trivial)
      (transcribes_join hr)).andThen fun joins => .pure ?_
  have hjoins : (joins.flatMap fun j => [j.rendering]) = joinRenderings joins := by
    rw [joinRenderings_eq, List.map_eq_flatMap]
  rw [hjoins]
  exact becomes_spaced _ _

/-! ### Orders and paging -/

theorem transcribes_orderItem : Transcribes K [] (orderItem r) fun i => [i.rendering] := by
  refine (hr.expression _).anywhere.andThen fun e => (transcribes_eatAnyKeyword _).andThen
    fun direction => (transcribes_eatKeyword "NULLS").andThen fun found => ?_
  cases found with
  | some nulls =>
    refine (transcribes_eatAnyWord _).andThen fun found => ?_
    cases found with
    | some place =>
      refine .pure (.trans ?_ (becomes_spaced _ _))
      have hpair := (Becomes.refl (e.rendering :: Rendering.optionalWord direction)).append
        (becomes_pair nulls place)
      simpa [Rendering.optionalWord] using hpair
    | none => exact .rejectBind _
  | none => exact .pure (becomes_spaced _ _)

omit hr in
theorem transcribes_optionalWord (words : List String) :
    Transcribes K [] (optionalWord words) fragmentRenderings := by
  refine (transcribes_eatAnyWord words).andThen fun found => .pure ?_
  cases found with
  | some w => exact .refl _
  | none => exact .refl _

theorem transcribes_fetchClause (fetch : String) :
    Transcribes K [word fetch] (fetchClause r fetch) fragmentRenderings := by
  refine (transcribes_eatAnyWord _).andThen fun found => ?_
  cases found with
  | none => exact .rejectBind _
  | some first =>
    refine .pureBind <| (hr.expression _).andThen fun count =>
      (transcribes_optionalWord _).andThen fun percent => (transcribes_eatAnyWord _).andThen
        fun found => ?_
    cases found with
    | none => exact .rejectBind _
    | some rows =>
      have hfragments (ending : String) :
          Becomes ([word fetch, word first, count.rendering] ++ fragmentRenderings percent ++
            [word rows, word ending])
            (fragmentRenderings ([Fragment.word fetch, .word first, .expr count] ++ percent ++
              [Fragment.word rows, .word ending])) := by
        rw [fragmentRenderings_append, fragmentRenderings_append]
        exact .refl _
      refine .pureBind <| (transcribes_eatWord "ONLY").andThen fun found => ?_
      cases found with
      | some only =>
        refine .pureBind (.pure (.trans ?_ (hfragments only)))
        simpa [Rendering.optionalWord] using Becomes.refl _
      | none =>
        refine (transcribes_expectKeyword _).andThen fun withWord =>
          (transcribes_expectWord _).andThen fun ties => .pureBind (.pure (.trans ?_ (hfragments _)))
        have hpair := (Becomes.refl ([word fetch, word first, count.rendering] ++
          fragmentRenderings percent ++ [word rows])).append (becomes_pair withWord ties)
        simpa [Rendering.optionalWord] using hpair

theorem transcribes_pagingClause? :
    Transcribes K [] (pagingClause? r) fun found => found.elim [] fragmentRenderings := by
  refine (transcribes_eatWord "LIMIT").andThen fun limit => ?_
  cases limit with
  | some limit =>
    refine (hr.expression _).andThen fun count => .pure ?_
    exact .refl _
  | none =>
    refine (transcribes_eatWord "OFFSET").andThen fun offset => ?_
    cases offset with
    | some offset =>
      refine (hr.expression _).andThen fun count => (transcribes_optionalWord _).andThen fun rows =>
        .pure ?_
      rw [Option.elim_some, fragmentRenderings_append]
      exact .refl _
    | none =>
      refine (transcribes_eatKeyword "FETCH").andThen fun fetch => ?_
      cases fetch with
      | some fetch => exact (transcribes_fetchClause hr fetch).map some fun _ => .refl _
      | none => exact .pure (.refl _)

theorem transcribes_pagingClauses (n : Nat) :
    Transcribes K [] (pagingClauses r n) fragmentRenderings := by
  induction n generalizing K with
  | zero => exact .pure (.refl _)
  | succ n ih =>
    refine (transcribes_pagingClause? hr).andThen fun found => ?_
    cases found with
    | some fragments =>
      refine ih.andThen fun more => .pure ?_
      rw [fragmentRenderings_append]
      exact .refl _
    | none => exact .pure (.refl _)

/-! ### Queries -/

omit hr in
/-- A list as one stream. -/
theorem transcribes_row {item : Parser α} {rendering : α → Rendering}
    (hitem : Transcribes Anything [] item fun a => [rendering a]) :
    Transcribes K [] (commaList item) fun as => [commaSeparated (as.map rendering)] := by
  refine hitem.anywhere.andThen fun a => (transcribes_commaTail hitem).andThen fun as => .pure ?_
  have hrow := becomes_commaSeparated (rendering a) (as.map rendering)
  rw [separated, List.flatMap_map] at hrow
  exact hrow

/-- What a select clause writes, if there is one. -/
def selectRenderings : String × Option String × List SelectItem → List Rendering
  | (selectWord, distinct, items) => if items.isEmpty then [] else
    [spaced (word selectWord :: Rendering.optionalWord distinct ++
      [commaSeparated (itemRenderings items)])]

theorem transcribes_selectClause : Transcribes K [] (selectClause r) selectRenderings := by
  refine .test (looks_atKeyword "SELECT") (fun _ => present_of_isKeyword) ?_
    (.look looks_dialect fun _ => .ite (.pure (.refl _)) (.reject _))
  refine .advance (fun _ => id) fun selectWord => (transcribes_eatKeyword _).andThen fun distinct =>
    (transcribes_row (transcribes_selectItem hr)).andThenOf (commaList_ne_nil _) fun items hne =>
      .pure ?_
  rw [selectRenderings, if_neg (by simpa using hne), itemRenderings_eq]
  exact becomes_spaced _ _

/-- What a from clause writes, if there is one. -/
def fromRenderings : String × List FromRoot → List Rendering
  | (fromWord, roots) => if roots.isEmpty then [] else
    [spaced [word fromWord, commaSeparated (rootRenderings roots)]]

theorem transcribes_fromClause : Transcribes K [] (fromClause r) fromRenderings := by
  refine .test (looks_atKeyword "FROM") (fun _ => present_of_isKeyword) ?_
    (.look looks_dialect fun _ => .ite (.pure (.refl _)) (.reject _))
  refine .advance (fun _ => id) fun fromWord =>
    (transcribes_row (transcribes_fromRoot hr)).andThenOf (commaList_ne_nil _) fun roots hne =>
      .pure ?_
  rw [fromRenderings, if_neg (by simpa using hne), rootRenderings_eq]
  exact becomes_spaced _ _

omit hr in
theorem transcribes_listBehind (first second : String) {items : Parser (List α)}
    {row : List α → Rendering} {out : String × List α → List Rendering}
    (hitems : Transcribes Anything [] items fun as => [row as]) (hne : Yields items (· ≠ []))
    (hnil : out ("", []) = [])
    (hout : ∀ words as, as ≠ [] → Becomes [word words, row as] (out (words, as))) :
    Transcribes K [] (listBehind first second items) out := by
  refine .look (looks_atKeyword first) fun _ => .ite ?_ (.pure ?_)
  · exact (transcribes_expectPair first second).andThen fun words =>
      hitems.andThenOf hne fun as has => .pure (hout words as has)
  · rw [hnil]
    exact .refl _

/-- What the expressions that a query groups by write, if there are any. -/
def groupRenderings : String × List Expr → List Rendering
  | (groupWords, groups) => if groups.isEmpty then [] else
    [word groupWords, commaSeparated (exprRenderings groups)]

/-- What the orders of a query write, if there are any. -/
def orderedRenderings : String × List OrderItem → List Rendering
  | (orderWords, orders) => if orders.isEmpty then [] else
    [spaced [word orderWords, commaSeparated (orderRenderings orders)]]

theorem transcribes_querySpec : Transcribes K [] (querySpec r) fun q => [q.rendering] := by
  refine (transcribes_selectClause hr).andThen fun ⟨selectWord, distinct, items⟩ =>
    (transcribes_fromClause hr).andThen fun ⟨fromWord, roots⟩ => .iteOf (fun _ => .reject _)
      fun hsome => ?_
  refine (transcribes_condition? hr _).andThen fun filter => ?_
  have hgroups : Transcribes Anything [] (listBehind "GROUP" "BY" r.expressions) groupRenderings :=
    transcribes_listBehind _ _ (transcribes_row (hr.expression _)) (commaList_ne_nil _) rfl
      fun words es hes => by
        rw [groupRenderings, if_neg (by simpa using hes), exprRenderings_eq]
        exact .refl _
  refine hgroups.andThen fun ⟨groupWords, groups⟩ => (transcribes_condition? hr _).andThen
    fun groupFilter => ?_
  have horders : Transcribes Anything [] (listBehind "ORDER" "BY" (commaList (orderItem r)))
      orderedRenderings :=
    transcribes_listBehind _ _ (transcribes_row (transcribes_orderItem hr)) (commaList_ne_nil _) rfl
      fun words os hos => by
        rw [orderedRenderings, if_neg (by simpa using hos), orderRenderings_eq]
        exact becomes_spaced _ _
  refine horders.andThen fun ⟨orderWords, orders⟩ => .look looks_dialect fun _ => ?_
  -- a query selects something or names a root, so its row of clauses is not empty
  have hspec (paging : List Fragment) : Becomes
      (selectRenderings (selectWord, distinct, items) ++ fromRenderings (fromWord, roots) ++
        conditionRenderings filter ++ groupRenderings (groupWords, groups) ++
        conditionRenderings groupFilter ++ orderedRenderings (orderWords, orders) ++
        fragmentRenderings paging)
      [(QuerySpec.mk selectWord distinct items fromWord roots filter groupWords groups groupFilter
        orderWords orders paging).rendering] := by
    have hne : selectRenderings (selectWord, distinct, items) ++ fromRenderings (fromWord, roots) ++
        conditionRenderings filter ++ groupRenderings (groupWords, groups) ++
        conditionRenderings groupFilter ++ orderedRenderings (orderWords, orders) ++
        fragmentRenderings paging ≠ [] := by
      rcases items with _ | ⟨i, items⟩
      · rcases roots with _ | ⟨root, roots⟩
        · exact absurd rfl hsome
        · simp [fromRenderings]
      · simp [selectRenderings]
    rw [QuerySpec.rendering]
    obtain ⟨first, rest, hrow⟩ := List.exists_cons_of_ne_nil hne
    have hspaced := becomes_spaced first rest
    rw [← hrow] at hspaced
    exact hspaced
  refine .ite ?_ (.pureBind (.pure ?_))
  · exact (Transcribes.bounded fun n => transcribes_pagingClauses hr n).andThen fun paging =>
      .pure (hspec paging)
  · refine Becomes.trans ?_ (hspec [])
    simpa [fragmentRenderings] using Becomes.refl _

theorem transcribes_queryTerm : Transcribes K [] (queryTerm r) fun t => [t.rendering] := by
  refine .eatPunctuator ?_ ?_
  · refine hr.select.andThen fun q => (transcribes_expectPunctuator ")").andThen fun _ => .pure ?_
    rw [QueryTerm.rendering]
    exact becomes_parenthesized _
  · refine (transcribes_querySpec hr).map _ fun q => ?_
    rw [QueryTerm.rendering]
    exact .refl _

theorem transcribes_setOperation :
    Transcribes Present [] (setOperation r) fun o => operationRenderings [o] := by
  refine .advance (fun _ => id) fun w => (transcribes_eatAnyKeyword _).andThen fun quantifier =>
    (transcribes_queryTerm hr).andThen fun term => .pure ?_
  have hwords := becomes_words (List.cons_ne_nil w quantifier.toList)
  have hjoined := hwords.append (.refl [term.rendering])
  rw [operationRenderings, operationRenderings]
  simpa [optionalWord_toList] using hjoined

theorem transcribes_cte : Transcribes K [] (cte r) fun c => [c.rendering] :=
  transcribes_expectName.andThen fun name => (transcribes_expectKeyword "AS").andThen fun asWord =>
    (transcribes_parenthesizedQuery hr).andThen fun q =>
      .pure (((becomes_text name).append (.refl [word asWord,
        Rendering.parenthesized q.rendering])).trans (becomes_spaced _ _))

/-- What the queries in front of a statement write, if there are any. -/
def withRenderings : String × List Cte → List Rendering
  | (withWords, ctes) => if ctes.isEmpty then [] else
    [word withWords, commaSeparated (cteRenderings ctes)]

theorem transcribes_withClause : Transcribes K [] (withClause r) withRenderings := by
  refine .test (looks_atKeyword "WITH") (fun _ => present_of_isKeyword) ?_ (.pure (.refl _))
  refine .advance (fun _ => id) fun withWord => (transcribes_eatWord _).andThen fun recursive =>
    (transcribes_row (transcribes_cte hr)).andThenOf (commaList_ne_nil _) fun ctes hne => .pure ?_
  rw [withRenderings, if_neg (by simpa using hne), cteRenderings_eq, optionalWord_toList]
  have hwords := becomes_words (List.cons_ne_nil withWord recursive.toList)
  exact hwords.append (.refl [commaSeparated (ctes.map Cte.rendering)])

theorem transcribes_selectStatement :
    Transcribes K [] (selectStatement r) fun q => [q.rendering] := by
  refine (transcribes_withClause hr).andThen fun ⟨withWords, ctes⟩ =>
    (transcribes_queryTerm hr).andThen fun first => ?_
  have hoperations : Transcribes Anything []
      (manyWhile (atAnyKeyword ["UNION", "INTERSECT", "EXCEPT"]) (setOperation r))
      operationRenderings := by
    refine (transcribes_manyWhile (looks_atAnyKeyword _) (fun _ _ => present_of (g := fun l =>
      ["UNION", "INTERSECT", "EXCEPT"].any l.isKeyword) rfl)
        (transcribes_setOperation hr)).becoming fun os => ?_
    induction os with
    | nil => exact .refl _
    | cons o os ih =>
      obtain ⟨words, term⟩ := o
      rw [List.flatMap_cons, operationRenderings, operationRenderings, operationRenderings]
      exact (Becomes.refl [word words, term.rendering]).append ih
  refine hoperations.andThen fun operations => .pure ?_
  rw [SelectStatement.rendering]
  rcases ctes with _ | ⟨c, ctes⟩
  · exact becomes_spaced _ _
  · exact becomes_spaced _ _

/-! ### Modifying statements -/

theorem transcribes_assignment : Transcribes K [] (assignment r)
    fun a => [spaced [a.1.rendering, word "=", a.2.rendering]] := by
  refine (hr.expression _).anywhere.andThen fun target => .current fun kind literal place =>
    .iteOf (fun hequals => ?_) fun _ => .reject _
  obtain rfl : literal = "=" := eq_of_beq (Bool.and_eq_true_iff.1 hequals).2
  have hkind : kind = .operator := eq_of_beq (Bool.and_eq_true_iff.1 hequals).1
  refine .advanceOf (fun h => ?_) ((hr.expression _).andThen fun value => .pure (becomes_spaced _ _))
  rw [hkind] at h
  cases h

theorem transcribes_updateStatement :
    Transcribes Present [] (updateStatement r) fun u => [u.rendering] := by
  refine .advance (fun _ => id) fun keyword => transcribes_qualifiedName.andThen fun entity =>
    transcribes_aliasClause?.andThen fun a => (transcribes_expectKeyword "SET").andThen fun setWord =>
      (transcribes_row (transcribes_assignment hr)).andThen fun assignments =>
        (transcribes_condition? hr _).andThen fun filter => .pure ?_
  have hrow := becomes_spaced (word keyword) (text entity :: Alias.renderings a ++
    [word setWord, commaSeparated (assignments.map fun a =>
      spaced [a.1.rendering, word "=", a.2.rendering])] ++ conditionRenderings filter)
  simpa [UpdateStatement.rendering] using hrow

theorem transcribes_deleteStatement :
    Transcribes Present [] (deleteStatement r) fun d => [d.rendering] := by
  refine .advance (fun _ => id) fun w => (transcribes_eatKeyword "FROM").andThen fun fromWord =>
    transcribes_qualifiedName.andThen fun entity => transcribes_aliasClause?.andThen fun a =>
      (transcribes_condition? hr _).andThen fun filter => .pure ?_
  have hwords := becomes_words (List.cons_ne_nil w fromWord.toList)
  have hrow := (hwords.append (.refl (text entity :: Alias.renderings a ++
    conditionRenderings filter))).trans (becomes_spaced _ _)
  simpa [DeleteStatement.rendering, optionalWord_toList] using hrow

theorem transcribes_statement : Transcribes K [] (statement r) fun st => [st.rendering] := by
  have hend (st : Statement) : Transcribes Anything ([] ++ [st.rendering])
      (do if ← atEnd then return st else mismatched "<EOF>") fun st => [st.rendering] :=
    .look looks_atEnd fun _ => .ite (.pure (.refl _)) (.reject _)
  refine .of_present ?_ fun he v h => ?_
  · refine .look (looks_atKeyword "UPDATE") fun _ => .look (looks_atKeyword "DELETE") fun _ =>
      .look (looks_atAnyKeyword _) fun _ => .look (looks_atPunctuator "(") fun _ =>
        .look (looks_atKeyword "FROM") fun _ => .look looks_dialect fun _ => ?_
    refine .ite (.andThen ((transcribes_updateStatement hr).map _ fun _ => .refl _) hend) ?_
    refine .ite (.andThen ((transcribes_deleteStatement hr).map _ fun _ => .refl _) hend) ?_
    exact .ite (.andThen ((transcribes_selectStatement hr).map _ fun _ => .refl _) hend)
      (.rejectBind _)
  · simp only [statement, bind_eq, looks_atKeyword _ he, looks_atAnyKeyword _ he,
      looks_atPunctuator _ he, looks_dialect he] at h
    cases h

end Clauses

/-! ### The grammar -/

theorem transcribing_rules (n : Nat) : TranscribingRules (rules n) := by
  induction n with
  | zero => exact ⟨fun _ => .reject _, .reject _, fun _ _ _ _ => nofun⟩
  | succ n ih =>
    refine ⟨transcribes_expression ih, transcribes_selectStatement ih, fun p s he v h => ?_⟩
    have hcarried := (carried_rules (Nat.le_refl (n + 1))).1.expression p .within
    exact absurd (hcarried.takes he trivial h).length (by simp)

/-- Where no sign meets another, a statement is written as a text that is read as the tokens of the
query that it was parsed from. -/
theorem lexes_statement {ts : List Token} {place : Position} {d : Dialect} {m : Mode}
    {st : Statement} (h : parseTokens (ts ++ [⟨.eof, "", place⟩]) d m = .ok st)
    (hw : ∀ t ∈ ts, t.lexeme.Whole) (hapart : signsApart st.rendering.toTokens = true) :
    Lexer.Lexes st.render.toList (ts.map Token.lexeme) := by
  rw [parseTokens, List.getLast?_concat, Option.getD_some, List.dropLast_concat] at h
  rcases hs : statement (rules _) ⟨d, m, ⟨.eof, "", place⟩⟩ ts with e | ⟨a, rest⟩
  · rw [hs] at h
    cases h
  · rw [hs] at h
    cases h
    obtain rfl := statement_end hs
    have ends : Setting.Ends ⟨d, m, ⟨.eof, "", place⟩⟩ := rfl
    obtain ⟨taken, rfl, htaken⟩ :=
      transcribes_statement (K := Anything) (transcribing_rules _) ends hw trivial hs
    have hconveys := convey_singleton (htaken [] .nil)
    rw [List.append_nil]
    exact (hconveys.writes hapart).lexes

end Jpql.Grammar
