import Jpql.Proofs.Derived.Parsing
import Jpql.Proofs.Grammar.Modes

/-! Readable queries are parsed as the statements that they stand for, clause for clause. -/

namespace Jpql.Derived.SelectQuery

open Grammar
open Lexeme (ahead)

variable {q : SelectQuery} {s : Setting} {rest : List Lexeme}

/-! ### Selections -/

theorem Backtracks.paging (hs : Backtracks s) : s.dialect.allowsPaging = false := by
  rw [hs.dialect]
  rfl

theorem Readable.takes_root (hq : q.Readable) (hs : Backtracks s) {n : Nat}
    (hrest : EndsExpression rest) : Takes s ((rules (n + 1)).expression .lowest)
      (.word q.aliasName :: rest) (.path [q.aliasName]) rest :=
  takes_path hs.ends hq.aliasName.2 [] hrest

theorem Readable.takes_count (hq : q.Readable) (hs : Backtracks s) {n : Nat}
    (hrest : EndsExpression rest) : Takes s ((rules (n + 2)).expression .lowest)
      (.word "COUNT" :: .punctuator "(" :: (q.distinctLexemes ++ .word q.aliasName ::
        .punctuator ")" :: rest))
      (.function "COUNT" [(if q.distinct then some "DISTINCT" else none).toList.map Fragment.word ++
        [Fragment.expr (.path [q.aliasName])]]) rest := by
  have hdistinct : q.distinctLexemes =
      (if q.distinct then some "DISTINCT" else none).toList.map .word := by
    unfold distinctLexemes
    split <;> rfl
  have haccepts : s.dialect.acceptsFunction "COUNT" = true := by
    rw [hs.dialect]
    decide
  rw [hdistinct]
  exact takes_pathCall hs.ends (by decide) haccepts _ (by split <;> simp) hq.aliasName.2 [] hrest

/-- An item without an alias, in front of the entity. -/
theorem takes_selectItem (hs : Backtracks s) {r : Rules} {input : List Lexeme} {e : Expr}
    (h : Takes s (r.expression .lowest) input e (.word "FROM" :: rest)) :
    Takes s (commaList (selectItem r)) input [⟨e, none⟩] (.word "FROM" :: rest) := by
  have hitem : Takes s (selectItem r) input ⟨e, none⟩ (.word "FROM" :: rest) :=
    h.bind ((takes_aliasClause?_none hs.ends hs.paging (by rw [Lexeme.ahead_zero]; decide)
      (by rw [Lexeme.ahead_zero]; decide)).bind (.pure _ _))
  refine hitem.bind (Takes.bind (.bounded ?_) (.pure _ _))
  exact (takes_eatPunctuator_false hs.ends rfl).bind (.ite_false rfl (.pure _ _))

theorem Readable.takes_selectItems (hq : q.Readable) (hs : Backtracks s) {n : Nat}
    {ps : List PathExpression} {p : PathExpression} (hall : ∀ p' ∈ p :: ps, IsName p'.name)
    (rest : List Lexeme) : Takes s (commaList (selectItem (rules (n + 1))))
      (Lexeme.commaed q.itemLexemes p ps ++ .word "FROM" :: rest)
      ((p :: ps).map fun p => ⟨q.expressionSyntax (.path p), some ⟨none, p.name⟩⟩)
      (.word "FROM" :: rest) := by
  have hfrom : EndsAlias (.word "FROM" :: rest) := by
    constructor <;> (rw [Lexeme.ahead_zero]; decide)
  refine takes_commaList hs.ends EndsAlias (fun p' hp' rest hrest => ?_)
    (fun _ => ⟨rfl, rfl⟩) hfrom (Lexeme.isPunctuator_word _ _)
  have hname := (hall p' hp').2
  rw [itemLexemes, List.append_assoc]
  exact (takes_path hs.ends (hq.aliasOf p'.origin).2 _ (endsExpression_name hname rest)).bind
    ((takes_aliasClause? hs.ends hs.paging hname hrest).bind (.pure _ _))

theorem Readable.takes_selectClause (hq : q.Readable) (hs : Backtracks s) (n : Nat)
    (rest : List Lexeme) : Takes s (selectClause (rules (n + 2)))
      (.word "SELECT" :: (q.selectionLexemes ++ .word "FROM" :: rest))
      ("SELECT", q.selectionSyntax.1, q.selectionSyntax.2) (.word "FROM" :: rest) := by
  have hselect : (Lexeme.word "SELECT").isKeyword "SELECT" = true := by decide
  have hfrom : EndsExpression (.word "FROM" :: rest) :=
    endsExpression_word (by decide) (by decide) rest
  have hdistinct {input : List Lexeme} (h : (ahead 0 input).isKeyword "DISTINCT" = false) :
      Takes s (eatKeyword "DISTINCT") (q.distinctLexemes ++ input)
        (if q.distinct then some "DISTINCT" else none) input := by
    unfold distinctLexemes
    split
    · exact takes_eatKeyword hs.ends (by decide) input
    · exact takes_eatKeyword_none hs.ends h
  have hclause {input items : List Lexeme} {distinct : Option String} {list : List SelectItem}
      (hd : Takes s (eatKeyword "DISTINCT") input distinct items)
      (hi : Takes s (commaList (selectItem (rules (n + 2)))) items list (.word "FROM" :: rest)) :
      Takes s (selectClause (rules (n + 2))) (.word "SELECT" :: input) ("SELECT", distinct, list)
        (.word "FROM" :: rest) :=
    (takes_atKeyword hs.ends "SELECT" _).bind (.ite_true hselect ((takes_advance _ _).bind
      (hd.bind (hi.bind (.pure _ _)))))
  have hreadable := hq.selection
  unfold selectionLexemes selectionSyntax
  cases hselection : q.selection with
  | entity =>
    simp only [List.append_assoc]
    exact hclause (hdistinct (Lexeme.isKeyword_word hq.aliasName.2 _))
      (takes_selectItem hs (hq.takes_root hs hfrom))
  | count =>
    have hnone (input : List Lexeme) : Takes s (eatKeyword "DISTINCT") (.word "COUNT" :: input) none
        (.word "COUNT" :: input) :=
      takes_eatKeyword_none hs.ends (by rw [Lexeme.ahead_zero]; decide)
    have hall := hclause (hnone _) (takes_selectItem hs (hq.takes_count hs hfrom))
    simpa using hall
  | paths ps =>
    rw [hselection] at hreadable
    obtain ⟨hne, hall⟩ := hreadable
    obtain ⟨p, ps, rfl⟩ := List.exists_cons_of_ne_nil hne
    simp only [List.append_assoc]
    exact hclause (hdistinct (Lexeme.isKeyword_word (hq.aliasOf p.origin).2 _))
      (hq.takes_selectItems hs (fun p' hp' => (hall p' hp').2) rest)
  | construct className ps =>
    rw [hselection] at hreadable
    exact hreadable.elim

/-! ### Roots and joins -/

/-- The words of a join. -/
theorem exists_modifier (type : JoinType) : ∃ m ∈ ["LEFT", "INNER"],
    Lexeme.phrase type.keyword = [.word m, .word "JOIN"] ∧ type.keyword = m ++ " " ++ "JOIN" := by
  cases type with
  | left => exact ⟨"LEFT", by decide⟩
  | inner => exact ⟨"INNER", by decide⟩

/-- What stands behind a join: another one, a clause or the end. -/
structure EndsJoin (rest : List Lexeme) : Prop where
  aliasName : EndsAlias rest
  condition : ∀ k ∈ ["ON", "WITH"], (ahead 0 rest).isKeyword k = false

theorem Readable.takes_join (hq : q.Readable) (hs : Backtracks s) {n : Nat} {j : Join}
    (hname : IsName j.aliasName) (hrest : EndsJoin rest) :
    Takes s (Grammar.join (rules (n + 1))) (q.joinLexemes j ++ rest) (q.joinSyntax j) rest := by
  obtain ⟨modifier, hmodifier, hphrase, htext⟩ := exists_modifier j.type
  have hjoin := Grammar.takes_join hs.ends hs.paging hmodifier hname.2
    (takes_path (n := n) hs.ends (hq.aliasOf j.source).2 (namesOf j.path)
      (endsExpression_name hname.2 rest))
    (Lexeme.isKeyword_word (hq.aliasOf j.source).2 _) hrest.aliasName hrest.condition
  rw [joinSyntax, htext]
  simpa [joinLexemes, hphrase] using hjoin

theorem startsJoin_joinLexemes (j : Join) (rest : List Lexeme) :
    startsJoin (q.joinLexemes j ++ rest) = true ∧ EndsJoin (q.joinLexemes j ++ rest) := by
  have hall : ∀ m ∈ ["LEFT", "INNER"], ∀ k ∈ ["JOIN", "OUTER", "ON", "WITH"],
      (Lexeme.word m).isKeyword k = false := by decide
  have hstarts {m : String} (hm : m ∈ ["LEFT", "INNER"]) (ls : List Lexeme) :
      startsJoin (.word m :: .word "JOIN" :: ls) = true ∧
        EndsJoin (.word m :: .word "JOIN" :: ls) := by
    have hmodifier : ∀ m ∈ ["LEFT", "INNER"], joinModifiers.any (Lexeme.word m).isWord = true := by
      decide
    have hjoin : (Lexeme.word "JOIN").isKeyword "JOIN" = true := by decide
    refine ⟨?_, ⟨hall m hm "JOIN" (by decide), hall m hm "OUTER" (by decide)⟩, fun k hk => ?_⟩
    · simp [startsJoin, hmodifier m hm, hjoin]
    · exact hall m hm k (List.mem_cons_of_mem _ (List.mem_cons_of_mem _ hk))
  obtain ⟨modifier, hmodifier, hphrase, -⟩ := exists_modifier j.type
  rw [joinLexemes, hphrase]
  exact hstarts hmodifier _

theorem endsPath_word (w : String) (ls : List Lexeme) : EndsPath (.word w :: ls) :=
  Lexeme.isPunctuator_word w "."

theorem Readable.takes_fromRoot (hq : q.Readable) (hs : Backtracks s) {n : Nat}
    (hrest : EndsJoin rest) (hjoin : startsJoin rest = false) :
    Takes s (fromRoot (rules (n + 1)))
      (.word q.entityName :: .word q.aliasName :: (q.joins.flatMap q.joinLexemes ++ rest))
      ⟨.entity q.entityName, some ⟨none, q.aliasName⟩, q.joins.map q.joinSyntax⟩ rest := by
  have hname : Takes s qualifiedName
      (.word q.entityName :: .word q.aliasName :: (q.joins.flatMap q.joinLexemes ++ rest))
      q.entityName (.word q.aliasName :: (q.joins.flatMap q.joinLexemes ++ rest)) :=
    (takes_expectName hs.ends (Lexeme.isAnyWord_word _) _).bind
      ((takes_pathSteps hs.ends [] (endsPath_word _ _)).bind (.pure _ _))
  have hsource : Takes s (rootSource (rules (n + 1)))
      (.word q.entityName :: .word q.aliasName :: (q.joins.flatMap q.joinLexemes ++ rest))
      (.entity q.entityName) (.word q.aliasName :: (q.joins.flatMap q.joinLexemes ++ rest)) := by
    refine (takes_atKeyword hs.ends "IN" _).bind ((takes_nextIsOpenParen hs.ends _).bind ?_)
    refine .ite_false (by simp) ((takes_atPunctuator hs.ends "(" _).bind ((takes_dialect _).bind ?_))
    exact .ite_false (by simp) (hname.bind (.pure _ _))
  have hmany : Takes s (manyWhile atJoin (Grammar.join (rules (n + 1))))
      (q.joins.flatMap q.joinLexemes ++ rest) (q.joins.map q.joinSyntax) rest := by
    refine takes_manyWhile EndsJoin (fun j hj rest => ?_)
      (fun j hj rest hrest => hq.takes_join hs (hq.joins j hj).2.2 hrest)
      (fun j _ rest => (startsJoin_joinLexemes j rest).2) hrest ?_ (fun j _ => ?_)
    · have := takes_atJoin hs.ends (q.joinLexemes j ++ rest)
      rwa [(startsJoin_joinLexemes j rest).1] at this
    · have := takes_atJoin hs.ends rest
      rwa [hjoin] at this
    · simp [joinLexemes]
  have hend : EndsAlias (q.joins.flatMap q.joinLexemes ++ rest) := by
    cases q.joins with
    | nil => exact hrest.aliasName
    | cons j js =>
      rw [List.flatMap_cons, List.append_assoc]
      exact (startsJoin_joinLexemes j _).2.aliasName
  exact hsource.bind ((takes_aliasClause? hs.ends hs.paging hq.aliasName.2 hend).bind
    (hmany.bind (.pure _ _)))

/-! ### Orders -/

theorem Readable.takes_orderItem (hq : q.Readable) (hs : Backtracks s) {item : OrderExpression}
    (hitem : item.expression.Readable) {n : Nat}
    (hn : (q.expressionLexemes item.expression).length ≤ n)
    (hrest : (ahead 0 rest).isKeyword "NULLS" = false) :
    Takes s (orderItem (rules (n + 1))) (q.orderLexemes item ++ rest) (q.orderSyntax item) rest := by
  have hdirection : item.order.direction.keyword ∈ ["asc", "desc"] := by
    cases item.order.direction <;> decide
  have hexpression (ls : List Lexeme) : Takes s ((rules (n + 1)).expression .lowest)
      (q.expressionLexemes item.expression ++ .word item.order.direction.keyword :: ls)
      (q.expressionSyntax item.expression) (.word item.order.direction.keyword :: ls) := by
    have hall : ∀ w ∈ ["asc", "desc"], nextOf (.word w :: ls) = .lowest := by
      have hlowest : ∀ w ∈ ["asc", "desc"], (Lexeme.word w).isKeyword "NOT" = false ∧
          (Lexeme.word w).precedence .eof = .lowest := by decide
      exact fun w hw => (nextOf_word (hlowest w hw).1 ls).trans (hlowest w hw).2
    exact hq.takes_expression hs hitem hn (endsOperand_word _ _)
      (Nat.le_of_eq (congrArg Precedence.rank (hall _ hdirection)))
  rw [orderLexemes, orderSyntax, List.append_assoc]
  cases item.order.nulls with
  | native => exact Grammar.takes_orderItem hs.ends hdirection (hexpression _) hrest
  | first => exact Grammar.takes_orderItem_nulls hs.ends hdirection (by decide) (hexpression _)
  | last => exact Grammar.takes_orderItem_nulls hs.ends hdirection (by decide) (hexpression _)

theorem Readable.takes_orders (hq : q.Readable) (hs : Backtracks s) {n : Nat}
    (hn : q.ordersLexemes.length ≤ n) :
    Takes s (listBehind "ORDER" "BY" (commaList (orderItem (rules (n + 1))))) q.ordersLexemes
      (if q.orders.isEmpty then "" else "ORDER BY", q.orders.map q.orderSyntax) [] := by
  have hall := hq.orders
  unfold ordersLexemes at hn ⊢
  cases horders : q.orders with
  | nil => exact takes_listBehind_none hs.ends rfl
  | cons item items =>
    rw [horders] at hall hn
    have hlength : ∀ o ∈ item :: items, (q.expressionLexemes o.expression).length ≤ n := by
      intro o ho
      refine Nat.le_trans ?_ hn
      rw [List.length_append]
      refine Nat.le_trans ?_ (Nat.le_add_left _ _)
      refine Nat.le_trans ?_ (Lexeme.length_le_commaed ho)
      rw [orderLexemes, List.length_append]
      exact Nat.le_add_right _ _
    have hlist : Takes s (commaList (orderItem (rules (n + 1))))
        (Lexeme.commaed q.orderLexemes item items ++ []) ((item :: items).map q.orderSyntax) [] :=
      takes_commaList hs.ends (fun rest => (ahead 0 rest).isKeyword "NULLS" = false)
        (fun o ho rest hrest => hq.takes_orderItem hs (hall o ho) (hlength o ho) hrest)
        (fun _ => rfl) rfl rfl
    rw [List.append_nil] at hlist
    exact takes_listBehind hs.ends (by decide) (by decide) hlist

/-! ### Statements -/

theorem Readable.takes_filter (hq : q.Readable) (hs : Backtracks s) {n : Nat}
    (hn : q.filterLexemes.length ≤ n) :
    Takes s (condition? (rules (n + 1)) ["WHERE"]) (q.filterLexemes ++ q.ordersLexemes)
      (q.predicate.map fun p => ⟨"WHERE", q.predicateSyntax p⟩) q.ordersLexemes := by
  have horders : EndsExpression q.ordersLexemes ∧
      ∀ k ∈ ["WHERE"], (ahead 0 q.ordersLexemes).isKeyword k = false := by
    unfold ordersLexemes
    cases q.orders with
    | nil => exact ⟨⟨⟨rfl, rfl⟩, rfl⟩, fun _ _ => rfl⟩
    | cons item items =>
      exact ⟨endsExpression_word (by decide) (by decide) _, (by decide : ∀ k ∈ ["WHERE"],
        (Lexeme.word "ORDER").isKeyword k = false)⟩
  unfold filterLexemes at hn ⊢
  cases hp : q.predicate with
  | none => exact takes_condition?_none hs.ends horders.2
  | some p =>
    rw [hp] at hn
    have hlow : Precedence.lowest.rank < p.precedence.rank := by
      cases p <;> exact Nat.succ_pos _
    have hpredicate : Takes s ((rules (n + 1)).expression .lowest)
        (q.predicateLexemes p ++ q.ordersLexemes) (q.predicateSyntax p) q.ordersLexemes :=
      hq.takes_predicate hs (hq.predicate p hp) (Nat.le_of_succ_le hn) hlow horders.1.operand
        (horders.1.stop _) fun k _ => takes_extendWhile_stop hs.ends (horders.1.stop _) k
    exact takes_condition? hs.ends (by decide) hpredicate

/-- Behind its roots a query has a filter, orders or nothing. -/
theorem endsRoots : EndsJoin (q.filterLexemes ++ q.ordersLexemes) ∧
    startsJoin (q.filterLexemes ++ q.ordersLexemes) = false ∧
    (ahead 0 (q.filterLexemes ++ q.ordersLexemes)).isPunctuator "," = false := by
  have hall : ∀ w ∈ ["WHERE", "ORDER"], (∀ k ∈ ["JOIN", "OUTER", "ON", "WITH"],
      (Lexeme.word w).isKeyword k = false) ∧ joinModifiers.any (Lexeme.word w).isWord = false := by
    decide
  have hword {w : String} (hw : w ∈ ["WHERE", "ORDER"]) (ls : List Lexeme) :
      EndsJoin (.word w :: ls) ∧ startsJoin (.word w :: ls) = false ∧
        (ahead 0 (.word w :: ls)).isPunctuator "," = false := by
    obtain ⟨hkeywords, hmodifiers⟩ := hall w hw
    refine ⟨⟨⟨hkeywords "JOIN" (by decide), hkeywords "OUTER" (by decide)⟩, fun k hk => ?_⟩, ?_,
      Lexeme.isPunctuator_word w ","⟩
    · exact hkeywords k (List.mem_cons_of_mem _ (List.mem_cons_of_mem _ hk))
    · simp [startsJoin, hkeywords "JOIN" (by decide), hmodifiers]
  unfold filterLexemes ordersLexemes
  cases q.predicate with
  | some p => exact hword (by decide) _
  | none =>
    cases q.orders with
    | nil => exact ⟨⟨⟨rfl, rfl⟩, fun _ _ => rfl⟩, rfl, rfl⟩
    | cons item items => exact hword (by decide) _

theorem Readable.takes_fromClause (hq : q.Readable) (hs : Backtracks s) (n : Nat) :
    Takes s (fromClause (rules (n + 1)))
      (.word "FROM" :: .word q.entityName :: .word q.aliasName ::
        (q.joins.flatMap q.joinLexemes ++ (q.filterLexemes ++ q.ordersLexemes)))
      ("FROM", [⟨.entity q.entityName, some ⟨none, q.aliasName⟩, q.joins.map q.joinSyntax⟩])
      (q.filterLexemes ++ q.ordersLexemes) := by
  have hfrom : (Lexeme.word "FROM").isKeyword "FROM" = true := by decide
  obtain ⟨hends, hjoin, hcomma⟩ := q.endsRoots
  refine (takes_atKeyword hs.ends "FROM" _).bind (.ite_true hfrom ((takes_advance _ _).bind ?_))
  have hroot := hq.takes_fromRoot (n := n) hs hends hjoin
  refine Takes.bind (hroot.bind (Takes.bind (.bounded ?_) (.pure _ _))) (.pure _ _)
  exact takes_commaTail_nil hs.ends hcomma _

theorem Readable.takes_querySpec (hq : q.Readable) (hs : Backtracks s) {n : Nat}
    (hn : q.lexemes.length ≤ n) :
    Takes s (querySpec (rules (n + 2))) q.lexemes q.specSyntax [] := by
  have hlength : q.filterLexemes.length + q.ordersLexemes.length ≤ n := by
    refine Nat.le_trans ?_ hn
    simp only [lexemes, List.length_cons, List.length_append]
    omega
  have hend : ∀ k ∈ ["GROUP", "HAVING"], (ahead 0 q.ordersLexemes).isKeyword k = false := by
    unfold ordersLexemes
    cases q.orders with
    | nil => exact fun _ _ => rfl
    | cons item items =>
      exact (by decide : ∀ k ∈ ["GROUP", "HAVING"], (Lexeme.word "ORDER").isKeyword k = false)
  refine (hq.takes_selectClause hs n _).bind ((hq.takes_fromClause hs (n + 1)).bind ?_)
  refine .ite_false (by simp) ?_
  refine (hq.takes_filter (n := n + 1) hs (by omega)).bind ?_
  refine (takes_listBehind_none hs.ends (hend "GROUP" (by decide))).bind ?_
  refine (takes_condition?_none hs.ends fun k hk => hend k (by simp_all)).bind ?_
  refine (hq.takes_orders (n := n + 1) hs (by omega)).bind ?_
  exact (takes_dialect _).bind (.ite_false hs.paging ((Takes.pure _ _).bind (.pure _ _)))

theorem Readable.takes_statement (hq : q.Readable) (hs : Backtracks s) {n : Nat}
    (hn : q.lexemes.length ≤ n) :
    Takes s (Grammar.statement (rules (n + 2))) q.lexemes q.statement [] := by
  have hselect : (Lexeme.word "SELECT").isKeyword "SELECT" = true := by decide
  have hother : ∀ k ∈ ["UPDATE", "DELETE", "WITH"], (Lexeme.word "SELECT").isKeyword k = false := by
    decide
  have hterm : Takes s (queryTerm (rules (n + 2))) q.lexemes (.spec q.specSyntax) [] :=
    (takes_eatPunctuator_false hs.ends
      (show (ahead 0 q.lexemes).isPunctuator "(" = false from Lexeme.isPunctuator_word _ _)).bind
      (.ite_false rfl ((hq.takes_querySpec hs hn).bind (.pure _ _)))
  have hstatement : Takes s (selectStatement (rules (n + 2))) q.lexemes
      ⟨"", [], .spec q.specSyntax, []⟩ [] := by
    refine Takes.bind ((takes_atKeyword hs.ends "WITH" _).bind
      (.ite_false (hother "WITH" (by decide)) (.pure _ _))) (hterm.bind ?_)
    refine Takes.bind (.bounded (takes_itemsWhile_nil ?_ _)) (.pure _ _)
    exact takes_atAnyKeyword hs.ends _ []
  have hatEnd : Takes s (do
      if ← atEnd then return q.statement else mismatched "<EOF>") [] q.statement [] :=
    (takes_atEnd []).bind (.ite_true rfl (.pure _ _))
  refine (takes_atKeyword hs.ends "UPDATE" _).bind ((takes_atKeyword hs.ends "DELETE" _).bind ?_)
  refine (takes_atAnyKeyword hs.ends _ _).bind ((takes_atPunctuator hs.ends "(" _).bind ?_)
  refine (takes_atKeyword hs.ends "FROM" _).bind ((takes_dialect _).bind ?_)
  refine .ite_false (hother "UPDATE" (by decide)) (.ite_false (hother "DELETE" (by decide)) ?_)
  refine .ite_true ?_ ((hstatement.map Statement.select).bind hatEnd)
  have hany : ["SELECT", "WITH"].any (ahead 0 q.lexemes).isKeyword = true := by
    simp [lexemes, hselect]
  simp [hany]

/-! ### Texts -/

/-- The text of a readable query is parsed as the statement that the query stands for. -/
theorem Readable.parse (hq : q.Readable) : Jpql.parse q.render .jpql = .ok q.statement := by
  obtain ⟨ts, place, htokens, hlexemes⟩ := hq.writes.lexes.tokenize
  have hlast : (tokenize q.render).getLast? = some ⟨.eof, "", place⟩ := by
    rw [render, htokens, List.getLast?_concat]
  have hdrop : (tokenize q.render).dropLast = ts := by rw [render, htokens, List.dropLast_concat]
  have hlength : (tokenize q.render).length = q.lexemes.length + 1 := by
    rw [render, htokens, ← hlexemes]
    simp
  have hs : Backtracks ⟨.jpql, .backtracking, ⟨.eof, "", place⟩⟩ := ⟨rfl, rfl, rfl⟩
  obtain ⟨rest, -, hrun⟩ := hq.takes_statement hs (Nat.le_refl _) ts hlexemes
  have hparse : parseTokens (tokenize q.render) .jpql .backtracking = .ok q.statement := by
    unfold parseTokens
    rw [hlast, hdrop, hlength]
    exact congrArg (Except.map (·.1)) hrun
  rw [parse_eq_backtracking, hparse]
  rfl

end Jpql.Derived.SelectQuery
