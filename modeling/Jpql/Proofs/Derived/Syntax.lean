import Jpql.Derived.SelectQuery
import Jpql.Grammar
import Jpql.Proofs.Rendering.Lexemes

/-! Select queries as syntax. A query under construction stands for a statement of the query language,
node for node, and for a row of lexemes. If its names are words of the language, its text is read as
these lexemes. -/

namespace Jpql.Derived

open Rendering (Writes)
open Lexer (Spelled)

/-! ### Names -/

/-- The words of a path; none stand for the origin itself. -/
def namesOf (path : String) : List String :=
  if path.isEmpty then [] else (path.toList.splitOn '.').map String.ofList

/-- A word that can be an alias. -/
def IsName (w : String) : Prop := Lexer.isWord w = true ∧ isReserved w = false

/-- Words with points between them. -/
def IsPath (path : String) : Prop :=
  ∃ names : List String, (∀ n ∈ names, Lexer.isWord n = true) ∧ path = ".".intercalate names

theorem namesOf_intercalate {names : List String} (h : ∀ n ∈ names, Lexer.isWord n = true) :
    namesOf (".".intercalate names) = names := by
  unfold namesOf
  split
  next hempty =>
    rcases names with _ | ⟨n, _ | ⟨m, names⟩⟩
    · rfl
    · obtain ⟨c, cs, hn, -⟩ := Lexer.exists_of_isWord (h n (by simp))
      simp_all
    · simp [String.intercalate_cons_cons, String.append_eq_empty_iff] at hempty
  next hne =>
    have hpoint : ∀ w ∈ names.map String.toList, '.' ∉ w := by
      intro w hw hmem
      obtain ⟨n, hn, rfl⟩ := List.mem_map.1 hw
      obtain ⟨c, cs, hcs, hc, hall⟩ := Lexer.exists_of_isWord (h n hn)
      rw [hcs] at hmem
      rcases List.mem_cons.1 hmem with rfl | hmem
      · exact absurd hc (by decide)
      · exact absurd (hall _ hmem) (by decide)
    have hnames : names.map String.toList ≠ [] := by
      rintro hnil
      obtain rfl := List.map_eq_nil_iff.1 hnil
      exact hne rfl
    have hsplit := List.splitOn_intercalate '.' hpoint hnames
    rw [String.toList_intercalate]
    change (List.splitOn '.' (['.'].intercalate _)).map _ = _
    rw [hsplit]
    simp

namespace SelectQuery

/-! ### Syntax -/

variable (q : SelectQuery)

def expressionSyntax : Expression → Expr
  | .path p => .path (q.aliasOf p.origin :: namesOf p.path)
  | .parameter n => .parameter ("?" ++ toString n)
  | .literal t => .literal t
  | .function name argument => .function name [[.expr (expressionSyntax argument)]]

def notWord (negative : Bool) : Option String := if negative then some "NOT" else none

/-- A word, negated or not. -/
def negated (negative : Bool) (w : String) : String :=
  " ".intercalate ((notWord negative).toList ++ [w])

def predicateSyntax : Predicate → Expr
  | .compare left operator right =>
    .binary (q.expressionSyntax left) operator (q.expressionSyntax right)
  | .like left negative right escape =>
    .likeEscaped (q.expressionSyntax left) (negated negative "LIKE") (q.expressionSyntax right)
      "ESCAPE" (.literal (String.ofList ['\'', escape, '\'']))
  | .between tested lower upper =>
    .between (q.expressionSyntax tested) "BETWEEN" (q.expressionSyntax lower) "AND"
      (q.expressionSyntax upper)
  | .inList tested negative values =>
    .inValues (q.expressionSyntax tested) (negated negative "IN") [q.expressionSyntax values]
  | .memberOf value negative collection =>
    .member (q.expressionSyntax value) (negated negative "MEMBER OF")
      (q.expressionSyntax collection)
  | .is tested test => .is (q.expressionSyntax tested) ("IS " ++ test) none
  | .and left right => .binary (predicateSyntax left) "AND" (predicateSyntax right)
  | .or left right => .binary (predicateSyntax left) "OR" (predicateSyntax right)
  | .nested inner => .nested (predicateSyntax inner)

/-- What is selected, and the word `DISTINCT` in front of it. -/
def selectionSyntax : Option String × List SelectItem :=
  let distinct := if q.distinct then some "DISTINCT" else none
  let root := Expr.path [q.aliasName]
  match q.selection with
  | .entity => (distinct, [⟨root, none⟩])
  | .count => (none, [⟨.function "COUNT" [distinct.toList.map .word ++ [.expr root]], none⟩])
  | .paths paths =>
    (distinct, paths.map fun p => ⟨q.expressionSyntax (.path p), some ⟨none, p.name⟩⟩)
  | .construct className paths =>
    (distinct,
      [⟨.construct "new" className (paths.map fun p => q.expressionSyntax (.path p)), none⟩])

def joinSyntax (j : Join) : Jpql.Join :=
  ⟨j.type.keyword, .path (q.aliasOf j.source :: namesOf j.path), some ⟨none, j.aliasName⟩, none⟩

def nullsWords : NullHandling → Option String
  | .native => none
  | .first => some "NULLS FIRST"
  | .last => some "NULLS LAST"

def orderSyntax (item : OrderExpression) : OrderItem :=
  ⟨q.expressionSyntax item.expression, some item.order.direction.keyword,
    nullsWords item.order.nulls⟩

def specSyntax : QuerySpec where
  selectWord := "SELECT"
  distinct := q.selectionSyntax.1
  items := q.selectionSyntax.2
  fromWord := "FROM"
  roots := [⟨.entity q.entityName, some ⟨none, q.aliasName⟩, q.joins.map q.joinSyntax⟩]
  filter := q.predicate.map fun p => ⟨"WHERE", q.predicateSyntax p⟩
  groupWords := ""
  groups := []
  groupFilter := none
  orderWords := if q.orders.isEmpty then "" else "ORDER BY"
  orders := q.orders.map q.orderSyntax
  paging := []

/-- The statement that a query stands for. -/
def statement : Statement := .select ⟨"", [], .spec q.specSyntax, []⟩

/-! ### Lexemes -/

def expressionLexemes : Expression → List Lexeme
  | .path p => Lexeme.dotted (q.aliasOf p.origin) (namesOf p.path)
  | .parameter n => [⟨.parameter, "?" ++ toString n⟩]
  | .literal t => [.word t]
  | .function name argument =>
    .word name :: .punctuator "(" :: expressionLexemes argument ++ [.punctuator ")"]

def predicateLexemes : Predicate → List Lexeme
  | .compare left operator right =>
    q.expressionLexemes left ++ .operator operator :: q.expressionLexemes right
  | .like left negative right escape =>
    q.expressionLexemes left ++ (Lexeme.phrase (negated negative "LIKE") ++ (q.expressionLexemes right ++
      [.word "ESCAPE", ⟨.string, String.ofList ['\'', escape, '\'']⟩]))
  | .between tested lower upper =>
    q.expressionLexemes tested ++ .word "BETWEEN" ::
      (q.expressionLexemes lower ++ .word "AND" :: q.expressionLexemes upper)
  | .inList tested negative values =>
    q.expressionLexemes tested ++ (Lexeme.phrase (negated negative "IN") ++
      (.punctuator "(" :: q.expressionLexemes values ++ [.punctuator ")"]))
  | .memberOf value negative collection =>
    q.expressionLexemes value ++ (Lexeme.phrase (negated negative "MEMBER OF") ++
      q.expressionLexemes collection)
  | .is tested test => q.expressionLexemes tested ++ .word "IS" :: Lexeme.phrase test
  | .and left right => predicateLexemes left ++ .word "AND" :: predicateLexemes right
  | .or left right => predicateLexemes left ++ .word "OR" :: predicateLexemes right
  | .nested inner => .punctuator "(" :: predicateLexemes inner ++ [.punctuator ")"]

def distinctLexemes : List Lexeme := if q.distinct then [.word "DISTINCT"] else []

def itemLexemes (p : PathExpression) : List Lexeme :=
  q.expressionLexemes (.path p) ++ [Lexeme.word p.name]

def selectionLexemes : List Lexeme :=
  match q.selection with
  | .entity => q.distinctLexemes ++ [Lexeme.word q.aliasName]
  | .count =>
    .word "COUNT" :: .punctuator "(" :: (q.distinctLexemes ++ [Lexeme.word q.aliasName]) ++
      [.punctuator ")"]
  | .paths [] | .construct _ _ => []
  | .paths (p :: ps) => q.distinctLexemes ++ Lexeme.commaed q.itemLexemes p ps

def joinLexemes (j : Join) : List Lexeme :=
  Lexeme.phrase j.type.keyword ++
    (Lexeme.dotted (q.aliasOf j.source) (namesOf j.path) ++ [Lexeme.word j.aliasName])

def orderLexemes (item : OrderExpression) : List Lexeme :=
  q.expressionLexemes item.expression ++ .word item.order.direction.keyword ::
    (nullsWords item.order.nulls).toList.flatMap Lexeme.phrase

def filterLexemes : List Lexeme :=
  match q.predicate with
  | some p => .word "WHERE" :: q.predicateLexemes p
  | none => []

def ordersLexemes : List Lexeme :=
  match q.orders with
  | [] => []
  | item :: items => Lexeme.phrase "ORDER BY" ++ Lexeme.commaed q.orderLexemes item items

def lexemes : List Lexeme :=
  .word "SELECT" :: (q.selectionLexemes ++ .word "FROM" :: .word q.entityName ::
    .word q.aliasName :: (q.joins.flatMap q.joinLexemes ++ (q.filterLexemes ++ q.ordersLexemes)))

end SelectQuery

/-! ### Readable queries -/

def Expression.Readable : Expression → Prop
  | .path p => IsPath p.path
  | .parameter _ => True
  | .literal t => t ∈ ["TRUE", "FALSE"]
  | .function name argument => name ∈ ["UPPER", "LOWER"] ∧ argument.Readable

/-- How close a predicate binds. -/
def Predicate.precedence : Predicate → Grammar.Precedence
  | .and .. => .and
  | .or .. => .or
  | _ => .comparison

/-- The names of a predicate are words, and its operators bind as it nests. -/
def Predicate.Readable : Predicate → Prop
  | .compare left operator right =>
    left.Readable ∧ operator ∈ Lexer.comparisonOperators ∧ right.Readable
  | .like left _ right escape => left.Readable ∧ right.Readable ∧ escape ≠ '\''
  | .between tested lower upper => tested.Readable ∧ lower.Readable ∧ upper.Readable
  | .inList tested _ values => tested.Readable ∧ values.Readable
  | .memberOf value _ collection => value.Readable ∧ collection.Readable
  | .is tested test => tested.Readable ∧ test ∈ ["NULL", "NOT NULL", "EMPTY", "NOT EMPTY"]
  | .and left right => left.Readable ∧ right.Readable ∧
    Grammar.Precedence.and.rank ≤ left.precedence.rank ∧
    Grammar.Precedence.and.rank < right.precedence.rank
  | .or left right => left.Readable ∧ right.Readable ∧
    Grammar.Precedence.or.rank ≤ left.precedence.rank ∧
    Grammar.Precedence.or.rank < right.precedence.rank
  | .nested inner => inner.Readable

def Selection.Readable : Selection → Prop
  | .entity | .count => True
  | .paths ps => ps ≠ [] ∧ ∀ p ∈ ps, IsPath p.path ∧ IsName p.name
  | .construct .. => False

structure SelectQuery.Readable (q : SelectQuery) : Prop where
  entityName : Lexer.isWord q.entityName = true
  aliasName : IsName q.aliasName
  selection : q.selection.Readable
  joins : ∀ j ∈ q.joins, j.path ≠ "" ∧ IsPath j.path ∧ IsName j.aliasName
  predicate : ∀ p, q.predicate = some p → p.Readable
  orders : ∀ o ∈ q.orders, o.expression.Readable

/-! ### Texts of readable queries -/

/-- A path behind a name, as it is written. -/
theorem append_path (first : String) {names : List String}
    (hnames : ∀ n ∈ names, Lexer.isWord n = true) :
    (if (".".intercalate names).isEmpty then first else first ++ "." ++ ".".intercalate names) =
      ".".intercalate (first :: names) := by
  rcases names with _ | ⟨n, names⟩
  · rfl
  · obtain ⟨hn, htail⟩ := List.forall_mem_cons.1 hnames
    rw [if_neg (by simpa using (Rendering.unspaced_dotted (.word hn) fun n hn => .word (htail n hn)).1),
      String.intercalate_cons_cons]

namespace SelectQuery

open Rendering (writes_name writes_keyword writes_phrase writes_dotted writes_operator
  writes_parameter writes_quoted writes_spaced writes_commaSeparated writes_call writes_parens)

variable {q : SelectQuery}

theorem Readable.aliasOf (hq : q.Readable) (o : Origin) : IsName (q.aliasOf o) := by
  cases o with
  | root => exact hq.aliasName
  | join i =>
    change IsName ((q.joins[i]?.map Join.aliasName).getD q.aliasName)
    cases hj : q.joins[i]? with
    | none => exact hq.aliasName
    | some j => exact (hq.joins j (List.mem_of_getElem? hj)).2.2

theorem Readable.writes_expression (hq : q.Readable) {e : Expression} (he : e.Readable) :
    (q.expressionRendering e).Writes (q.expressionLexemes e) := by
  induction e with
  | path p =>
    obtain ⟨names, hnames, hp⟩ := he
    rw [expressionRendering, expressionLexemes, pathText, hp, append_path _ hnames,
      namesOf_intercalate hnames]
    exact writes_dotted (.word (hq.aliasOf p.origin).1) fun n hn => .word (hnames n hn)
  | parameter n => exact writes_parameter n
  | literal t =>
    have hword : ∀ t ∈ ["TRUE", "FALSE"], Lexer.isWord t = true := by decide
    exact writes_name (hword t he)
  | function name argument ih =>
    have hword : ∀ t ∈ ["UPPER", "LOWER"], Lexer.isWord t = true := by decide
    exact writes_call (hword name he.1) (ih he.2)

theorem writes_negatable (negative : Bool) (w : String) (h : w ∈ ["LIKE", "IN", "MEMBER OF"]) :
    (negatable negative w).Writes (Lexeme.phrase (negated negative w)) := by
  have hall : ∀ w ∈ ["LIKE", "IN", "MEMBER OF"], ∀ negative,
      (if negative then "NOT " ++ w else w) = negated negative w ∧
      (∀ v ∈ (negated negative w).toList.splitOn ' ', Lexer.isWord (String.ofList v) = true) ∧
        Rendering.endsWithSpace (negated negative w) = false := by decide
  obtain ⟨htext, hwords, hend⟩ := hall w h negative
  rw [negatable, htext]
  exact writes_phrase hwords hend

theorem writes_test {test : String} (h : test ∈ ["NULL", "NOT NULL", "EMPTY", "NOT EMPTY"]) :
    (Rendering.word test).Writes (Lexeme.phrase test) := by
  have hall : ∀ t ∈ ["NULL", "NOT NULL", "EMPTY", "NOT EMPTY"],
      (∀ v ∈ t.toList.splitOn ' ', Lexer.isWord (String.ofList v) = true) ∧
        Rendering.endsWithSpace t = false := by decide
  exact writes_phrase (hall test h).1 (hall test h).2

theorem Readable.writes_predicate (hq : q.Readable) {p : Predicate} (hp : p.Readable) :
    (q.predicateRendering p).Writes (q.predicateLexemes p) := by
  have keyword (w : String) (h : Lexer.isWord w = true := by decide) := writes_keyword h
  induction p with
  | compare left operator right =>
    have := writes_spaced (hq.writes_expression hp.1)
      (.cons (writes_operator hp.2.1) (.cons (hq.writes_expression hp.2.2) .nil))
    simpa [predicateRendering, predicateLexemes] using this
  | like left negative right escape =>
    have := writes_spaced (hq.writes_expression hp.1)
      (.cons (writes_negatable negative "LIKE" (by decide)) (.cons (hq.writes_expression hp.2.1)
        (.cons (keyword "ESCAPE") (.cons (writes_quoted hp.2.2) .nil))))
    simpa [predicateRendering, predicateLexemes] using this
  | between tested lower upper =>
    have := writes_spaced (hq.writes_expression hp.1)
      (.cons (keyword "BETWEEN") (.cons (hq.writes_expression hp.2.1)
        (.cons (keyword "AND") (.cons (hq.writes_expression hp.2.2) .nil))))
    simpa [predicateRendering, predicateLexemes] using this
  | inList tested negative values =>
    have := writes_spaced (hq.writes_expression hp.1)
      (.cons (writes_negatable negative "IN" (by decide))
        (.cons (writes_parens (hq.writes_expression hp.2)) .nil))
    simpa [predicateRendering, predicateLexemes] using this
  | memberOf value negative collection =>
    have := writes_spaced (hq.writes_expression hp.1)
      (.cons (writes_negatable negative "MEMBER OF" (by decide)) (.cons (hq.writes_expression hp.2) .nil))
    simpa [predicateRendering, predicateLexemes] using this
  | is tested test =>
    have := writes_spaced (hq.writes_expression hp.1)
      (.cons (keyword "IS") (.cons (writes_test hp.2) .nil))
    simpa [predicateRendering, predicateLexemes] using this
  | and left right ihl ihr =>
    have := writes_spaced (ihl hp.1) (.cons (keyword "AND") (.cons (ihr hp.2.1) .nil))
    simpa [predicateRendering, predicateLexemes] using this
  | or left right ihl ihr =>
    have := writes_spaced (ihl hp.1) (.cons (keyword "OR") (.cons (ihr hp.2.1) .nil))
    simpa [predicateRendering, predicateLexemes] using this
  | nested inner ih => exact writes_parens (ih hp)

/-! ### Clauses -/

theorem writes_distinct {r : Rendering} {ls : List Lexeme} (h : r.Writes ls) :
    (q.distinctRendering r).Writes (q.distinctLexemes ++ ls) := by
  unfold distinctRendering distinctLexemes
  split
  · simpa using writes_spaced (writes_keyword (by decide : Lexer.isWord "DISTINCT" = true))
      (.cons h .nil)
  · simpa using h

theorem Readable.writes_selection (hq : q.Readable) :
    q.selectionRendering.Writes q.selectionLexemes := by
  have hroot := writes_name hq.aliasName.1
  have hs := hq.selection
  unfold selectionRendering selectionLexemes
  cases hselection : q.selection with
  | entity => exact writes_distinct hroot
  | count =>
    exact writes_call (by decide : Lexer.isWord "COUNT" = true) (writes_distinct hroot)
  | paths ps =>
    rw [hselection] at hs
    obtain ⟨hne, hall⟩ := hs
    obtain ⟨p, ps, rfl⟩ := List.exists_cons_of_ne_nil hne
    have hitem : ∀ p' ∈ p :: ps,
        (Rendering.spaced [.text (q.pathText p'), .text p'.name]).Writes (q.itemLexemes p') := by
      intro p' hp'
      have hpath : (Rendering.text (q.pathText p')).Writes (q.expressionLexemes (.path p')) :=
        hq.writes_expression (show (Expression.path p').Readable from (hall p' hp').1)
      simpa [itemLexemes] using writes_spaced hpath (.cons (writes_name (hall p' hp').2.1) .nil)
    exact writes_distinct (writes_commaSeparated (hitem p (by simp)) fun p' hp' =>
      hitem p' (by simp [hp']))
  | construct className ps =>
    rw [hselection] at hs
    exact hs.elim

theorem Readable.writes_joins (hq : q.Readable) :
    ∃ lss, List.Forall₂ Writes (q.joins.flatMap q.joinRendering) lss ∧
      lss.flatten = q.joins.flatMap q.joinLexemes := by
  have hall := hq.joins
  generalize q.joins = joins at hall ⊢
  induction joins with
  | nil => exact ⟨[], .nil, rfl⟩
  | cons j js ih =>
    obtain ⟨⟨hne, ⟨names, hnames, hpath⟩, hname⟩, hjs⟩ := List.forall_mem_cons.1 hall
    have htype : (Rendering.word j.type.keyword).Writes (Lexeme.phrase j.type.keyword) := by
      cases j.type <;> exact writes_phrase (by decide) (by decide)
    have htarget : (Rendering.text (q.aliasOf j.source ++ "." ++ j.path)).Writes
        (Lexeme.dotted (q.aliasOf j.source) (namesOf j.path)) := by
      have htext := append_path (q.aliasOf j.source) hnames
      rw [← hpath, if_neg (by simpa using hne)] at htext
      rw [htext, hpath, namesOf_intercalate hnames]
      exact writes_dotted (.word (hq.aliasOf j.source).1) fun n hn => .word (hnames n hn)
    obtain ⟨lss, hwrites, hlss⟩ := ih hjs
    exact ⟨_, .cons htype (.cons htarget (.cons (writes_name hname.1) hwrites)),
      by simp [hlss, joinLexemes]⟩

theorem Readable.writes_order (hq : q.Readable) {item : OrderExpression}
    (hitem : item.expression.Readable) : (q.orderRendering item).Writes (q.orderLexemes item) := by
  have hdirection : (Rendering.word item.order.direction.keyword).Writes
      [.word item.order.direction.keyword] := by
    cases item.order.direction <;> exact writes_keyword (by decide)
  have hnulls (t : String) (h : t ∈ ["NULLS FIRST", "NULLS LAST"]) :
      (Rendering.word t).Writes (Lexeme.phrase t) := by
    have hall : ∀ t ∈ ["NULLS FIRST", "NULLS LAST"],
        (∀ v ∈ t.toList.splitOn ' ', Lexer.isWord (String.ofList v) = true) ∧
          Rendering.endsWithSpace t = false := by decide
    exact writes_phrase (hall t h).1 (hall t h).2
  have hexpression := hq.writes_expression hitem
  unfold orderRendering orderLexemes
  cases item.order.nulls with
  | native => simpa [nullsWords] using writes_spaced hexpression (.cons hdirection .nil)
  | first =>
    simpa [nullsWords] using
      writes_spaced hexpression (.cons hdirection (.cons (hnulls _ (by decide)) .nil))
  | last =>
    simpa [nullsWords] using
      writes_spaced hexpression (.cons hdirection (.cons (hnulls _ (by decide)) .nil))

theorem Readable.writes_filter (hq : q.Readable) :
    ∃ lss, List.Forall₂ Writes (match q.predicate with
      | some p => [Rendering.word "WHERE", q.predicateRendering p]
      | none => []) lss ∧ lss.flatten = q.filterLexemes := by
  unfold filterLexemes
  cases hp : q.predicate with
  | none => exact ⟨[], .nil, rfl⟩
  | some p =>
    have hwhere := writes_keyword (by decide : Lexer.isWord "WHERE" = true)
    exact ⟨_, .cons hwhere (.cons (hq.writes_predicate (hq.predicate p hp)) .nil), by simp⟩

theorem Readable.writes_orders (hq : q.Readable) :
    ∃ lss, List.Forall₂ Writes (if q.orders.isEmpty then []
      else [Rendering.word "ORDER BY", Rendering.commaSeparated (q.orders.map q.orderRendering)])
      lss ∧ lss.flatten = q.ordersLexemes := by
  have hall := hq.orders
  unfold ordersLexemes
  cases horders : q.orders with
  | nil => exact ⟨[], .nil, rfl⟩
  | cons item items =>
    rw [horders] at hall
    obtain ⟨hitem, hitems⟩ := List.forall_mem_cons.1 hall
    have hword : (Rendering.word "ORDER BY").Writes (Lexeme.phrase "ORDER BY") :=
      writes_phrase (by decide) (by decide)
    have hlist := writes_commaSeparated (hq.writes_order hitem)
      fun o ho => hq.writes_order (hitems o ho)
    exact ⟨_, .cons hword (.cons hlist .nil), by simp⟩

/-- The text of a readable query is read as the lexemes of the query. -/
theorem Readable.writes (hq : q.Readable) : q.rendering.Writes q.lexemes := by
  obtain ⟨joins, hjoin, hjoins⟩ := hq.writes_joins
  obtain ⟨filters, hfilter, hfilters⟩ := hq.writes_filter
  obtain ⟨orders, horder, horders⟩ := hq.writes_orders
  have hhead : List.Forall₂ Writes
      [q.selectionRendering, .word "FROM", .text q.entityName, .text q.aliasName]
      [q.selectionLexemes, [.word "FROM"], [.word q.entityName], [.word q.aliasName]] :=
    .cons hq.writes_selection (.cons (writes_keyword (by decide))
      (.cons (writes_name hq.entityName) (.cons (writes_name hq.aliasName.1) .nil)))
  have hlexemes : [Lexeme.word "SELECT"] ++ ([q.selectionLexemes, [.word "FROM"],
      [.word q.entityName], [.word q.aliasName]] ++ joins ++ filters ++ orders).flatten =
        q.lexemes := by
    simp [lexemes, hjoins, hfilters, horders]
  rw [← hlexemes]
  exact writes_spaced (writes_keyword (by decide))
    (List.rel_append (List.rel_append (List.rel_append hhead hjoin) hfilter) horder)

end SelectQuery

end Jpql.Derived
