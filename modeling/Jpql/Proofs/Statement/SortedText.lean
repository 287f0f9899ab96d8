import Jpql.Declared.ParsedText
import Jpql.Proofs.Derived.Syntax
import Jpql.Proofs.Grammar.LastBranch
import Jpql.Proofs.Grammar.Modes
import Jpql.Proofs.Grammar.TranscribingClauses
import Jpql.Proofs.Statement.SafeSort
import Jpql.Proofs.Statement.Surroundings

/-! Sorted texts are parsed again. The text of a statement with orders added to its last branch is
read as the tokens of the original query and, at one place between them, those of the orders; so it is
parsed to the original statement with these orders, as long as every token of the query is read again
as it is and no sign meets another. -/

namespace Jpql

open Grammar
open Rendering
open Lexeme (ahead)

/-! ### Lexemes by themselves -/

/-- Names with points between them. -/
def Lexeme.pathOf : List String → List Lexeme
  | [] => []
  | first :: names => Lexeme.dotted first names

namespace Lexer

theorem whole_of_isWord {w : String} (h : isWord w = true) : (Lexeme.word w).Whole := by
  obtain ⟨c, cs, hw, hc, hcs⟩ := exists_of_isWord h
  have hwhole := whole_word hc hcs
  rwa [← hw, String.ofList_toList] at hwhole

theorem whole_punctuator {c : Char} (hc : isPunctuator c = true) :
    (Lexeme.punctuator (String.ofList [c])).Whole where
  spelled := by simpa [Lexeme.punctuator] using spelled_punctuator hc
  ne_empty := by simp [Lexeme.punctuator, String.ext_iff]
  unspaced := by
    have hspace : isPunctuator ' ' = false := by decide
    have hne : c ≠ ' ' := by
      rintro rfl
      rw [hspace] at hc
      cases hc
    simpa [Lexeme.punctuator] using hne
  named := by simp [Lexeme.punctuator]

theorem whole_pathOf {names : List String} (h : ∀ n ∈ names, (Lexeme.word n).Whole) :
    ∀ l ∈ Lexeme.pathOf names, l.Whole := by
  cases names with
  | nil => exact List.forall_mem_nil _
  | cons first names =>
    obtain ⟨hfirst, hnames⟩ := List.forall_mem_cons.1 h
    refine List.forall_mem_cons.2 ⟨hfirst, fun l hl => ?_⟩
    obtain ⟨n, hn, hl⟩ := List.mem_flatMap.1 hl
    simp only [List.mem_cons, List.not_mem_nil, or_false] at hl
    rcases hl with rfl | rfl
    · exact whole_punctuator (c := '.') (by decide)
    · exact hnames n hn

end Lexer

/-! ### Items -/

namespace Order

/-- The names of the path that an item sorts by. -/
def segments (o : Order) (root? : Option String) (known : List String) : List String :=
  match root? with
  | some a =>
    if needsQualifier o.property a known then a :: Derived.namesOf o.property
    else Derived.namesOf o.property
  | none => Derived.namesOf o.property

/-- What an item sorts by, as the expression that its text is parsed to. -/
def pathExpr (o : Order) (root? : Option String) (known : List String) : Expr :=
  if o.ignoreCase then .function "lower" [[.expr (.path (o.segments root? known))]]
  else .path (o.segments root? known)

/-- The order as the item that its text is parsed to. -/
def pathItem (o : Order) (root? : Option String) (known : List String) : OrderItem :=
  { o.toItem root? known with expr := o.pathExpr root? known }

def pathLexemes (o : Order) (root? : Option String) (known : List String) : List Lexeme :=
  if o.ignoreCase then
    .word "lower" :: .punctuator "(" ::
      (Lexeme.pathOf (o.segments root? known) ++ [Lexeme.punctuator ")"])
  else Lexeme.pathOf (o.segments root? known)

def itemLexemes (o : Order) (root? : Option String) (known : List String) : List Lexeme :=
  o.pathLexemes root? known ++ o.endingLexemes

/-- The order passes the check, its property consists of words with points between them, and the path
that it sorts by does not start with a keyword. -/
structure SortsByPath (o : Order) (root? : Option String) (known : List String) : Prop where
  check : o.check = .ok ()
  property : ∃ names, names ≠ [] ∧ (∀ n ∈ names, Lexer.isWord n = true) ∧
    o.property = ".".intercalate names
  unreserved : ∀ n ∈ (o.segments root? known).head?, isReserved n = false

namespace SortsByPath

variable {o : Order} {root? : Option String} {known : List String}

theorem segments_cases (h : o.SortsByPath root? known) : ∃ n names,
    (∀ m ∈ n :: names, Lexer.isWord m = true) ∧ o.property = ".".intercalate (n :: names) ∧
      (o.segments root? known = n :: names ∧ o.reference root? known = o.property ∨
        ∃ a ∈ root?, o.segments root? known = a :: n :: names ∧
          o.reference root? known = a ++ "." ++ o.property) := by
  obtain ⟨names, hne, hwords, hproperty⟩ := h.property
  obtain ⟨n, names, rfl⟩ := List.exists_cons_of_ne_nil hne
  have hnames : Derived.namesOf o.property = n :: names := by
    rw [hproperty, Derived.namesOf_intercalate hwords]
  refine ⟨n, names, hwords, hproperty, ?_⟩
  unfold segments reference
  cases root? with
  | none => exact .inl ⟨hnames, rfl⟩
  | some a =>
    dsimp only
    split
    · exact .inr ⟨a, rfl, by rw [hnames], rfl⟩
    · exact .inl ⟨hnames, rfl⟩

theorem reference_eq (h : o.SortsByPath root? known) :
    ".".intercalate (o.segments root? known) = o.reference root? known := by
  obtain ⟨n, names, -, hproperty, ⟨hsegments, href⟩ | ⟨a, -, hsegments, href⟩⟩ := h.segments_cases
  · rw [hsegments, href, hproperty]
  · rw [hsegments, href, hproperty, String.intercalate_cons_cons]

theorem exists_segments (h : o.SortsByPath root? known) :
    ∃ first names, o.segments root? known = first :: names ∧ isReserved first = false := by
  have hfirst := h.unreserved
  obtain ⟨n, names, -, -, ⟨hsegments, -⟩ | ⟨a, -, hsegments, -⟩⟩ := h.segments_cases
  · exact ⟨n, names, hsegments, hfirst n (by rw [hsegments]; rfl)⟩
  · exact ⟨a, n :: names, hsegments, hfirst a (by rw [hsegments]; rfl)⟩

theorem whole_segments (h : o.SortsByPath root? known) (hroot : ∀ a ∈ root?, (Lexeme.word a).Whole) :
    ∀ n ∈ o.segments root? known, (Lexeme.word n).Whole := by
  obtain ⟨n, names, hwords, -, ⟨hsegments, -⟩ | ⟨a, ha, hsegments, -⟩⟩ := h.segments_cases
  · rw [hsegments]
    exact fun m hm => Lexer.whole_of_isWord (hwords m hm)
  · rw [hsegments]
    exact List.forall_mem_cons.2 ⟨hroot a ha, fun m hm => Lexer.whole_of_isWord (hwords m hm)⟩

theorem reference_ne_sign (h : o.SortsByPath root? known) : o.reference root? known ≠ "-" := by
  intro hsign
  have hpoint : ∀ s t : String, s ++ "." ++ t ≠ "-" := fun s t hst => by
    have hmem : '.' ∈ (s ++ "." ++ t).toList := by simp
    rw [hst] at hmem
    exact absurd hmem (by decide)
  have hword : Lexer.isWord "-" = false := by decide
  obtain ⟨n, names, hwords, hproperty, ⟨-, href⟩ | ⟨a, -, -, href⟩⟩ := h.segments_cases
  · rw [href, hproperty] at hsign
    cases names with
    | nil =>
      rw [String.intercalate_singleton] at hsign
      have hn := hwords n (List.mem_cons_self ..)
      rw [hsign, hword] at hn
      cases hn
    | cons m names =>
      rw [String.intercalate_cons_cons] at hsign
      exact hpoint _ _ hsign
  · exact hpoint _ _ (href.symm.trans hsign)

/-! What is written of an item. -/

theorem rendering_pathItem (h : o.SortsByPath root? known) :
    (o.pathItem root? known).rendering = (o.toItem root? known).rendering := by
  have hraw : (Expr.path (o.segments root? known)).rendering =
      (Expr.raw (o.reference root? known)).rendering := by
    rw [Expr.rendering, Expr.rendering, h.reference_eq]
  have hexpr : (o.pathExpr root? known).rendering = (o.toItem root? known).expr.rendering := by
    change _ = (if o.ignoreCase then Expr.function "lower" [[.expr (.raw (o.reference root? known))]]
      else .raw (o.reference root? known)).rendering
    unfold pathExpr
    split
    · simp [Expr.rendering, argumentRenderings, fragmentRenderings, h.reference_eq]
    · exact hraw
  rw [OrderItem.rendering, OrderItem.rendering, pathItem, hexpr]

theorem no_sign (h : o.SortsByPath root? known) :
    ∀ t ∈ (o.pathItem root? known).rendering.toTokens, t ≠ .plain "-" := by
  have hreference : QueryToken.plain (o.reference root? known) ≠ .plain "-" := fun heq =>
    h.reference_ne_sign (congrArg QueryToken.value heq)
  have hword (w : String) : QueryToken.expression w ≠ .plain "-" := by
    simp [QueryToken.expression, QueryToken.plain]
  have hwords (w? : Option String) :
      ∀ t ∈ (Rendering.optionalWord w?).flatMap Rendering.toTokens, t ≠ .plain "-" := by
    cases w? with
    | none => exact List.forall_mem_nil _
    | some w => simpa [Rendering.optionalWord] using hword w
  have hexpr : ∀ t ∈ (o.pathExpr root? known).rendering.toTokens, t ≠ .plain "-" := by
    unfold pathExpr
    split
    · have hargument : (spaced [text (o.reference root? known)]).toTokens =
          [.plain (o.reference root? known)] := by
        simp [toTokens_spaced]
      have htokens : (Expr.function "lower" [[.expr (.path (o.segments root? known))]]).rendering.toTokens
          = [.plain "lower", .openParen, .plain (o.reference root? known), .closeParen] := by
        rw [Expr.rendering, argumentRenderings, argumentRenderings, fragmentRenderings,
          fragmentRenderings, Expr.rendering, h.reference_eq, call, toTokens_add,
          toTokens_parenthesized, toTokens_commaSeparated (by rw [hargument]; simp), hargument]
        rfl
      rw [htokens]
      simp only [List.forall_mem_cons]
      exact ⟨by decide, by decide, hreference, by decide, List.forall_mem_nil _⟩
    · simpa [Expr.rendering, h.reference_eq] using hreference
  rw [OrderItem.rendering, toTokens_spaced, List.flatMap_append, List.flatMap_cons]
  exact List.forall_mem_append.2 ⟨List.forall_mem_append.2 ⟨hexpr, hwords _⟩, hwords _⟩

/-! How an item is read. -/

theorem whole_itemLexemes (h : o.SortsByPath root? known)
    (hroot : ∀ a ∈ root?, (Lexeme.word a).Whole) : ∀ l ∈ o.itemLexemes root? known, l.Whole := by
  have hword {w : String} (hw : Lexer.isWord w = true) := Lexer.whole_of_isWord hw
  have hpath := Lexer.whole_pathOf (h.whole_segments hroot)
  have hending : ∀ l ∈ o.endingLexemes, l.Whole := by
    unfold endingLexemes
    refine List.forall_mem_cons.2 ⟨hword (by cases o.direction <;> decide), ?_⟩
    cases o.nulls with
    | native => exact List.forall_mem_nil _
    | first => simpa using ⟨hword (w := "NULLS") (by decide), hword (w := "FIRST") (by decide)⟩
    | last => simpa using ⟨hword (w := "NULLS") (by decide), hword (w := "LAST") (by decide)⟩
  refine List.forall_mem_append.2 ⟨?_, hending⟩
  unfold pathLexemes
  split
  · refine List.forall_mem_cons.2 ⟨hword (by decide), List.forall_mem_cons.2
      ⟨Lexer.whole_punctuator (c := '(') (by decide), List.forall_mem_append.2 ⟨hpath, ?_⟩⟩⟩
    simpa using Lexer.whole_punctuator (c := ')') (by decide)
  · exact hpath

theorem takes_pathItem (h : o.SortsByPath root? known) {s : Setting} (he : s.Ends) {m : Nat}
    (hm : 2 ≤ m) {rest : List Lexeme} (hrest : (ahead 0 rest).Silent s.dialect) :
    Takes s (orderItem (rules m)) (o.itemLexemes root? known ++ rest) (o.pathItem root? known) rest := by
  obtain ⟨m, rfl⟩ : ∃ n, m = n + 2 := ⟨m - 2, by omega⟩
  obtain ⟨first, names, hsegments, hfirst⟩ := h.exists_segments
  have hlower : s.dialect.acceptsFunction "lower" = true := by
    cases s.dialect <;> decide
  have hdirection : o.direction.keyword ∈ ["asc", "desc"] := by
    cases o.direction <;> decide
  have hends (ls : List Lexeme) : EndsExpression (.word o.direction.keyword :: ls) := by
    have hall : ∀ w ∈ ["asc", "desc"], (Lexeme.word w).isKeyword "NOT" = false ∧
        (Lexeme.word w).precedence .eof = .lowest := by decide
    exact endsExpression_word (hall _ hdirection).1 (hall _ hdirection).2 ls
  have hexpr (ls : List Lexeme) : Takes s ((rules (m + 2)).expression .lowest)
      (o.pathLexemes root? known ++ .word o.direction.keyword :: ls) (o.pathExpr root? known)
      (.word o.direction.keyword :: ls) := by
    unfold pathLexemes pathExpr
    rw [hsegments]
    split
    · have hcall : Takes s ((rules (m + 2)).expression .lowest) _ _ _ :=
        takes_pathCall he (by decide) hlower none nofun hfirst names (hends ls)
      simpa [Lexeme.pathOf] using hcall
    · exact takes_path he hfirst names (hends ls)
  unfold itemLexemes endingLexemes pathItem toItem
  rw [List.append_assoc]
  cases o.nulls with
  | native => exact takes_orderItem he hdirection (hexpr _) (hrest.isKeyword (by decide))
  | first => exact takes_orderItem_nulls he hdirection (by decide) (hexpr _)
  | last => exact takes_orderItem_nulls he hdirection (by decide) (hexpr _)

end SortsByPath

end Order

/-! ### Statements -/

/-- The query with a sort added, as it is parsed. -/
def QuerySpec.withPaths (q : QuerySpec) (sort : Sorting) : QuerySpec :=
  q.adding (sort.orders.map (·.pathItem q.primaryAlias? q.knownAliases))

/-- Orders as items, each with its lexemes. -/
def addedOrders (o : Order) (os : List Order) (q : QuerySpec) : AddedOrders :=
  let item (o : Order) := (o.itemLexemes q.primaryAlias? q.knownAliases,
    o.pathItem q.primaryAlias? q.knownAliases)
  ⟨item o, os.map item⟩

theorem items_addedOrders (o : Order) (os : List Order) (q : QuerySpec) :
    (addedOrders o os q).items = (o :: os).map (·.pathItem q.primaryAlias? q.knownAliases) := by
  change _ :: (os.map _).map Prod.snd = _
  rw [List.map_map]
  rfl

namespace Statement

/-- The statement with a sort added to its last branch, as it is parsed. -/
def withPaths (sort : Sorting) : Statement → Statement
  | .select query => .select (query.mapLastSpec (·.withPaths sort))
  | st => st

/-- The alias of the first root of the last branch, and the other aliases there. -/
def sortAliases? : Statement → Option (Option String × List String)
  | .select query => some (query.lastSpec.primaryAlias?, query.lastSpec.knownAliases)
  | _ => none

/-- The statement, if it is a query, can be sorted by the order. -/
def SortsBy (o : Order) (st : Statement) : Prop :=
  ∀ aliases ∈ st.sortAliases?, o.SortsByPath aliases.1 aliases.2

theorem SortsBy.of_aliases {o : Order} {st : Statement} {root? : Option String} {known : List String}
    (hst : st.sortAliases? = some (root?, known)) (h : o.SortsByPath root? known) : st.SortsBy o :=
  fun _ haliases => Option.some.inj (hst.symm.trans haliases) ▸ h

end Statement

variable {sort : Sorting} {text : String} {d : Dialect} {st : Statement}

/-- The closed tokens of a query, and what they are parsed to. -/
theorem exists_tokens (h : parse text d = .ok st)
    (hclosed : ∀ t ∈ tokenize text, t.isClosed = true) :
    ∃ (ts : List Token) (place : Position), (∀ t ∈ ts, t.lexeme.Whole) ∧
        parseTokens (ts ++ [⟨.eof, "", place⟩]) d .backtracking = .ok st := by
  obtain ⟨ts, place, hts⟩ := Lexer.exists_tokensFrom text.length {} text.toList
  have htokens : tokenize text = ts ++ [⟨.eof, "", place⟩] := hts
  have hwhole := whole_of_tokenize htokens fun t ht =>
    hclosed t (htokens ▸ List.mem_append_left _ ht)
  refine ⟨ts, place, hwhole, ?_⟩
  rw [parse_eq_backtracking, htokens] at h
  cases hrun : parseTokens (ts ++ [⟨.eof, "", place⟩]) d .backtracking with
  | error e =>
    rw [hrun] at h
    cases h
  | ok st' =>
    rw [hrun] at h
    cases h
    rfl

/-- Tokens that are read as they are, parsed to a statement without signs that meet: then the statement
is written as a text that is parsed to it. -/
theorem parse_render_of_tokens {ts : List Token} {place : Position}
    (h : parseTokens (ts ++ [⟨.eof, "", place⟩]) d .backtracking = .ok st)
    (hwhole : ∀ t ∈ ts, t.lexeme.Whole) (hapart : signsApart st.rendering.toTokens = true) :
    parse st.render d = .ok st :=
  parse_of_lexes h (lexes_statement h hwhole hapart)

/-! ### Sorted queries -/

namespace QuerySpec

variable {o : Order} {os : List Order} {q : QuerySpec}

theorem whole_insertedLexemes
    (horders : ∀ o' ∈ o :: os, o'.SortsByPath q.primaryAlias? q.knownAliases)
    (hroot : ∀ a ∈ q.primaryAlias?, (Lexeme.word a).Whole) :
    ∀ l ∈ q.insertedLexemes (addedOrders o os), l.Whole := by
  have hcomma : (Lexeme.punctuator ",").Whole := Lexer.whole_punctuator (c := ',') (by decide)
  obtain ⟨ho, hos⟩ := List.forall_mem_cons.1 horders
  refine List.forall_mem_append.2 ⟨?_, List.forall_mem_append.2 ⟨ho.whole_itemLexemes hroot, ?_⟩⟩
  · split
    · simpa using ⟨Lexer.whole_of_isWord (w := "order") (by decide),
        Lexer.whole_of_isWord (w := "by") (by decide)⟩
    · simpa using hcomma
  · intro l hl
    obtain ⟨x, hx, hl⟩ := List.mem_flatMap.1 hl
    obtain ⟨o', ho', rfl⟩ := List.mem_map.1 hx
    rcases List.mem_cons.1 hl with rfl | hl
    · exact hcomma
    · exact (hos o' ho').whole_itemLexemes hroot l hl

theorem two_le_length_insertedLexemes : 2 ≤ (q.insertedLexemes (addedOrders o os)).length := by
  have hitem : 1 ≤ (o.itemLexemes q.primaryAlias? q.knownAliases).length := by
    rw [Order.itemLexemes, Order.endingLexemes, List.length_append, List.length_cons]
    omega
  have hlist : (o.itemLexemes q.primaryAlias? q.knownAliases).length ≤
      ((addedOrders o os) q).lexemes.length := by
    change _ ≤ (o.itemLexemes q.primaryAlias? q.knownAliases ++ _).length
    rw [List.length_append]
    exact Nat.le_add_right _ _
  rw [QuerySpec.insertedLexemes, List.length_append]
  split
  · simp only [List.length_cons]
    omega
  · simp only [List.length_cons]
    omega

end QuerySpec

namespace SelectStatement

variable {query : SelectStatement}

/-- A sort goes into the tokens of a query at one place, and they are parsed to the sorted query. -/
theorem exists_sortedTokens {ts : List Token} {place : Position}
    (h : parseTokens (ts ++ [⟨.eof, "", place⟩]) d .backtracking = .ok (.select query))
    (hwhole : ∀ t ∈ ts, t.lexeme.Whole) (hsort : sort.isSorted = true)
    (horders : ∀ o ∈ sort.orders, (Statement.select query).SortsBy o) :
    ∃ us : List Token, (∀ t ∈ us, t.lexeme.Whole) ∧
      parseTokens (us ++ [⟨.eof, "", place⟩]) d .backtracking =
        .ok ((Statement.select query).withPaths sort) := by
  obtain ⟨o, os, hos⟩ : ∃ o os, sort.orders = o :: os :=
    List.exists_cons_of_ne_nil (by simpa [Sorting.isSorted] using hsort)
  have hpaths : ∀ o' ∈ o :: os,
      o'.SortsByPath query.lastSpec.primaryAlias? query.lastSpec.knownAliases :=
    fun o' ho' => horders o' (hos ▸ ho') _ rfl
  have hregular : Regular ts := fun t ht hword => by
    have hkind : t.kind = .identifier ∨ t.kind = .keyword := by simpa [Token.isAnyWord] using hword
    exact ((hwhole t ht).named hkind).2
  have hfits : Fits ⟨d, .backtracking, ⟨.eof, "", place⟩⟩ (addedOrders o os query.lastSpec) := by
    intro m hm x hx rest hrest
    obtain ⟨o', ho', rfl⟩ : ∃ o' ∈ o :: os,
        (o'.itemLexemes query.lastSpec.primaryAlias? query.lastSpec.knownAliases,
          o'.pathItem query.lastSpec.primaryAlias? query.lastSpec.knownAliases) = x :=
      List.mem_map.1 hx
    have ends : Setting.Ends ⟨d, .backtracking, ⟨.eof, "", place⟩⟩ := rfl
    exact (hpaths o' ho').takes_pathItem ends hm hrest
  obtain ⟨hnamed, front, back, rfl, hgrown⟩ := parseTokens_grown h hregular hfits
    QuerySpec.two_le_length_insertedLexemes
  have hroot : ∀ a ∈ query.lastSpec.primaryAlias?, (Lexeme.word a).Whole := by
    intro a ha
    obtain ⟨t, ht, hword, rfl⟩ := hnamed a ha
    rw [← hregular t ht hword]
    exact hwhole t ht
  let us : List Token := (query.lastSpec.insertedLexemes (addedOrders o os)).map fun l =>
    ⟨l.kind, l.literal, {}⟩
  have hus : us.map Token.lexeme = query.lastSpec.insertedLexemes (addedOrders o os) := by
    rw [List.map_map]
    exact List.map_id _
  obtain ⟨hfront, hback⟩ := List.forall_mem_append.1 hwhole
  have hinserted : ∀ t ∈ us, t.lexeme.Whole := fun t ht =>
    QuerySpec.whole_insertedLexemes hpaths hroot t.lexeme (hus ▸ List.mem_map_of_mem ht)
  refine ⟨front ++ us ++ back, List.forall_mem_append.2
    ⟨List.forall_mem_append.2 ⟨hfront, hinserted⟩, hback⟩, ?_⟩
  rw [hgrown us hus, Statement.withPaths]
  have hgrows : (fun q => q.grown (addedOrders o os)) = (QuerySpec.withPaths · sort) := by
    funext q
    rw [QuerySpec.grown, QuerySpec.withPaths, items_addedOrders, hos]
  rw [hgrows]

theorem signsApart_withPaths (h : signsApart query.rendering.toTokens = true)
    (hsort : sort.isSorted = true)
    (horders : ∀ o ∈ sort.orders, (Statement.select query).SortsBy o) :
    signsApart (query.mapLastSpec (·.withPaths sort)).rendering.toTokens = true := by
  refine signsApart_adding h ?_ fun i hi => ?_
  · simpa [Sorting.isSorted] using hsort
  · obtain ⟨o, ho, rfl⟩ := List.mem_map.1 hi
    exact (horders o ho _ rfl).no_sign

end SelectStatement

theorem Order.forM_check {os : List Order} (h : ∀ o ∈ os, o.check = .ok ()) :
    os.forM Order.check = .ok () := by
  induction os with
  | nil => rfl
  | cons o os ih =>
    obtain ⟨ho, hos⟩ := List.forall_mem_cons.1 h
    change (o.check >>= fun _ => os.forM Order.check) = _
    rw [ho]
    exact ih hos

namespace ParsedText

/-- A query with a sort is written as the statement with the sort. -/
theorem sorted_eq {st' : Statement} (h : parse text d = .ok st) (hsort : sort.isSorted = true)
    (hst : st.sorted sort .domain = .ok st') :
    (ofString text d).sorted sort .domain = .ok st'.render := by
  unfold ParsedText.sorted ParsedText.statement ofString
  rw [h]
  change (if (!sort.isSorted && !false) = true then _ else _) = _
  rw [hsort]
  change (st.sorted sort .domain >>= fun st => .ok st.render) = _
  rw [hst]
  rfl

theorem sorted_select {query : SelectStatement} (h : parse text d = .ok (.select query))
    (hsort : sort.isSorted = true) (horders : ∀ o ∈ sort.orders, (Statement.select query).SortsBy o) :
    (ofString text d).sorted sort .domain =
      .ok ((Statement.select query).withPaths sort).render := by
  have hcheck := Order.forM_check fun o ho => (horders o ho _ rfl).check
  have hrendering : (query.mapLastSpec (·.withOrders sort)).rendering =
      (query.mapLastSpec (·.withPaths sort)).rendering := by
    let items (q : QuerySpec) := sort.orders.map fun o => o.toItem q.primaryAlias? q.knownAliases
    refine @SelectStatement.adding_rendering_congr query items _ ?_
    rw [List.map_map, List.map_map]
    exact List.map_congr_left fun o ho => (horders o ho _ rfl).rendering_pathItem.symm
  have hsorted : (Statement.select query).sorted sort .domain =
      .ok (.select (query.mapLastSpec (·.withOrders sort))) := by
    change (sort.orders.forM Order.check >>= fun _ => .ok (Statement.select
      (if sort.isSorted then query.mapLastSpec (·.withOrders sort) else query))) = _
    rw [hcheck, hsort]
    rfl
  rw [sorted_eq h hsort hsorted]
  change Except.ok (query.mapLastSpec (·.withOrders sort)).rendering.render = _
  rw [hrendering]
  rfl

end ParsedText

/-- A sort that is added to a query goes to the orders of its last branch: so the text is parsed, and
update and delete statements stay as they are. The tokens of the query must be closed and no sign may
meet another, or the text would be read in another way. -/
theorem parse_sorted (h : parse text d = .ok st) (hclosed : ∀ t ∈ tokenize text, t.isClosed = true)
    (hapart : signsApart st.rendering.toTokens = true) (hsort : sort.isSorted = true)
    (horders : ∀ o ∈ sort.orders, st.SortsBy o) :
    ∃ out, (ParsedText.ofString text d).sorted sort .domain = .ok out ∧
      parse out d = .ok (st.withPaths sort) := by
  obtain ⟨ts, place, hwhole, hrun⟩ := exists_tokens h hclosed
  cases st with
  | select query =>
    obtain ⟨us, hus, hrun⟩ := SelectStatement.exists_sortedTokens hrun hwhole hsort horders
    exact ⟨_, ParsedText.sorted_select h hsort horders,
      parse_render_of_tokens hrun hus (SelectStatement.signsApart_withPaths hapart hsort horders)⟩
  | update s => exact ⟨_, ParsedText.sorted_eq h hsort rfl, parse_render_of_tokens hrun hwhole hapart⟩
  | delete s => exact ⟨_, ParsedText.sorted_eq h hsort rfl, parse_render_of_tokens hrun hwhole hapart⟩

/-- A query whose last branch stands in parentheses, with an order of its own. -/
def nestedBranch : String := "select u from User u union (select v from User v order by v.id limit 3)"

theorem parse_sorted_of_nestedBranch :
    let sort : Sorting := ⟨[{ property := "name.given", ignoreCase := true, nulls := .last }]⟩
    ∃ st out, parse nestedBranch .hql = .ok st ∧
      (ParsedText.ofString nestedBranch .hql).sorted sort .domain = .ok out ∧
        parse out .hql = .ok (st.withPaths sort) := by
  intro sort
  have haliases : (parse nestedBranch .hql).toOption.bind Statement.sortAliases? =
      some (some "v", []) := by decide +kernel
  have hsigns : (parse nestedBranch .hql).toOption.map (signsApart ·.rendering.toTokens) =
      some true := by decide +kernel
  have hclosed : ∀ t ∈ tokenize nestedBranch, t.isClosed = true := by decide +kernel
  have hchecks : ∀ o ∈ sort.orders, o.check = .ok () := by decide +kernel
  have hunreserved : ∀ o ∈ sort.orders, ∀ n ∈ (o.segments (some "v") []).head?,
      isReserved n = false := by decide +kernel
  cases h : parse nestedBranch .hql with
  | error e =>
    rw [h] at hsigns
    cases hsigns
  | ok st =>
    rw [h] at haliases hsigns
    have horders : ∀ o ∈ sort.orders, st.SortsBy o := by
      intro o ho
      refine .of_aliases haliases
        ⟨hchecks o ho, ⟨["name", "given"], by simp, by decide, ?_⟩, hunreserved o ho⟩
      rw [List.mem_singleton.1 ho]
      decide
    obtain ⟨out, hout, hparse⟩ :=
      parse_sorted h hclosed (Option.some.inj hsigns) (by rfl) horders
    exact ⟨st, out, rfl, hout, hparse⟩

/-- A minus in front of a negative number. -/
def doubleSign : String := "select u from User u where u.x = - -1"

/-- Without the blank between them two signs start a comment, which takes the orders away. -/
theorem sorted_doubleSign_unparsed :
    let sort : Sorting := .ofProperties ["name"]
    ∃ st out, parse doubleSign .jpql = .ok st ∧ (∀ o ∈ sort.orders, st.SortsBy o) ∧
      (ParsedText.ofString doubleSign .jpql).sorted sort .domain = .ok out ∧
        ∀ st', parse out .jpql ≠ .ok st' := by
  intro sort
  have haliases : (parse doubleSign .jpql).toOption.bind Statement.sortAliases? =
      some (some "u", []) := by decide +kernel
  have hchecks : ∀ o ∈ sort.orders, o.check = .ok () := by decide +kernel
  have hunreserved : ∀ o ∈ sort.orders, ∀ n ∈ (o.segments (some "u") []).head?,
      isReserved n = false := by decide +kernel
  have hsorted : ((ParsedText.ofString doubleSign .jpql).sorted sort .domain).toOption =
      some "select u from User u where u.x = --1 order by u.name asc" := by decide +kernel
  have hunparsed : (parse "select u from User u where u.x = --1 order by u.name asc"
      .jpql).toOption.isSome = false := by decide +kernel
  cases h : parse doubleSign .jpql with
  | error e =>
    rw [h] at haliases
    cases haliases
  | ok st =>
    rw [h] at haliases
    cases hout : (ParsedText.ofString doubleSign .jpql).sorted sort .domain with
    | error e =>
      rw [hout] at hsorted
      cases hsorted
    | ok out =>
      rw [hout] at hsorted
      obtain rfl := Option.some.inj hsorted
      refine ⟨st, _, rfl, fun o ho => .of_aliases haliases
        ⟨hchecks o ho, ⟨["name"], by simp, by decide, ?_⟩, hunreserved o ho⟩, rfl, fun st' hst' => ?_⟩
      · rw [List.mem_singleton.1 ho]
        rfl
      · rw [hst'] at hunparsed
        cases hunparsed

end Jpql
