import Jpql.Proofs.Derived.Clauses
import Jpql.Proofs.Derived.Prepared
import Mathlib

/-! Created queries are readable. Over a metamodel whose names are identifiers, paths of attributes
are words with points between them and aliases are words of their own; conditions are put together
without parentheses only as they bind anyway. So the text of a query that was created for a method is
parsed as the statement it was built to be. -/

namespace Jpql

/-- A word of ASCII characters. -/
def IsIdentifier (w : String) : Prop :=
  Lexer.isWord w = true ∧ w.toList.all Text.isAscii = true

/-- The names of entities and attributes are identifiers. -/
structure Metamodel.Identifiers (m : Metamodel) : Prop where
  entityNames : ∀ t ∈ m.types, IsIdentifier t.entityName
  simpleNames : ∀ t ∈ m.types, t.simpleName.toList.all Text.isAscii = true
  attributes : ∀ t ∈ m.types, ∀ a ∈ t.attributes, IsIdentifier a.name

theorem PropertyPath.IsAttribute.isIdentifier {m : Metamodel} (hm : m.Identifiers)
    {s : PathSegment} (hs : IsAttribute m s) : IsIdentifier s.name := by
  obtain ⟨-, t, ht, ha⟩ := hs
  exact hm.attributes t ht s.member ha

namespace Derived

open MethodName
open Step (exists_of_toOption_map)

/-! ### Names -/

theorem isReserved_eq_false {w : String}
    (h : ∀ k ∈ reservedKeywords, w.toList.map Char.toLower ≠ k.toList.map Char.toLower) :
    isReserved w = false :=
  List.any_eq_false.2 fun k hk heq => h k hk (by simpa [eqIgnoringCase] using heq)

/-- Initials of ASCII names are aliases. -/
theorem isName_initial? {cs : List Char} (hcs : ∀ c ∈ cs, Text.isAscii c = true) {name : String}
    (h : initial? cs = some name) : IsName name := by
  unfold initial? at h
  split at h
  next c _ =>
    split at h
    next hc =>
      have hascii : Text.isAscii c = true := hcs c (by simp)
      have hstart : Lexer.isIdentifierStart c.toLower = true := by
        have hall := Lexer.forall_char_range
          (fun c => Text.isAlphabetic c = true ∨ c = '_' → Lexer.isIdentifierStart c.toLower = true)
          0 128 (by decide +kernel) (Nat.zero_le c.toNat) (by simpa [Text.isAscii] using hascii)
        exact hall (by simpa using hc)
      obtain rfl := Option.some.inj h
      rw [Text.lowerOf, if_pos hascii]
      refine ⟨by simp [Lexer.isWord, hstart], isReserved_eq_false fun k hk heq => ?_⟩
      -- No keyword is a single letter.
      have hlong : ∀ k ∈ reservedKeywords, k.toList.length ≠ 1 := by decide
      refine hlong k hk ?_
      rw [← List.length_map (f := Char.toLower), ← heq]
      simp
    next => cases h
  next => cases h

theorem isName_numbered (n : Nat) : IsName ("join_" ++ toString n) := by
  have hdigit {c : Char} (hc : c ∈ Nat.toDigits 10 n) : Lexer.isIdentifierPart c = true :=
    Lexer.isIdentifierPart_of_isDigit (Nat.isDigit_of_mem_toDigits (by decide) (by decide) hc)
  have htext : ("join_" ++ toString n).toList = 'j' :: 'o' :: 'i' :: 'n' :: '_' :: Nat.toDigits 10 n := by
    rw [String.toList_append, Nat.toString_eq_repr, Nat.toList_repr]
    rfl
  constructor
  · have hword : Lexer.isIdentifierStart 'j' = true ∧
        ['o', 'i', 'n', '_'].all Lexer.isIdentifierPart = true := by decide
    rw [Lexer.isWord, htext]
    refine Bool.and_eq_true_iff.2 ⟨hword.1, List.all_eq_true.2 fun c hc => ?_⟩
    rcases List.mem_append.1 (show c ∈ ['o', 'i', 'n', '_'] ++ Nat.toDigits 10 n from hc) with hc | hc
    · exact List.all_eq_true.1 hword.2 c hc
    · exact hdigit hc
  · -- No keyword has an underscore.
    have hall : ∀ k ∈ reservedKeywords, '_' ∉ k.toList.map Char.toLower := by decide
    refine isReserved_eq_false fun k hk heq => hall k hk ?_
    rw [← heq, htext]
    exact List.mem_map.2 ⟨'_', by simp, by decide⟩

variable {m : Metamodel}

theorem isPath_intercalate (hm : m.Identifiers) {segments : List PathSegment}
    (h : ∀ s ∈ segments, PropertyPath.IsAttribute m s) :
    IsPath (".".intercalate (segments.map PathSegment.name)) := by
  refine ⟨_, fun n hn => ?_, rfl⟩
  obtain ⟨s, hs, rfl⟩ := List.mem_map.1 hn
  exact ((h s hs).isIdentifier hm).1

theorem isAscii_intercalate {names : List String}
    (h : ∀ n ∈ names, ∀ c ∈ n.toList, Text.isAscii c = true) :
    ∀ c ∈ (".".intercalate names).toList, Text.isAscii c = true := by
  induction names with
  | nil => simp
  | cons n names ih =>
    obtain ⟨hn, hnames⟩ := List.forall_mem_cons.1 h
    cases names with
    | nil => simpa using hn
    | cons n' names =>
      have hpoint : Text.isAscii '.' = true := by decide
      rw [String.intercalate_cons_cons]
      simp only [String.toList_append, List.mem_append]
      rintro c ((hc | hc) | hc)
      · exact hn c hc
      · rw [show c = '.' by simpa using hc]
        exact hpoint
      · exact ih hnames c hc

theorem OfAttributes.isPath (hm : m.Identifiers) {path : String} (h : OfAttributes m path) :
    IsPath path ∧ ∀ c ∈ path.toList, Text.isAscii c = true := by
  obtain ⟨segments, hsegments, rfl⟩ := h
  refine ⟨isPath_intercalate hm hsegments, isAscii_intercalate fun n hn => ?_⟩
  obtain ⟨s, hs, rfl⟩ := List.mem_map.1 hn
  exact List.all_eq_true.1 ((hsegments s hs).isIdentifier hm).2

theorem SelectQuery.Leads.isPath (hm : m.Identifiers) {q : SelectQuery} {e : PathExpression}
    {p : PropertyPath} (hp : ∀ s ∈ p.segments, PropertyPath.IsAttribute m s) (h : q.Leads e p) :
    IsPath e.path := by
  obtain ⟨names, hsuffix, hpath⟩ := h.path
  refine ⟨names, fun n hn => ?_, hpath⟩
  obtain ⟨s, hs, rfl⟩ := List.mem_map.1 (hsuffix.mem hn)
  exact ((hp s hs).isIdentifier hm).1

theorem Join.Named.isName {j : Join} (h : j.Named)
    (hpath : ∀ c ∈ j.path.toList, Text.isAscii c = true) : IsName j.aliasName := by
  rcases h.aliasName with hinitial | ⟨n, hn⟩
  · refine isName_initial? (fun c hc => hpath c ?_) hinitial
    rw [lastSegment, List.mem_reverse] at hc
    exact List.mem_reverse.1 (List.takeWhile_subset _ hc)
  · rw [hn]
    exact isName_numbered n

/-! ### Predicates -/

variable {options : Options} {source : OperandSource} {q : SelectQuery}

/-- A readable condition of its own, put together with no others. -/
def Predicate.IsLeaf (p : Predicate) : Prop := p.Readable ∧ p.precedence = .comparison

theorem caseFunction_mem (template : CaseTemplate) : template.function ∈ ["UPPER", "LOWER"] := by
  cases template <;> decide

theorem readable_folded {part : Part} {e : Expression} (he : e.Readable) :
    (folded options part e).Readable := by
  unfold folded
  split
  · exact ⟨caseFunction_mem _, he⟩
  · exact he

theorem isLeaf_predicateOn? (hescape : source.escape.value ≠ '\'') {part : Part}
    {e : PathExpression} {k : Nat} {p : Predicate} (he : IsPath e.path)
    (hp : predicateOn? options source part e k = some p) : p.IsLeaf := by
  have hpath : (Expression.path e).Readable := he
  have hoperand {n : Nat} : (Expression.parameter n).Readable := trivial
  have hsame : (folded options part (.path e)).Readable := readable_folded hpath
  have hvalue : (folded options part (.parameter (k + 1))).Readable := readable_folded hoperand
  cases hop : part.operator with
  | between =>
    simp only [predicateOn?, hop, Option.some.injEq] at hp
    subst hp
    exact ⟨⟨hpath, hoperand, hoperand⟩, rfl⟩
  | isNull | isNotNull | isEmpty | isNotEmpty =>
    simp only [predicateOn?, hop, Option.some.injEq] at hp
    subst hp
    exact ⟨⟨hpath, by decide⟩, rfl⟩
  | true | false =>
    simp only [predicateOn?, hop, Option.some.injEq] at hp
    subst hp
    exact ⟨⟨hpath, by decide, show _ ∈ _ by decide⟩, rfl⟩
  | near | within | regex | «exists» => simp [predicateOn?, hop] at hp
  | after | greaterThan | greaterThanEqual | before | lessThan | lessThanEqual =>
    simp only [predicateOn?, hop, Option.some.injEq] at hp
    subst hp
    exact ⟨⟨hpath, by decide, hoperand⟩, rfl⟩
  | like | notLike =>
    simp only [predicateOn?, hop, Option.some.injEq] at hp
    subst hp
    exact ⟨⟨hsame, hvalue, hescape⟩, rfl⟩
  | «in» | notIn =>
    simp only [predicateOn?, hop, Option.some.injEq] at hp
    subst hp
    exact ⟨⟨hsame, hoperand⟩, rfl⟩
  | startingWith | endingWith | containing | notContaining =>
    simp only [predicateOn?, hop, Option.some.injEq] at hp
    subst hp
    split
    · exact ⟨⟨hoperand, hpath⟩, rfl⟩
    · exact ⟨⟨hsame, hvalue, hescape⟩, rfl⟩
  | simpleProperty | negatingSimpleProperty =>
    simp only [predicateOn?, hop, Option.some.injEq] at hp
    subst hp
    split
    · exact ⟨⟨hpath, by decide⟩, rfl⟩
    · exact ⟨⟨hsame, by decide, hvalue⟩, rfl⟩

theorem Conditions.isLeaf (hm : m.Identifiers) (hescape : source.escape.value ≠ '\'') {k : Nat}
    {parts : List Part} {ps : List Predicate} (h : Conditions options source q k parts ps)
    (hparts : OnAttributes m parts) : ∀ p ∈ ps, p.IsLeaf := by
  induction h with
  | nil k => simp
  | cons hleads hp _ ih =>
    refine List.forall_mem_cons.2 ⟨?_, ih fun part hpart => hparts part (by simp [hpart])⟩
    exact isLeaf_predicateOn? hescape (hleads.isPath hm (hparts _ (by simp))) hp

theorem CursorAtoms.isLeaf (hm : m.Identifiers) {entity : ManagedType} {cursor : Cursor} {k : Nat}
    {comparisons : List (Order × Bool)} {ps : List Predicate} {bs : List ParameterBinding}
    (h : CursorAtoms m entity cursor q k comparisons ps bs) : ∀ p ∈ ps, p.IsLeaf := by
  induction h with
  | nil k => simp
  | null _ hp he _ ih =>
    have hpath := he.isPath hm (PropertyPath.ofSource_isAttribute hp)
    exact List.forall_mem_cons.2 ⟨⟨⟨hpath, by decide⟩, rfl⟩, ih⟩
  | value _ _ hp he _ ih =>
    have hpath := he.isPath hm (PropertyPath.ofSource_isAttribute hp)
    refine List.forall_mem_cons.2 ⟨⟨⟨hpath, ?_, trivial⟩, rfl⟩, ih⟩
    unfold cursorOperator
    split
    · decide
    · split <;> decide

/-- The connective binds so and needs its sides to bind as close, the right one closer. -/
def Connects (op : Predicate → Predicate → Predicate) (c : Grammar.Precedence) : Prop :=
  ∀ p p', (op p p').precedence = c ∧ ((op p p').Readable ↔
    p.Readable ∧ p'.Readable ∧ c.rank ≤ p.precedence.rank ∧ c.rank < p'.precedence.rank)

theorem connects_and : Connects .and .and := fun _ _ => ⟨rfl, Iff.rfl⟩

theorem connects_or : Connects .or .or := fun _ _ => ⟨rfl, Iff.rfl⟩

/-- Predicates that bind closer than a connective are put together by it as they stand. -/
theorem readable_joinPredicates {op : Predicate → Predicate → Predicate}
    {c : Grammar.Precedence} (hop : Connects op c) {ps : List Predicate} (hps : ∀ p ∈ ps, p.Readable ∧ c.rank < p.precedence.rank) {p : Predicate}
    (h : joinPredicates op ps = some p) : p.Readable ∧ c.rank ≤ p.precedence.rank := by
  cases ps with
  | nil => cases h
  | cons p' ps =>
    obtain rfl := Option.some.inj h
    obtain ⟨hp', hrest⟩ := List.forall_mem_cons.1 hps
    clear h hps
    replace hp' := hp'.imp_right Nat.le_of_lt
    induction ps generalizing p' with
    | nil => exact hp'
    | cons p'' ps ih =>
      obtain ⟨hp'', hrest⟩ := List.forall_mem_cons.1 hrest
      obtain ⟨hprecedence, hreadable⟩ := hop p' p''
      refine ih _ hrest ⟨hreadable.2 ⟨hp'.1, hp''.1, hp'.2, hp''.2⟩, ?_⟩
      exact Nat.le_of_eq (by rw [hprecedence])

theorem readable_conjunction {ps : List Predicate} (hps : ∀ p ∈ ps, p.IsLeaf) {p : Predicate}
    (h : joinPredicates .and ps = some p) :
    p.Readable ∧ Grammar.Precedence.or.rank < p.precedence.rank := by
  have hclose : ∀ p ∈ ps, p.Readable ∧ Grammar.Precedence.and.rank < p.precedence.rank := by
    intro p hp
    rw [(hps p hp).2]
    exact ⟨(hps p hp).1, by decide⟩
  have hjoin := readable_joinPredicates connects_and hclose h
  exact hjoin.imp_right (Nat.lt_of_lt_of_le (by decide))

theorem readable_parenthesized {p : Predicate} (h : p.Readable) : p.parenthesized.IsLeaf := by
  cases p <;> exact ⟨h, rfl⟩

theorem readable_alternatives {pss : List (List Predicate)} (h : ∀ p ∈ pss.flatten, p.IsLeaf)
    {p : Predicate}
    (hp : joinPredicates .or ((pss.map (joinPredicates .and)).filterMap id) = some p) :
    p.Readable := by
  refine (readable_joinPredicates connects_or (fun p' hp' => ?_) hp).1
  obtain ⟨o, ho, rfl⟩ := List.mem_filterMap.1 hp'
  obtain ⟨ps, hps, hand⟩ := List.mem_map.1 ho
  exact readable_conjunction (fun p'' hp'' => h p'' (List.mem_flatten_of_mem hps hp'')) hand

theorem readable_getD_tautology {o : Option Predicate} (h : ∀ p, o = some p → p.Readable) :
    (o.getD KeysetDraft.tautology).Readable := by
  cases o with
  | none => exact ⟨show _ ∈ _ by decide, by decide⟩
  | some p => exact h p rfl

theorem readable_cursorPredicate {rows : List (List Predicate)}
    (h : ∀ p ∈ rows.flatten, p.IsLeaf) {p : Predicate} (hp : cursorPredicate rows = some p) :
    p.Readable := by
  unfold cursorPredicate at hp
  split at hp
  next => cases hp
  next =>
    obtain rfl := Option.some.inj hp
    refine readable_getD_tautology fun p hp => ?_
    refine (readable_joinPredicates connects_or (fun p' hp' => ?_) hp).1
    obtain ⟨p'', hp'', rfl⟩ := List.mem_map.1 hp'
    obtain ⟨row, hrow, rfl⟩ := List.mem_map.1 hp''
    have hand : (KeysetDraft.and row).Readable := readable_getD_tautology fun p hp =>
      (readable_conjunction (fun p' hp' => h p' (List.mem_flatten_of_mem hrow hp')) hp).1
    obtain ⟨hreadable, hprecedence⟩ := readable_parenthesized hand
    rw [hprecedence]
    exact ⟨hreadable, by decide⟩

theorem readable_together {o o' : Option Predicate} (h : ∀ p, o = some p → p.Readable)
    (h' : ∀ p, o' = some p → p.Readable) {p : Predicate} (hp : together o o' = some p) :
    p.Readable := by
  rcases o with _ | p₁ <;> rcases o' with _ | p₂ <;> cases hp
  · exact h' _ rfl
  · exact h _ rfl
  · obtain ⟨hfirst, hbinds⟩ := readable_parenthesized (h p₁ rfl)
    obtain ⟨hsecond, hbinds'⟩ := readable_parenthesized (h' p₂ rfl)
    refine ⟨hfirst, hsecond, ?_, ?_⟩
    · rw [hbinds]
      decide
    · rw [hbinds']
      decide

/-! ### Queries -/

/-- No identifier that the query of an exists method selects is named by a reserved word, so that the
name can be an alias. -/
def Creator.NamesIds (c : Creator) : Prop :=
  c.method.isExists = true → ∀ id ∈ c.entity.idAttributes, ∀ p,
    PropertyPath.ofSource c.metamodel c.entity id.name = .ok p → isReserved p.leaf.name = false

variable {c : Creator}

theorem Selects.readable (hm : c.metamodel.Identifiers) (hids : c.NamesIds) {s : Selection}
    (h : Selects c q s) (hselected : SelectsIds c q s) : s.Readable := by
  cases s with
  | paths es =>
    obtain ⟨hexists, hne, -⟩ := h
    refine ⟨hne, fun e he => ?_⟩
    obtain ⟨property, hproperty, p, hp, hleads⟩ := exists_of_forall₂ hselected he
    obtain ⟨id, hid, rfl⟩ := List.mem_map.1 hproperty
    have hattributes := PropertyPath.ofSource_isAttribute hp
    have hleaf := (hattributes _ (List.getLast_mem p.nonempty)).isIdentifier hm
    refine ⟨hleads.isPath hm hattributes, ?_⟩
    rw [hleads.name]
    exact ⟨hleaf.1, hids hexists id hid p hp⟩
  | entity | count => trivial
  | construct => exact h.elim

theorem SortsOn.readable (hm : c.metamodel.Identifiers) {o : Order} {item : OrderExpression}
    (h : SortsOn c q o item) : item.expression.Readable := by
  obtain ⟨p, e, hp, hleads, hitem⟩ := h.expression
  have hpath := hleads.isPath hm (PropertyPath.ofSource_isAttribute hp)
  rw [hitem]
  split
  · exact ⟨caseFunction_mem _, hpath⟩
  · exact hpath

/-- A query whose joins, conditions and orders come from a method is readable. -/
theorem Creates.readable {sort : Sorting} {base : Created} (h : Creates c sort base)
    (hm : c.metamodel.Identifiers) (hentity : c.entity ∈ c.metamodel.types) (hids : c.NamesIds)
    (hgrows : Grows c.metamodel base.query q) {o : Option Predicate}
    (ho : ∀ p, o = some p → p.Readable) : { q with predicate := o }.Readable := by
  obtain ⟨js, n, hq⟩ := (hgrows.spec h.joined.wellJoined).1
  have hmono : base.query.joins <+: q.joins := (hgrows.spec h.joined.wellJoined).1.joins_mono
  have hjoined := hgrows.joined h.joined
  have hnamed := hgrows.named h.named
  have hbase : q.entityName = c.entity.entityName ∧
      q.aliasName = (initial? c.entity.simpleName.toList).getD "r" ∧
      q.selection = base.query.selection ∧ q.orders = base.query.orders := by
    rw [hq]
    exact ⟨h.entityName, h.aliasName, rfl, rfl⟩
  obtain ⟨hentityName, haliasName, hselection, horders⟩ := hbase
  refine ⟨?_, ?_, ?_, fun j hj => ?_, ho, fun item hitem => ?_⟩
  · change Lexer.isWord q.entityName = true
    rw [hentityName]
    exact (hm.entityNames _ hentity).1
  · change IsName q.aliasName
    rw [haliasName]
    cases hinitial : initial? c.entity.simpleName.toList with
    | none => exact ⟨by decide, by decide⟩
    | some name => exact isName_initial? (List.all_eq_true.1 (hm.simpleNames _ hentity)) hinitial
  · change q.selection.Readable
    rw [hselection]
    exact h.selection.readable hm hids h.identifiers
  · obtain ⟨hpath, hascii⟩ := (hjoined.paths j hj).isPath hm
    exact ⟨(hnamed j hj).path, hpath, (hnamed j hj).isName hascii⟩
  · change item ∈ q.orders at hitem
    rw [horders] at hitem
    have hsorts := h.orders
    split at hsorts
    · simp [hsorts] at hitem
    · obtain ⟨hlength, hall⟩ := List.forall₂_iff_get.1 hsorts
      obtain ⟨i, hi, rfl⟩ := List.mem_iff_getElem.1 hitem
      exact (hall i (hlength ▸ hi) hi).readable hm

namespace Creator

/-- The text of the query is parsed as the statement that the query stands for. Its predicate puts
together the conditions of the method name, alternative by alternative, and rows of comparisons. -/
structure ReadsBack (c : Creator) (query : SelectQuery) (rows : List (List Predicate)) : Prop where
  parse : Jpql.parse query.render .jpql = .ok query.statement
  predicate : ∃ pss : List (List Predicate),
    query.predicate = together (joinPredicates .or ((pss.map (joinPredicates .and)).filterMap id))
      (cursorPredicate rows) ∧
    pss.map List.length = c.method.alternatives.map List.length ∧
    Conditions c.options c.source query 0 c.method.parts pss.flatten

/-- Whatever is created for a method that returns entities, with a cursor or without, reads back as
it was built. -/
theorem created_reads_back {sort : Sorting} (hreturned : c.returned = .domain)
    (hescape : c.options.escape.value ≠ '\'') (hmethod : c.method.WellFormed c.metamodel)
    (hnames : c.metamodel.Identifiers) (hentity : c.entity ∈ c.metamodel.types)
    (hsort : ∀ o ∈ sort.orders, o.rawExpression = false) (hids : c.NamesIds) :
    (∀ created, c.create sort = .ok created → c.ReadsBack created.query []) ∧
    ∀ cursor created, c.createKeyset cursor sort = .ok created →
      ∃ rows before bs, c.ReadsBack created.query rows ∧ created.bindings = before ++ bs ∧
        rows.map List.length = (rowsOf cursor (c.keysetSort cursor sort)).map List.length ∧
        CursorAtoms c.metamodel c.entity cursor created.query before.length
          (rowsOf cursor (c.keysetSort cursor sort)).flatten rows.flatten bs := by
  have hplain : ∀ o ∈ c.method.sort.orders, o.rawExpression = false :=
    fun o ho => (hmethod.orders o ho).1
  -- What was created without a cursor reads back with any rows of comparisons added to it.
  have hreads {sort : Sorting} {base : Created} {query : SelectQuery} {rows : List (List Predicate)}
      (hbase : Creates c sort base) (hgrows : Grows c.metamodel base.query query)
      (hrows : ∀ p ∈ rows.flatten, p.IsLeaf) : c.ReadsBack
        { query with predicate := together base.query.predicate (cursorPredicate rows) } rows := by
    obtain ⟨pss, hpss, hlengths, hconditions⟩ := hbase.predicate
    have hmono := (hgrows.spec hbase.joined.wellJoined).1.joins_mono
    have hleaves := hconditions.isLeaf hnames hescape hmethod.onAttributes
    refine ⟨SelectQuery.Readable.parse (hbase.readable hnames hentity hids hgrows fun p hp => ?_),
      pss, by rw [hpss], hlengths, hconditions.mono hmono⟩
    rw [hpss] at hp
    exact readable_together (fun _ hp => readable_alternatives hleaves hp)
      (fun _ hp => readable_cursorPredicate hrows hp) hp
  constructor
  · intro created hcreated
    have hcreates := createSorted_creates hreturned hmethod.onAttributes
      (DerivedQuery.rawExpression_and hplain hsort) hcreated
    have hall : c.ReadsBack { created.query with
        predicate := together created.query.predicate (cursorPredicate []) } [] :=
      hreads hcreates .refl (by simp)
    have htogether : together created.query.predicate (cursorPredicate []) =
        created.query.predicate := by
      cases created.query.predicate <;> rfl
    rwa [htogether] at hall
  · intro cursor created hcreated
    obtain ⟨base, query, rows, bs, hbase, hgrows, rfl, hlengths, hatoms⟩ :=
      createKeyset_compares hreturned hmethod.onAttributes
        (DerivedQuery.rawExpression_keysetSort c cursor sort hplain hsort) hcreated
    exact ⟨rows, base.bindings, bs, hreads hbase hgrows (hatoms.isLeaf hnames), rfl, hlengths,
      hatoms.mono (List.prefix_refl _)⟩

/-! ### Items by name or price -/

def item (id : String) : ManagedType :=
  { name := "app.Item", entityName := "Item", isEntity := true
    attributes := [.id id .long, .basic "name" .string, .basic "price" .integer] }

def itemMethod : MethodName :=
  { isExists := true
    alternatives := [
      [{ source := "Name", operator := .simpleProperty
         property := ⟨[⟨"app.Item", .basic "name" .string⟩], List.cons_ne_nil _ _⟩ }],
      [{ source := "PriceBetween", operator := .between
         property := ⟨[⟨"app.Item", .basic "price" .integer⟩], List.cons_ne_nil _ _⟩ }]] }

def itemParameters : MethodParameters :=
  ⟨"existsByNameOrPriceBetween", [⟨0, none, .bindable .string, none⟩,
    ⟨1, none, .bindable .integer, none⟩, ⟨2, none, .bindable .integer, none⟩]⟩

def itemCreator (id : String) : Creator :=
  { method := itemMethod, entity := item id, metamodel := ⟨[item id]⟩
    parameters := itemParameters }

def itemQuery (id : String) : SelectQuery :=
  { entityName := "Item", aliasName := "i", selection := .paths [⟨.root, id, id⟩]
    predicate := some (.or
      (.compare (.path ⟨.root, "name", "name"⟩) "=" (.parameter 1))
      (.between (.path ⟨.root, "price", "price"⟩) (.parameter 2) (.parameter 3))) }

theorem wellFormed_itemMethod {id : String} (h : id = "id" ∨ id = "order") :
    itemMethod.WellFormed ⟨[item id]⟩ := by
  have hparse : MethodName.parse ⟨[item id]⟩ (item id) "existsByNameOrPriceBetween" =
      .ok itemMethod := by
    rcases h with rfl | rfl <;> cbv
  exact parse_wellFormed hparse

theorem identifiers_item {id : String} (h : id = "id" ∨ id = "order") :
    (⟨[item id]⟩ : Metamodel).Identifiers := by
  have hentity : IsIdentifier "Item" := ⟨by decide, by decide⟩
  have hid : IsIdentifier id := by
    rcases h with rfl | rfl <;> exact ⟨by decide, by decide⟩
  have hattributes : IsIdentifier "name" ∧ IsIdentifier "price" :=
    ⟨⟨by decide, by decide⟩, ⟨by decide, by decide⟩⟩
  refine ⟨?_, ?_, ?_⟩ <;> intro t ht <;> obtain rfl := List.mem_singleton.1 ht
  · exact hentity
  · have hsimple : (item id).simpleName = "Item" := by
      change Jpql.simpleName "app.Item" = "Item"
      decide
    rw [hsimple]
    exact hentity.2
  · intro a ha
    simp only [item, List.mem_cons, List.not_mem_nil, or_false] at ha
    rcases ha with rfl | rfl | rfl
    · exact hid
    · exact hattributes.1
    · exact hattributes.2

theorem create_item {id : String} (h : id = "id" ∨ id = "order") :
    ((itemCreator id).create .unsorted).toOption.map (·.query) = some (itemQuery id) := by
  rcases h with rfl | rfl <;> cbv

theorem created_reads_back_items :
    (∃ created, (itemCreator "id").create .unsorted = .ok created ∧
      (itemCreator "id").ReadsBack created.query []) ∧
    ∃ created rows before bs,
      (itemCreator "id").createKeyset ⟨[("id", .int 5)], .forward⟩ .unsorted = .ok created ∧
      (itemCreator "id").ReadsBack created.query rows ∧ created.bindings = before ++ bs ∧
      rows.map List.length = [1] ∧
      CursorAtoms ⟨[item "id"]⟩ (item "id") ⟨[("id", .int 5)], .forward⟩ created.query
        before.length [({ property := "id" }, false)] rows.flatten bs := by
  have hids : (itemCreator "id").NamesIds := by
    intro _ id hid p hp
    obtain rfl : id = .id "id" .long := List.mem_singleton.1 hid
    have hname : (PropertyPath.ofSource ⟨[item "id"]⟩ (item "id") "id").toOption.map
        (·.leaf.name) = some "id" := by cbv
    have hp : PropertyPath.ofSource ⟨[item "id"]⟩ (item "id") "id" = .ok p := hp
    rw [hp] at hname
    have hname : p.leaf.name = "id" := Option.some.inj hname
    rw [hname]
    decide
  have hsort : ∀ o ∈ Sorting.unsorted.orders, o.rawExpression = false := by simp [Sorting.unsorted]
  obtain ⟨hplain, hkeyset⟩ := created_reads_back (c := itemCreator "id") rfl (by decide)
    (wellFormed_itemMethod (.inl rfl)) (identifiers_item (.inl rfl)) (by simp [itemCreator]) hsort
    hids
  have hbehind : ((itemCreator "id").createKeyset ⟨[("id", .int 5)], .forward⟩
      .unsorted).toOption.map (·.bindings.length) = some 4 := by
    cbv
  obtain ⟨created, hcreated, -⟩ := exists_of_toOption_map (create_item (.inl rfl))
  obtain ⟨created', hcreated', -⟩ := exists_of_toOption_map hbehind
  obtain ⟨rows, before, bs, hall⟩ := hkeyset _ created' hcreated'
  exact ⟨⟨created, hcreated, hplain created hcreated⟩, created', rows, before, bs, hcreated', hall⟩

/-- An identifier that is named by a keyword is no alias: the method is read and its query created,
but the text of the query is not accepted. -/
theorem keyword_identifier_fails : itemMethod.WellFormed ⟨[item "order"]⟩ ∧
    (⟨[item "order"]⟩ : Metamodel).Identifiers ∧
    ∃ created, (itemCreator "order").create .unsorted = .ok created ∧
      ∀ s, parse created.query.render .jpql ≠ .ok s := by
  have hrender : (itemQuery "order").render =
      "SELECT i.order order FROM Item i WHERE i.name = ?1 OR i.price BETWEEN ?2 AND ?3" := by
    decide +kernel
  have hrejected : (parse
      "SELECT i.order order FROM Item i WHERE i.name = ?1 OR i.price BETWEEN ?2 AND ?3"
      .jpql).isOk = false := by
    decide +kernel
  obtain ⟨created, hcreated, hquery⟩ := exists_of_toOption_map (create_item (.inr rfl))
  refine ⟨wellFormed_itemMethod (.inr rfl), identifiers_item (.inr rfl), created, hcreated, ?_⟩
  intro s hs
  rw [hquery, hrender] at hs
  rw [hs] at hrejected
  cases hrejected

end Creator

end Derived

end Jpql
