import Jpql.Proofs.Grammar.CarryingClauses
import Jpql.Statement.Sorted

/-! Orders added to a query. The lexemes of further orders are put into the text behind the orders
that stand there, or behind the clauses in front of them; then the query is parsed to one with these
orders, and everything else in it stays. The place in the text is a seam: what stands in front of it is
parsed as before, and so is what stands behind it. -/

namespace Jpql

/-- Items that are added to the orders of a query, each with the lexemes that it is taken from. -/
structure AddedOrders where
  first : List Lexeme × OrderItem
  others : List (List Lexeme × OrderItem)

namespace AddedOrders

variable (a : AddedOrders)

def all : List (List Lexeme × OrderItem) := a.first :: a.others

def items : List OrderItem := a.all.map Prod.snd

def lexemes : List Lexeme := Lexeme.commaed Prod.fst a.first a.others

end AddedOrders

namespace QuerySpec

variable (added : QuerySpec → AddedOrders) (q : QuerySpec)

/-- The query with further orders. -/
def adding (items : List OrderItem) : QuerySpec :=
  { q with
    orderWords := if q.orders.isEmpty then "order by" else q.orderWords
    orders := q.orders ++ items }

/-- The query with the orders added. -/
def grown : QuerySpec := q.adding (added q).items

/-- What is put into the text for that. -/
def insertedLexemes : List Lexeme :=
  (if q.orders.isEmpty then [Lexeme.word "order", .word "by"] else [Lexeme.punctuator ","]) ++
    (added q).lexemes

end QuerySpec

/-! ### The last branch -/

mutual

/-- The last branch, also inside parentheses. -/
def SelectStatement.lastSpec : SelectStatement → QuerySpec
  | ⟨_, _, first, operations⟩ => lastOperationSpec first.lastSpec operations

def QueryTerm.lastSpec : QueryTerm → QuerySpec
  | .spec q => q
  | .nested s => s.lastSpec

/-- The last branch of the operations; without any it is the one in front of them. -/
def lastOperationSpec : QuerySpec → List SetOperation → QuerySpec
  | q, [] => q
  | _, ⟨_, term⟩ :: os => lastOperationSpec term.lastSpec os

end

theorem lastOperationSpec_cons (q : QuerySpec) (o : SetOperation) (os : List SetOperation) :
    lastOperationSpec q (o :: os) = lastOperationSpec o.term.lastSpec os := by
  cases o
  rw [lastOperationSpec]

theorem mapLastOperation_singleton (f : QuerySpec → QuerySpec) (o : SetOperation) :
    mapLastOperation f [o] = [⟨o.words, o.term.mapLastSpec f⟩] := by
  cases o
  rw [mapLastOperation]

namespace Grammar

open Jpql.Grammar.Parser
open Lexeme (ahead)

variable {α β : Type}

/-- Each word is a keyword just if it is reserved. -/
def Regular (ts : List Token) : Prop := ∀ t ∈ ts, t.isAnyWord = true → t.lexeme = .word t.literal

/-- Where a query ends: at the end of the text, or in front of a closing parenthesis. -/
def EndsQuery (ls : List Lexeme) : Prop := ahead 0 ls = .eof ∨ ahead 0 ls = .punctuator ")"

/-- The added items are taken from their lexemes wherever an order may end. -/
def Fits (s : Setting) (a : AddedOrders) : Prop :=
  ∀ m, 2 ≤ m → ∀ x ∈ a.all, ∀ rest, (ahead 0 rest).Silent s.dialect →
    Takes s (orderItem (rules m)) (x.1 ++ rest) x.2 rest

/-- A name that there is comes from one of the tokens. -/
def NamedIn (name? : Option String) (ts : List Token) : Prop :=
  ∀ name ∈ name?, ∃ t ∈ ts, t.isAnyWord = true ∧ t.literal = name

/-- With orders put in at the seam, the parser takes the text for `grown`; the query there is `q`. -/
structure GrowsAt (added : QuerySpec → AddedOrders) (s s' : Setting) (p : Parser α) (q : QuerySpec)
    (grown : α) (ts rest : List Token) (z : Seam) : Prop where
  setting : z.setting = s
  goal : z.goal = s'
  target : z.target = q.insertedLexemes added ++ z.source.map Token.lexeme
  reaches : z.Reaches .within ts
  joint : z.Joint ts
  suffix : rest <:+ z.source
  named : NamedIn q.primaryAlias? ts
  takes : Takes s' p (z.image ts) grown (rest.map Token.lexeme)

/-- The parser takes a query, and in the text of it is a place where orders can be put in: from there
to the end of the query it stays as it is. -/
def Grows (added : QuerySpec → AddedOrders) (s s' : Setting) (p p' : Parser α) (spec : α → QuerySpec)
    (grow : α → α) : Prop :=
  ∀ ⦃ts rest a⦄, p s ts = .ok (a, rest) → Regular ts → EndsQuery (rest.map Token.lexeme) →
    Fits s' (added (spec a)) → ∃ z, GrowsAt added s s' p' (spec a) (grow a) ts rest z

/-! ### Behind the orders -/

section Paging

variable {r : Rules} {s : Setting} {ts rest : List Token} {fragments : List Fragment}

theorem EndsQuery.silent {ls : List Lexeme} (h : EndsQuery ls) (d : Dialect) :
    (ahead 0 ls).Silent d ∧ (ahead 0 ls).isPunctuator "," = false := by
  rcases h with h | h
  · rw [h]
    exact ⟨.inl rfl, rfl⟩
  · rw [h]
    exact ⟨.inr (.inl rfl), rfl⟩

/-- Where a paging clause starts. -/
def AtPaging (ls : List Lexeme) : Prop :=
  (ahead 0 ls).isWord "LIMIT" = true ∨ (ahead 0 ls).isWord "OFFSET" = true ∨
    (ahead 0 ls).isKeyword "FETCH" = true

theorem takes_pagingClauses_none (he : s.Ends) {ls : List Lexeme} (h : ¬ AtPaging ls) (n : Nat) :
    Takes s (pagingClauses r n) ls [] ls := by
  simp only [AtPaging, not_or, Bool.not_eq_true] at h
  obtain ⟨hlimit, hoffset, hfetch⟩ := h
  cases n with
  | zero => exact .pure _ _
  | succ n =>
    have hnone : Takes s (pagingClause? r) ls none ls :=
      (takes_eatWord_none he hlimit).bind <| (takes_eatWord_none he hoffset).bind <|
        (takes_eatKeyword_none he hfetch).bind (.pure _ _)
    exact hnone.bind (.pure _ _)

theorem isReserved_of_eqIgnoringCase {w v : String} (h : eqIgnoringCase w v = true) :
    isReserved w = isReserved v := by
  have hw (k : String) : eqIgnoringCase w k = eqIgnoringCase v k := Lexeme.eqIgnoringCase_of_eq h
  simp only [isReserved, funext hw]

theorem silent_of_isWord {d : Dialect} (hd : d.allowsPaging = true) {l : Lexeme}
    (hword : l.isAnyWord = true → l = .word l.literal) {w : String} (hw : w ∈ ["LIMIT", "OFFSET"])
    (h : l.isWord w = true) : l.Silent d := by
  obtain ⟨hany, heq⟩ := Bool.and_eq_true_iff.1 h
  have hall : ∀ w ∈ ["LIMIT", "OFFSET"], isReserved w = false := by decide
  refine .inr (.inr (.inr (.inr ⟨hd, ?_, w, hw, heq⟩)))
  rw [hword hany]
  exact Lexeme.kind_word_of_isReserved ((isReserved_of_eqIgnoringCase heq).trans (hall w hw))

theorem AtPaging.silent {d : Dialect} (hd : d.allowsPaging = true) {ls : List Lexeme}
    (hword : (ahead 0 ls).isAnyWord = true → ahead 0 ls = .word (ahead 0 ls).literal)
    (h : AtPaging ls) : (ahead 0 ls).Silent d ∧ (ahead 0 ls).isPunctuator "," = false := by
  have hcomma {l : Lexeme} (hany : l.isAnyWord = true) : l.isPunctuator "," = false := by
    have hkind : l.kind = .identifier ∨ l.kind = .keyword := by simpa [Lexeme.isAnyWord] using hany
    rcases hkind with hkind | hkind
    · simp [Lexeme.isPunctuator, hkind]
    · simp [Lexeme.isPunctuator, hkind]
  rcases h with h | h | h
  · exact ⟨silent_of_isWord hd hword (by simp) h, hcomma (Bool.and_eq_true_iff.1 h).1⟩
  · exact ⟨silent_of_isWord hd hword (by simp) h, hcomma (Bool.and_eq_true_iff.1 h).1⟩
  · obtain ⟨hkind, hfetch⟩ := Bool.and_eq_true_iff.1 h
    refine ⟨.inr (.inr (.inr (.inl ⟨eq_of_beq hkind, "FETCH", by simp, hfetch⟩))), hcomma ?_⟩
    rw [Lexeme.isAnyWord, hkind, Bool.or_true]

theorem Regular.front (h : Regular ts) :
    (ahead 0 (ts.map Token.lexeme)).isAnyWord = true →
      ahead 0 (ts.map Token.lexeme) = .word (ahead 0 (ts.map Token.lexeme)).literal := by
  cases ts with
  | nil => exact nofun
  | cons t ts => exact h t (List.mem_cons_self ..)

/-- Paging clauses start where the orders end. -/
theorem silent_of_pagingBehind (he : s.Ends) (hreg : Regular ts)
    (hrun : pagingBehind r s ts = .ok (fragments, rest)) (hend : EndsQuery (rest.map Token.lexeme)) :
    (ahead 0 (ts.map Token.lexeme)).Silent s.dialect ∧
      (ahead 0 (ts.map Token.lexeme)).isPunctuator "," = false := by
  change (if s.dialect.allowsPaging then bounded (pagingClauses r) else Pure.pure []) s ts = _ at hrun
  cases hd : s.dialect.allowsPaging with
  | false =>
    rw [hd] at hrun
    cases hrun
    exact hend.silent _
  | true =>
    by_cases hpaging : AtPaging (ts.map Token.lexeme)
    · exact hpaging.silent hd hreg.front
    · rw [hd] at hrun
      obtain ⟨ts', hts', hnone⟩ := takes_pagingClauses_none he hpaging ts.length ts rfl
      have hrun : pagingClauses r ts.length s ts = .ok (fragments, rest) := hrun
      rw [hrun] at hnone
      cases hnone
      rw [hts'] at hend
      exact hend.silent _

end Paging

/-! ### The name of the first root -/

section Names

variable {r : Rules} {s : Setting} {ts us rest : List Token}

theorem NamedIn.suffix {name? : Option String} (h : NamedIn name? us) (hus : us <:+ ts) :
    NamedIn name? ts :=
  fun name hname =>
    have ⟨t, ht, hword⟩ := h name hname
    ⟨t, hus.subset ht, hword⟩

theorem namedIn_none : NamedIn none ts := nofun

theorem namedIn_advance {w : String} (he : s.Ends) (hword : (front s ts).isAnyWord = true)
    (h : advance s ts = .ok (w, rest)) : NamedIn (some w) ts := by
  cases h
  rintro name ⟨⟩
  cases ts with
  | nil =>
    have heof : (front s []).lexeme = .eof := he
    have hword : (front s []).lexeme.isAnyWord = true := hword
    rw [heof] at hword
    cases hword
  | cons t ts => exact ⟨t, List.mem_cons_self .., hword, rfl⟩

theorem namedIn_expectName {w : String} (he : s.Ends) (h : expectName s ts = .ok (w, rest)) :
    NamedIn (some w) ts := by
  change (if (front s ts).isAnyWord then advance else mismatched "identifier") s ts = _ at h
  split at h
  next hword => exact namedIn_advance he hword h
  next => cases h

theorem namedIn_aliasClause? {a : Option Alias} (he : s.Ends)
    (h : aliasClause? s ts = .ok (a, rest)) : NamedIn (a.map Alias.name) ts := by
  obtain ⟨found, mid, hfound, h⟩ := bind_ok_iff.1 h
  have hmid := (carried_eatKeyword (K := Anything)
    (steady_first_within (·.isKeyword "AS"))).takes he trivial hfound
  refine NamedIn.suffix ?_ hmid.suffix
  cases found with
  | some asWord =>
    obtain ⟨name, behind, hname, h⟩ := bind_ok_iff.1 h
    cases h
    exact namedIn_expectName he hname
  | none =>
    obtain ⟨t, _, ht, h⟩ := bind_ok_iff.1 h
    cases ht
    obtain ⟨b, _, hb, h⟩ := bind_ok_iff.1 h
    rw [looks_atClauseWord he] at hb
    cases hb
    split at h
    next hname =>
      obtain ⟨w, behind, hw, h⟩ := bind_ok_iff.1 h
      cases h
      have hkind : (front s mid).kind == .identifier := (Bool.and_eq_true_iff.1 hname).1
      exact namedIn_advance he (by rw [Token.isAnyWord, hkind, Bool.true_or]) hw
    next =>
      cases h
      exact namedIn_none

variable {n : Nat}

/-- What the parsers of a depth take. -/
theorem carried_self (n : Nat) : CarriedRules (rules n) (rules n) := (carried_rules le_rfl).1

theorem namedIn_fromRoot {root : FromRoot} (he : s.Ends)
    (h : fromRoot (rules n) s ts = .ok (root, rest)) :
    NamedIn (root.aliasClause.map Alias.name) ts := by
  obtain ⟨source, mid, hsource, h⟩ := bind_ok_iff.1 h
  obtain ⟨a, behind, ha, h⟩ := bind_ok_iff.1 h
  obtain ⟨joins, last, hjoins, h⟩ := bind_ok_iff.1 h
  cases h
  have hmid := (carried_rootSource (e := .within) (carried_self n)).takes he trivial hsource
  exact (namedIn_aliasClause? he ha).suffix hmid.suffix

theorem namedIn_fromClause {w : String} {roots : List FromRoot} (he : s.Ends)
    (h : fromClause (rules n) s ts = .ok ((w, roots), rest)) :
    NamedIn (roots.head?.bind fun root => root.aliasClause.map Alias.name) ts := by
  obtain ⟨found, _, hfound, h⟩ := bind_ok_iff.1 h
  cases hfound
  split at h
  next =>
    obtain ⟨fromWord, mid, hword, h⟩ := bind_ok_iff.1 h
    cases hword
    obtain ⟨all, behind, hall, h⟩ := bind_ok_iff.1 h
    cases h
    obtain ⟨first, last, hfirst, hall⟩ := bind_ok_iff.1 hall
    obtain ⟨others, _, -, hall⟩ := bind_ok_iff.1 hall
    cases hall
    exact (namedIn_fromRoot he hfirst).suffix (List.tail_suffix ts)
  next =>
    obtain ⟨d, _, hd, h⟩ := bind_ok_iff.1 h
    cases hd
    split at h
    next =>
      cases h
      exact namedIn_none
    next => cases h

theorem namedIn_querySpecHead {q : QuerySpec} (he : s.Ends)
    (h : querySpecHead (rules n) s ts = .ok (q, rest)) : NamedIn q.primaryAlias? ts := by
  obtain ⟨⟨selectWord, distinct, items⟩, mid, hselect, h⟩ := bind_ok_iff.1 h
  obtain ⟨⟨fromWord, roots⟩, behind, hfrom, h⟩ := bind_ok_iff.1 h
  have hmid := (carried_selectClause (e := .within) (K := Anything) (carried_self n)
    (by decide)).takes he trivial hselect
  have hroots : q.roots = roots := by
    dsimp only at h
    split at h
    next => cases h
    next =>
      obtain ⟨_, _, -, h⟩ := bind_ok_iff.1 h
      obtain ⟨_, _, -, h⟩ := bind_ok_iff.1 h
      obtain ⟨_, _, -, h⟩ := bind_ok_iff.1 h
      cases h
      rfl
  rw [QuerySpec.primaryAlias?, hroots]
  exact (namedIn_fromClause he hfrom).suffix hmid.suffix

end Names

/-! ### One query -/

section Query

variable {d : Dialect} {eof eof' : Token} (ends : Setting.Ends ⟨d, .backtracking, eof⟩)
  (ends' : Setting.Ends ⟨d, .backtracking, eof'⟩)

include ends ends'

/-- Without a seam, a parser takes the same from other tokens with the same lexemes. -/
theorem Carried.takes_plain {K : List Lexeme → Prop} {k : Nat} {p p' : Parser α}
    (hp : Carried K k .within p p') {ts rest : List Token} {a : α}
    (hs : K (ts.map Token.lexeme)) (h : p ⟨d, .backtracking, eof⟩ ts = .ok (a, rest)) :
    Takes ⟨d, .backtracking, eof'⟩ p' (ts.map Token.lexeme) a (rest.map Token.lexeme) := by
  let z : Seam := ⟨d, eof, eof', [], [], ends, ends', .inl rfl, .inl rfl, le_rfl⟩
  have hopens : z.Opens .within := ⟨rfl, rfl⟩
  have hplain := hp.carries z hs (fun _ _ _ => rfl) h ⟨List.nil_suffix, fun _ => hopens⟩
  rwa [Seam.image_of_plain hopens, Seam.image_of_plain hopens] at hplain

omit ends ends' in
theorem length_image {z : Seam} {ts : List Token} :
    (z.image ts).length = ts.length - z.source.length + z.target.length := by
  rw [Seam.image, List.length_append, List.length_map, List.length_take]
  omega

omit ends ends' in
/-- A list of further items ends, or goes on behind a comma. -/
theorem commaTail_cases {item : Parser α} {s : Setting} {n : Nat} {ts rest : List Token} {as : List α}
    (he : s.Ends) (h : commaTail item (n + 1) s ts = .ok (as, rest)) : (as = [] ∧ rest = ts) ∨
      ∃ t us a mid more, ts = t :: us ∧ t.isPunctuator "," = true ∧ item s us = .ok (a, mid) ∧
        commaTail item n s mid = .ok (more, rest) ∧ as = a :: more := by
  rw [commaTail, eatPunctuator_bind, bind_eq, atPunctuator_eq] at h
  cases hcomma : (front s ts).isPunctuator "," with
  | false =>
    rw [hcomma] at h
    cases h
    exact .inl ⟨rfl, rfl⟩
  | true =>
    rw [hcomma] at h
    obtain ⟨_, us, hus, h⟩ := bind_ok_iff.1 h
    obtain ⟨a, mid, ha, h⟩ := bind_ok_iff.1 h
    obtain ⟨more, _, hmore, h⟩ := bind_ok_iff.1 h
    cases h
    cases hus
    cases ts with
    | nil =>
      have heof : (front s []).lexeme = .eof := he
      have hcomma : (front s []).lexeme.isPunctuator "," = true := hcomma
      rw [heof] at hcomma
      cases hcomma
    | cons t us => exact .inr ⟨t, us, a, mid, more, rfl, hcomma, ha, hmore, rfl⟩

omit ends ends' in
/-- A list that ends at the seam goes on with what the other text has there. -/
theorem takes_commaTail_more {z : Seam} {item item' : Parser α} {bs : List α} {behind : List Lexeme}
    {k : Nat} (hitem : Carried Anything 1 .free item item')
    (hmore : ∀ m, k ≤ m → Takes z.goal (commaTail item' m) z.target bs behind) (n m : Nat)
    {ts : List Token} {as : List α} (hm : as.length + k ≤ m) (hz : z.Joint ts)
    (hrun : commaTail item n z.setting ts = .ok (as, z.source)) :
    Takes z.goal (commaTail item' m) (z.image ts) (as ++ bs) behind := by
  have hend (m : Nat) (hm : k ≤ m) :
      Takes z.goal (commaTail item' m) (z.image z.source) bs behind := by
    rw [Seam.image_source]
    exact hmore m hm
  induction n generalizing m ts as with
  | zero =>
    cases hrun
    exact hend m (by simpa using hm)
  | succ n ih =>
    obtain ⟨rfl, rfl⟩ | ⟨t, us, a, mid, more, rfl, hcomma, ha, hmore, rfl⟩ :=
      commaTail_cases z.setting_ends hrun
    · exact hend m (by simpa using hm)
    · rw [List.length_cons] at hm
      obtain ⟨m, rfl⟩ : ∃ j, m = j + 1 := ⟨m - 1, by omega⟩
      have hmid := hitem.takes z.setting_ends trivial ha
      have hrest := taken_commaTail (hitem.weaken (Nat.zero_le 1)) n z.setting_ends hmore
      rw [Seam.image_cons (hrest.suffix.trans hmid.suffix)]
      have hus := hz.suffix (List.suffix_cons t us)
      refine (takes_eatPunctuator z.goal_ends (l := t.lexeme) hcomma _).bind (.ite_true rfl ?_)
      refine (hitem.carries z trivial hus ha ⟨hrest.suffix, fun _ => trivial⟩).bind ?_
      exact (ih m (by omega) (hus.suffix hmid.suffix) hmore).bind (.pure _ _)

/-- The place in a text where something is put in. -/
def seamAt (source : List Token) (ins : List Lexeme)
    (hsource : (ahead 0 (source.map Token.lexeme)).Silent d)
    (hins : (ahead 0 (ins ++ source.map Token.lexeme)).Silent d) : Seam where
  dialect := d
  eof := eof
  eof' := eof'
  source := source
  target := ins ++ source.map Token.lexeme
  ends := ends
  ends' := ends'
  silent := hsource
  silent' := hins
  length := by simp

omit ends ends' in
theorem takes_addedOrders {m : Nat} (hm : 2 ≤ m) {a : AddedOrders} {s : Setting}
    (he : s.Ends) (hfits : Fits s a) {rest : List Lexeme} (hrest : (ahead 0 rest).Silent s.dialect)
    (hend : (ahead 0 rest).isPunctuator "," = false) :
    Takes s (commaList (orderItem (rules m))) (a.lexemes ++ rest) a.items rest :=
  Grammar.takes_commaList he (fun rest => (ahead 0 rest).Silent s.dialect) (hfits m hm)
    (fun _ => .inr (.inr (.inl rfl))) hrest hend

omit ends ends' in
theorem takes_furtherOrders {m : Nat} (hm : 2 ≤ m) {a : AddedOrders} {s : Setting}
    (he : s.Ends) (hfits : Fits s a) {rest : List Lexeme} (hrest : (ahead 0 rest).Silent s.dialect)
    (hend : (ahead 0 rest).isPunctuator "," = false) {k : Nat} (hk : a.items.length ≤ k) :
    Takes s (commaTail (orderItem (rules m)) k) (.punctuator "," :: a.lexemes ++ rest) a.items rest := by
  have htail := Grammar.takes_commaTail he (fun rest => (ahead 0 rest).Silent s.dialect) (hfits m hm)
    (fun _ => .inr (.inr (.inl rfl))) hrest hend (n := k)
    (by simpa [AddedOrders.items] using hk)
  exact htail

variable (added : QuerySpec → AddedOrders) {n m : Nat}

omit ends ends' in
theorem Regular.suffix {ts us : List Token} (h : Regular ts) (hus : us <:+ ts) : Regular us :=
  fun t ht => h t (hus.subset ht)

omit ends ends' in
/-- No query starts where the orders end. -/
theorem rejects_querySpecHead {r : Rules} {s : Setting} (he : s.Ends) {ls : List Lexeme}
    (hsilent : (ahead 0 ls).Silent s.dialect) : Rejects s (querySpecHead r) ls := by
  have hselect : (ahead 0 ls).isKeyword "SELECT" = false := hsilent.isKeyword (by decide)
  have hfrom : (ahead 0 ls).isKeyword "FROM" = false := hsilent.isKeyword (by decide)
  cases hmissing : s.dialect.allowsMissingSelect with
  | false =>
    refine .bind_left (.bind_right (takes_atKeyword he "SELECT" _) (.ite_false hselect ?_))
    exact .bind_right (takes_dialect _) (.ite_false hmissing (.reject _ _))
  | true =>
    have hclause : Takes s (selectClause r) ls ("", none, []) ls :=
      (takes_atKeyword he "SELECT" _).bind <| .ite_false hselect <|
        (takes_dialect _).bind (.ite_true hmissing (.pure _ _))
    have hroots : Takes s (fromClause r) ls ("", []) ls :=
      (takes_atKeyword he "FROM" _).bind <| .ite_false hfrom <|
        (takes_dialect _).bind (.ite_true hmissing (.pure _ _))
    exact .bind_right hclause (.bind_right hroots (.ite_true rfl (.reject _ _)))

/-- Orders are put in behind the other clauses. -/
theorem grows_querySpec_without (hm : n + 2 ≤ m) {ts mid rest : List Token} {head : QuerySpec}
    {paging : List Fragment}
    (hhead : querySpecHead (rules n) ⟨d, .backtracking, eof⟩ ts = .ok (head, mid))
    (hpaging : pagingBehind (rules n) ⟨d, .backtracking, eof⟩ mid = .ok (paging, rest))
    (hreg : Regular ts) (hend : EndsQuery (rest.map Token.lexeme)) {q : QuerySpec}
    (hq : q = { head with orderWords := "", orders := [], paging })
    (hfits : Fits ⟨d, .backtracking, eof'⟩ (added q)) :
    ∃ z, GrowsAt added ⟨d, .backtracking, eof⟩ ⟨d, .backtracking, eof'⟩ (querySpec (rules m)) q
      (q.grown added) ts rest z := by
  have hr : CarriedRules (rules n) (rules m) := (carried_rules (by omega)).1
  have htaken := (carried_querySpecHead (e := .listed) (K := Anything) hr (by decide)).takes ends
    trivial hhead
  have hbehind := (carried_pagingBehind (K := Anything) hr).takes ends trivial hpaging
  obtain ⟨hsilent, hcomma⟩ := silent_of_pagingBehind ends (hreg.suffix htaken.suffix) hpaging hend
  have hins : q.insertedLexemes added = .word "order" :: .word "by" :: (added q).lexemes := by
    rw [QuerySpec.insertedLexemes, hq]
    rfl
  have horder : (Lexeme.word "order").Silent d :=
    .inr (.inr (.inr (.inl ⟨by decide, "ORDER", by simp, by decide⟩)))
  have hfront : ahead 0 (q.insertedLexemes added ++ mid.map Token.lexeme) = .word "order" := by
    rw [hins]
    rfl
  let z : Seam := seamAt ends ends' mid (q.insertedLexemes added) hsilent (by rwa [hfront])
  have hopens : z.Opens .listed := ⟨hcomma, (congrArg (·.isPunctuator ",") hfront).trans rfl⟩
  have hjoint : z.Joint ts := fun t ht hpoint => by
    rw [htaken.clean (by decide) t ht] at hpoint
    cases hpoint
  have hreach : z.Reaches .listed mid := ⟨List.suffix_rfl, fun _ => hopens⟩
  have hfirst := (carried_querySpecHead (K := Anything) hr (by decide)).carries z trivial hjoint
    hhead hreach
  rw [show z.image mid = z.target from Seam.image_source] at hfirst
  have hlist := takes_addedOrders (m := m) (by omega) ends' hfits hsilent hcomma
  have horders : Takes z.goal (listBehind "ORDER" "BY" (commaList (orderItem (rules m)))) z.target
      ("order by", (added q).items) (mid.map Token.lexeme) := by
    show Takes _ _ (q.insertedLexemes added ++ mid.map Token.lexeme) _ _
    rw [hins]
    exact takes_listBehind ends' (by decide) (by decide) hlist
  have hpaging := Carried.takes_plain ends ends' (carried_pagingBehind (K := Anything) hr) trivial
    hpaging
  refine ⟨z, rfl, rfl, rfl, ?_, hjoint, hbehind.suffix, ?_, ?_⟩
  · refine ⟨htaken.suffix, fun hts => ?_⟩
    obtain ⟨e, he⟩ := rejects_querySpecHead (r := rules n) ends hsilent ts (by rw [show ts = mid from hts])
    rw [hhead] at he
    cases he
  · have hnamed := namedIn_querySpecHead ends hhead
    rw [hq]
    exact hnamed
  · rw [querySpec_eq]
    refine hfirst.bind (horders.bind (hpaging.bind ?_))
    rw [QuerySpec.grown, QuerySpec.adding, hq]
    exact .pure _ _

/-- Orders are put in behind those that stand there. -/
theorem grows_querySpec_behind (hm : n + 2 ≤ m) {ts mid us vs ws rest : List Token} {head : QuerySpec}
    {words : String} {o : OrderItem} {os : List OrderItem} {paging : List Fragment}
    (hhead : querySpecHead (rules n) ⟨d, .backtracking, eof⟩ ts = .ok (head, mid))
    (horder : (front ⟨d, .backtracking, eof⟩ mid).isKeyword "ORDER" = true)
    (hwords : expectPair "ORDER" "BY" ⟨d, .backtracking, eof⟩ mid = .ok (words, us))
    (hfirst : orderItem (rules n) ⟨d, .backtracking, eof⟩ us = .ok (o, vs))
    (hothers : bounded (commaTail (orderItem (rules n))) ⟨d, .backtracking, eof⟩ vs = .ok (os, ws))
    (hpaging : pagingBehind (rules n) ⟨d, .backtracking, eof⟩ ws = .ok (paging, rest))
    (hreg : Regular ts) (hend : EndsQuery (rest.map Token.lexeme)) {q : QuerySpec}
    (hq : q = { head with orderWords := words, orders := o :: os, paging })
    (hfits : Fits ⟨d, .backtracking, eof'⟩ (added q)) :
    ∃ z, GrowsAt added ⟨d, .backtracking, eof⟩ ⟨d, .backtracking, eof'⟩ (querySpec (rules m)) q
      (q.grown added) ts rest z := by
  have hr : CarriedRules (rules n) (rules m) := (carried_rules (by omega)).1
  have hitem (e : Edge) := carried_orderItem (e := e) hr
  -- What is taken up to the seam.
  have hmid := (carried_querySpecHead (e := .within) (K := Anything) hr (by decide)).takes ends
    trivial hhead
  have hus := (carried_expectPair (e := .within) (K := Anything) "ORDER" "BY").takes ends trivial
    hwords
  have hvs := (hitem .free).takes ends trivial hfirst
  have hws : Taken os.length .free vs ws :=
    taken_commaTail ((hitem .free).weaken (Nat.zero_le 1)) vs.length ends hothers
  have horders : Taken (1 + os.length) .free us ws := (hvs.before _).append hws
  have hsource : ws <:+ ts := ((horders.suffix.trans hus.suffix).trans hmid.suffix)
  have hbehind := (carried_pagingBehind (K := Anything) hr).takes ends trivial hpaging
  obtain ⟨hsilent, hcomma⟩ := silent_of_pagingBehind ends (hreg.suffix hsource) hpaging hend
  have hins : q.insertedLexemes added = .punctuator "," :: (added q).lexemes := by
    rw [QuerySpec.insertedLexemes, hq]
    rfl
  have hfront : ahead 0 (q.insertedLexemes added ++ ws.map Token.lexeme) = .punctuator "," := by
    rw [hins]
    rfl
  let z : Seam := seamAt ends ends' ws (q.insertedLexemes added) hsilent
    (by rw [hfront]; exact .inr (.inr (.inl rfl)))
  have hlength := horders.length
  have hjoint : z.Joint ts := fun t ht hpoint => by
    have hsuffix := List.suffix_of_suffix_length_le ht (hus.suffix.trans hmid.suffix)
      (show (t :: ws).length ≤ us.length by rw [List.length_cons]; omega)
    rw [horders.clean (by decide) t hsuffix] at hpoint
    cases hpoint
  have hreachUs : z.Reaches .within us :=
    ⟨horders.suffix, fun h => absurd (congrArg List.length (show us = ws from h)) (by omega)⟩
  have hreachMid : z.Reaches .within mid := hreachUs.before (k := 0) hus.suffix hus.suffix.length_le
  -- The same of the other text, and the orders that are put in.
  have hhead' := (carried_querySpecHead (K := Anything) hr (by decide)).carries z trivial hjoint
    hhead hreachMid
  have hwords' := (carried_expectPair (e := .within) (K := Anything) "ORDER" "BY").carries z trivial
    (hjoint.suffix hmid.suffix) hwords hreachUs
  have hfirst' := (hitem .free).carries z trivial (hjoint.suffix (hus.suffix.trans hmid.suffix)) hfirst
    ⟨hws.suffix, fun _ => trivial⟩
  have hmore (k : Nat) (hk : (added q).items.length ≤ k) :
      Takes z.goal (commaTail (orderItem (rules m)) k) z.target (added q).items
        (ws.map Token.lexeme) := by
    show Takes _ _ (q.insertedLexemes added ++ ws.map Token.lexeme) _ _
    rw [hins]
    exact takes_furtherOrders (by omega) ends' hfits hsilent hcomma hk
  have hcount : os.length + (added q).items.length ≤ (z.image vs).length := by
    have hadded : (added q).items.length ≤ (q.insertedLexemes added).length := by
      rw [hins, AddedOrders.items, List.length_map]
      exact @length_le_flatMap _ _ (fun x : List Lexeme × OrderItem => .punctuator "," :: x.1) _
        fun _ _ => List.cons_ne_nil _ _
    have htarget : (q.insertedLexemes added).length ≤ z.target.length := by
      rw [show z.target = q.insertedLexemes added ++ ws.map Token.lexeme from rfl, List.length_append]
      exact Nat.le_add_right _ _
    have hbefore := hws.length
    have himage : (z.image vs).length = vs.length - ws.length + z.target.length := length_image
    omega
  have hothers' : Takes z.goal (bounded (commaTail (orderItem (rules m)))) (z.image vs)
      (os ++ (added q).items) (ws.map Token.lexeme) :=
    .bounded (takes_commaTail_more (hitem .free) hmore vs.length _ hcount
      (hjoint.suffix (hvs.suffix.trans (hus.suffix.trans hmid.suffix))) hothers)
  have horder' : (ahead 0 (z.image mid)).isKeyword "ORDER" = true := by
    rw [hreachMid.ahead_zero, ← z.front_lexeme]
    exact horder
  have hall' : Takes z.goal (commaList (orderItem (rules m))) (z.image us)
      (o :: (os ++ (added q).items)) (ws.map Token.lexeme) := hfirst'.bind (hothers'.bind (.pure _ _))
  have horders' : Takes z.goal (listBehind "ORDER" "BY" (commaList (orderItem (rules m))))
      (z.image mid) (words, o :: (os ++ (added q).items)) (ws.map Token.lexeme) :=
    (takes_atKeyword ends' "ORDER" _).bind <| .ite_true horder' <|
      hwords'.bind (hall'.bind (.pure _ _))
  have hpaging' := Carried.takes_plain ends ends' (carried_pagingBehind (K := Anything) hr) trivial
    hpaging
  refine ⟨z, rfl, rfl, rfl, ?_, hjoint, hbehind.suffix, ?_, ?_⟩
  · exact hreachMid.before (k := 0) hmid.suffix hmid.suffix.length_le
  · have hnamed := namedIn_querySpecHead ends hhead
    rw [hq]
    exact hnamed
  · rw [querySpec_eq]
    refine hhead'.bind (horders'.bind (hpaging'.bind ?_))
    rw [QuerySpec.grown, QuerySpec.adding, hq]
    exact .pure _ _

theorem grows_querySpec (hm : n + 2 ≤ m) : Grows added ⟨d, .backtracking, eof⟩
    ⟨d, .backtracking, eof'⟩ (querySpec (rules n)) (querySpec (rules m)) id (·.grown added) := by
  intro ts rest q hrun hreg hend hfits
  rw [querySpec_eq] at hrun
  obtain ⟨head, mid, hhead, hrun⟩ := bind_ok_iff.1 hrun
  obtain ⟨⟨words, orders⟩, ws, horders, hrun⟩ := bind_ok_iff.1 hrun
  obtain ⟨paging, behind, hpaging, hrun⟩ := bind_ok_iff.1 hrun
  cases hrun
  obtain ⟨found, _, hfound, horders⟩ := bind_ok_iff.1 horders
  cases hfound
  split at horders
  next horder =>
    obtain ⟨words, us, hwords, horders⟩ := bind_ok_iff.1 horders
    obtain ⟨all, _, hall, horders⟩ := bind_ok_iff.1 horders
    cases horders
    obtain ⟨o, vs, hfirst, hall⟩ := bind_ok_iff.1 hall
    obtain ⟨os, _, hothers, hall⟩ := bind_ok_iff.1 hall
    cases hall
    exact grows_querySpec_behind ends ends' added hm hhead horder hwords hfirst hothers hpaging hreg hend
      rfl hfits
  next =>
    cases horders
    exact grows_querySpec_without ends ends' added hm hhead hpaging hreg hend rfl hfits

end Query

end Grammar

end Jpql
