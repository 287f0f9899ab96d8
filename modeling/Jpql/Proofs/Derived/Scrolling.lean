import Jpql.Proofs.Derived.Acceptance
import Jpql.Proofs.Derived.Keyed
import Jpql.Proofs.Derived.Table
import Mathlib

/-! Scrolling through a table. Each window is a part of the rows in order, and the next one goes on
behind its last row. From the initial position on, all windows together are the rows that the method
name selects, each of them once. -/

namespace Jpql

open Derived MethodName
open Step (result_bind_ok result_map_ok exists_of_toOption_map)

variable {σ ρ : Type}

/-- The call that goes on behind a cursor. -/
def Arguments.behind (a : Arguments) (cursor : Cursor) : Arguments :=
  { a with scroll := some (.keyset cursor) }

namespace DerivedQuery

/-! ### Queries and calls that scroll -/

/-- A query that is set up for a method, changed in its settings and called, however often. -/
inductive Reachable : DerivedQuery → Prop
  | create {q : DerivedQuery} {name entityName : String} {m : Metamodel} {ps : MethodParameters}
      (h : DerivedQuery.create name entityName m ps = .ok q) : Reachable q
  | returning {q q' : DerivedQuery} {returned : ReturnedType} (hq : Reachable q)
      (h : q.returning returned = .ok q') : Reachable q'
  | withOptions {q q' : DerivedQuery} {options : Options} (hq : Reachable q)
      (h : q.withOptions options = .ok q') : Reachable q'
  | withCacheCapacity {q : DerivedQuery} (hq : Reachable q) (capacity : Nat) :
      Reachable (q.withCacheCapacity capacity)
  | after {q : DerivedQuery} (hq : Reachable q) (call : Call) : Reachable (q.after call)

theorem after_eq (q : DerivedQuery) (call : Call) :
    ∃ queries counts, q.after call = { q with queries, counts } := by
  cases call with
  | prepare a =>
    change ∃ queries counts, (q.prepare a).2 = _
    unfold prepare
    rcases a.scroll with _ | last | cursor
    · exact ⟨_, q.counts, rfl⟩
    · exact ⟨_, q.counts, rfl⟩
    · exact ⟨q.queries, q.counts, rfl⟩
  | prepareCount a => exact ⟨_, _, rfl⟩

theorem Reachable.setUp {q : DerivedQuery} (h : q.Reachable) : q.SetUp := by
  induction h with
  | create h => exact (create_setUp h).1
  | returning _ h ih =>
    obtain ⟨rfl, haccepted⟩ := check_ok h
    exact ⟨ih.entity, ih.method, haccepted⟩
  | withOptions _ h ih =>
    obtain ⟨rfl, haccepted⟩ := check_ok h
    exact ⟨ih.entity, ih.method, haccepted⟩
  | withCacheCapacity _ capacity ih => exact ⟨ih.entity, ih.method, ih.accepted⟩
  | @after q _ call ih =>
    obtain ⟨queries, counts, hafter⟩ := q.after_eq call
    rw [hafter]
    exact ⟨ih.entity, ih.method, ih.accepted⟩

variable {q : DerivedQuery} {a : Arguments} {w : Nat}

/-- The call looks for entities in windows of `w` rows, and sorts by properties as they are. -/
structure Scrollable (q : DerivedQuery) (a : Arguments) (w : Nat) : Prop where
  returned : q.returned = .domain
  finds : Finds q.method
  identified : q.entity.idAttributes ≠ []
  identifiers : ∀ id ∈ q.entity.idAttributes,
    (q.creator none false).Sortable { property := id.name }
  orders : ∀ o ∈ a.sort.orders,
    (q.creator none false).Sortable o ∧ o.rawExpression = false ∧ o.ignoreCase = false
  unpaged : a.page = .unpaged
  window : q.method.limit.or a.limit = some w
  positive : 1 ≤ w

theorem Scrollable.sortable (h : q.Scrollable a w) (hq : q.SetUp) :
    ∀ o ∈ (q.completeSort a).orders, (q.creator none false).Sortable o ∧ o.ignoreCase = false := by
  intro o ho
  rcases mem_completeSort.1 ho with hmethod | hcall | ⟨id, hid, -, rfl⟩
  · obtain ⟨hraw, hcase⟩ := hq.method.orders o hmethod
    exact ⟨(hq.accepts h.finds.notCount h.finds.notDelete o hmethod).sortable hraw, hcase⟩
  · obtain ⟨hsortable, -, hcase⟩ := h.orders o hcall
    exact ⟨hsortable, hcase⟩
  · exact ⟨h.identifiers id hid, rfl⟩

theorem Scrollable.sortable_scrollSort (h : q.Scrollable a w) (hq : q.SetUp)
    (d : ScrollDirection) :
    ∀ o ∈ (q.scrollSort a d).orders, (q.creator none false).Sortable o ∧ o.ignoreCase = false := by
  intro o ho
  obtain ⟨o', ho', rfl | rfl⟩ := mem_scrollSort ho
  · exact h.sortable hq o ho'
  · obtain ⟨hsortable, hcase⟩ := h.sortable hq o' ho'
    exact ⟨Creator.sortable_reversed.2 hsortable, hcase⟩

/-! ### One window -/

/-- Which rows a method name selects does not depend on the cursor. -/
theorem matchesRow_behind (cursor : Cursor) (row : ρ) :
    q.matchesRow (a.behind cursor) db row = q.matchesRow a db row := by
  have hfacts (k : Nat) (parts : List Part) :
      q.facts (a.behind cursor) db row k parts = q.facts a db row k parts := by
    induction parts generalizing k with
    | nil => rfl
    | cons part parts ih => exact congrArg₂ List.cons rfl (ih _)
  have hfactsOf (k : Nat) (alternatives : List (List Part)) :
      q.factsOf (a.behind cursor) db row k alternatives = q.factsOf a db row k alternatives := by
    induction alternatives generalizing k with
    | nil => rfl
    | cons parts alternatives ih => exact congrArg₂ List.cons (hfacts k parts) (ih _)
  rw [matchesRow, matchesRow, hfactsOf]

theorem Scrollable.bounds (h : q.Scrollable a w) (cursor : Cursor) :
    q.bounds (a.behind cursor) = (none, some w) := by
  have hwindow := h.window
  have hpage : (a.behind cursor).page = .unpaged := h.unpaged
  have hlimit : (a.behind cursor).limit = a.limit := rfl
  unfold DerivedQuery.bounds requestedFirst requestedMax
  rw [hpage, hlimit, h.finds.notExists]
  cases hmethod : q.method.limit <;> rw [hmethod] at hwindow <;>
    simpa [limited, Arguments.behind, PageRequest.offset?, PageRequest.size?] using hwindow

theorem keysetSort_behind (cursor : Cursor) (arguments : Option Arguments) :
    (q.creator arguments false).keysetSort cursor a.sort = q.scrollSort a cursor.direction := rfl

/-- A call that scrolls is prepared, with its window as a bound. -/
theorem Scrollable.prepare (h : q.Scrollable a w) (hq : q.SetUp) {cursor : Cursor}
    (hcovers : Covers cursor (q.completeSort a).orders) :
    ∃ created p pss rows bs ks,
      (q.creator (some (a.behind cursor)) false).createKeyset cursor a.sort = .ok created ∧
      q.prepare (a.behind cursor) = (.ok p, q) ∧
      Prepares q (a.behind cursor) p created.query pss rows bs ks ∧
      p.sort = q.scrollSort a cursor.direction ∧ p.firstResult = none ∧
      p.maxResults = some (beyondWindow w) ∧ p.window = some w := by
  have hsort : (q.creator (some (a.behind cursor)) false).keysetSort cursor a.sort =
      q.scrollSort a cursor.direction := keysetSort_behind cursor _
  obtain ⟨_, haccepted⟩ := hq.accepted
  obtain ⟨created, hcreated⟩ :
      ∃ created, (q.creator (some (a.behind cursor)) false).createKeyset cursor a.sort =
        .ok created := by
    refine createKeyset_succeeds haccepted ?_ ?_
    · rw [hsort]
      exact fun o ho => (h.sortable_scrollSort hq _ o ho).1
    · rw [hsort]
      refine hcovers.imp_right fun hget => ?_
      exact (forall_scrollSort (P := fun p => ∃ v, cursor.get? p = some v) _).2 hget
  obtain ⟨pss, rows, bs, ks, hdescribes, hbindings⟩ := createKeyset_describes (a := a.behind cursor)
    h.returned hq.method.onAttributes (fun o ho => (hq.method.orders o ho).1)
    (fun o ho => (h.orders o ho).2.1) hcreated
  have hdescribes : Describes q (a.behind cursor) (q.scrollSort a cursor.direction) created.query
      pss rows bs ks := by
    rw [← hsort]
    exact hdescribes
  obtain ⟨binder, hbinder⟩ := binder_succeeds hdescribes.operands hdescribes.cursor.synthetic
  rw [← hbindings] at hbinder
  obtain ⟨r, hr⟩ : ∃ r, q.finish (q.creator (some (a.behind cursor)) false) created = .ok r :=
    ⟨_, finish_ok.2 ⟨binder, hbinder, rfl⟩⟩
  have hrender : q.renderKeyset cursor (a.behind cursor) = .ok r :=
    result_bind_ok.2 ⟨created, hcreated, hr⟩
  have hbounded : q.bounded (a.behind cursor) r (q.scrollSort a cursor.direction) =
      ⟨r, none, some (beyondWindow w), some w, q.scrollSort a cursor.direction⟩ := by
    rw [bounded, h.bounds cursor]
    rfl
  refine ⟨created, q.bounded (a.behind cursor) r (q.scrollSort a cursor.direction), pss, rows, bs,
    ks, hcreated, ?_, hdescribes.prepares hbindings hr, ?_⟩
  · change ((q.renderKeyset cursor (a.behind cursor)).map (q.bounded (a.behind cursor) ·
      ((q.creator (some (a.behind cursor)) false).keysetSort cursor a.sort)), q) = _
    rw [hrender, hsort]
    rfl
  · rw [hbounded]
    exact ⟨rfl, rfl, rfl, rfl⟩

variable {provider : Provider σ ρ} {held : σ → QueryParameter → Option Value}
  {request : σ → Request}

/-- The rows of a prepared query come from the table, in order and within the bounds. -/
theorem Prepares.rowsOf {p : PreparedQuery} {query : SelectQuery}
    {pss rows : List (List Predicate)} {bs ks : List ParameterBinding} {n : Nat}
    (h : Prepares q a p query pss rows bs ks)
    (hreturned : q.returned = .domain)
    (hfirst : p.firstResult = none) (hmax : p.maxResults = some n)
    (hanswers : provider.Answers held request db table query) :
    ∃ (values : Nat → Option Value) (results : List ρ),
      (∀ k b, (bs ++ ks)[k]? = some b → b.isNullTest = false →
        values (k + 1) = some (b.boundValue q.parameters a)) ∧
      results.Perm (table.filter (query.selects db values)) ∧
      results.Pairwise (query.compareRows db · · ≠ .gt) ∧
      DerivedQuery.rowsOf provider a p = .ok (results.take n) := by
  have htuple : p.rendered.tuple = false := by
    rw [h.tuple, hreturned]
    rfl
  have htakes : provider.Takes held p.rendered.query p.rendered.tuple
      (parametersOf query.predicate) := by
    rw [htuple, h.text]
    exact hanswers.takes
  have hdeclared : ∀ m ∈ boundPositions (bs ++ ks), m ∈ parametersOf query.predicate := by
    rw [h.describes.parameters]
    exact fun _ hm => hm
  obtain ⟨s, s', hcreate, hbind, hsets⟩ := h.bind_ok htakes hdeclared
  have hcreated : request s = { text := query.render } := by
    refine hanswers.create s ?_
    rw [← h.text, ← hcreate, htuple]
  have hkept := binder_keeps hanswers.set h.binder a s
  rw [hbind, hcreated] at hkept
  have hrequest : request (p.restricted provider s') = ⟨query.render, p.firstResult, p.maxResults⟩ :=
    PreparedQuery.request_restricted hanswers.setFirstResult hanswers.setMaxResults hkept
  have hrestricted : p.restricted provider s' = provider.setMaxResults n s' := by
    rw [PreparedQuery.restricted, hfirst, hmax]
  rw [hrestricted, hfirst, hmax] at hrequest
  obtain ⟨results, hperm, hsorted, hlist⟩ :=
    hanswers.resultList (provider.setMaxResults n s') (by rw [hrequest])
  refine ⟨_, results, fun k b hk hb => ?_, hperm, hsorted, ?_⟩
  · rw [htakes.setMaxResults]
    exact hsets k b hk hb
  · refine result_bind_ok.2 ⟨_, PreparedQuery.create_eq hcreate hbind, ?_⟩
    rw [hrestricted, hlist, hrequest]
    rfl

/-- The provider answers from the table whatever scrolling through it asks for, from the initial
position on or behind a row. -/
def AnswersScrolls (q : DerivedQuery) (a : Arguments) (provider : Provider σ ρ)
    (held : σ → QueryParameter → Option Value) (request : σ → Request) (db : Database ρ)
    (keyOf : ρ → String → Value) (table : List ρ) : Prop :=
  ∀ cursor, (cursor = .initial ∨ ∃ row ∈ table, cursor = q.cursorAt a keyOf row) → ∀ created,
    (q.creator (some (a.behind cursor)) false).createKeyset cursor a.sort = .ok created →
      provider.Answers held request db table created.query

/-- The window that a call returns when these rows are left. -/
def windowOf (q : DerivedQuery) (a : Arguments) (keyOf : ρ → String → Value) (w : Nat)
    (cursor : Cursor) (rows : List ρ) : Window ρ :=
  .ofResult (rows.take (beyondWindow w)) (some w) (.keyset cursor) (q.completeSort a) keyOf

/-- The window is the same whichever direction the sort goes in: its positions hold the same keys. -/
theorem ofResult_scrollSort (d : ScrollDirection) (keyOf : ρ → String → Value) (cursor : Cursor)
    (rows : List ρ) :
    Window.ofResult (rows.take (beyondWindow w)) (some w) (.keyset cursor) (q.scrollSort a d) keyOf =
      q.windowOf a keyOf w cursor rows := by
  have hkeys (row : ρ) : (q.scrollSort a d).orders.map (fun o => (o.property, keyOf row o.property)) =
      (q.completeSort a).orders.map fun o => (o.property, keyOf row o.property) := by
    cases d with
    | forward => rfl
    | backward => exact List.map_map
  simp only [windowOf, Window.ofResult, hkeys]

theorem Scrollable.results (h : q.Scrollable a w) (hq : q.SetUp) (hkeyed : q.Keyed a db keyOf table)
    {cursor : Cursor} (hcovers : Covers cursor (q.completeSort a).orders)
    (hanswers : ∀ created,
      (q.creator (some (a.behind cursor)) false).createKeyset cursor a.sort = .ok created →
        provider.Answers held request db table created.query) :
    ∃ (query : SelectQuery) (pss rows : List (List Predicate)) (bs ks : List ParameterBinding)
      (values : Nat → Option Value) (results : List ρ),
      Describes q (a.behind cursor) (q.scrollSort a cursor.direction) query pss rows bs ks ∧
      (∀ k b, (bs ++ ks)[k]? = some b → b.isNullTest = false →
        values (k + 1) = some (b.boundValue q.parameters (a.behind cursor))) ∧
      results.Perm (table.filter (query.selects db values)) ∧
      results.Pairwise (db.keyOrder keyOf (q.scrollSort a cursor.direction).orders · · ≠ .gt) ∧
      q.scroll provider (a.behind cursor) keyOf =
        (.ok (q.windowOf a keyOf w cursor results), q) := by
  obtain ⟨created, p, pss, rows, bs, ks, hcreated, hprepare, hprepares, hsort, hfirst, hmax,
    hwindow⟩ := h.prepare hq hcovers
  obtain ⟨values, results, hvalues, hperm, hsorted, hrows⟩ :=
    hprepares.rowsOf h.returned hfirst hmax (hanswers created hcreated)
  have hdescribes := hprepares.describes
  rw [hsort] at hdescribes
  have horders := hdescribes.orders
  rw [h.finds.notCount, h.finds.notDelete] at horders
  refine ⟨created.query, pss, rows, bs, ks, values, results, hdescribes, hvalues, hperm, ?_, ?_⟩
  · refine hsorted.imp_of_mem fun {r s} hr hs hrs => ?_
    have hr' := hkeyed.keys r (List.mem_of_mem_filter (hperm.mem_iff.1 hr))
    have hs' := hkeyed.keys s (List.mem_of_mem_filter (hperm.mem_iff.1 hs))
    rwa [← compareRows_eq horders (fun o ho => (h.sortable_scrollSort hq _ o ho).2)
      (hr'.scrollSort _) (hs'.scrollSort _)]
  · have hposition : (a.behind cursor).scroll = some (.keyset cursor) := rfl
    simp only [DerivedQuery.scroll, hposition, hprepare, Except.bind, hrows, hwindow, hsort]
    rw [← ofResult_scrollSort cursor.direction]
    rfl

/-- The first window of a scroll is taken from all rows that the method name selects. -/
theorem Scrollable.first (h : q.Scrollable a w) (hq : q.SetUp) (hkeyed : q.Keyed a db keyOf table)
    (hanswers : q.AnswersScrolls a provider held request db keyOf table) :
    ∃ results : List ρ, results.Perm (table.filter (q.matchesRow a db)) ∧
      results.Pairwise (db.keyOrder keyOf (q.completeSort a).orders · · ≠ .gt) ∧
      q.scroll provider (a.behind .initial) keyOf =
        (.ok (q.windowOf a keyOf w .initial results), q) := by
  obtain ⟨query, pss, rows, bs, ks, values, results, hdescribes, hvalues, hperm, hsorted, hscroll⟩ :=
    h.results hq hkeyed (.inl rfl) (hanswers .initial (.inl rfl))
  refine ⟨results, hperm.trans (List.Perm.of_eq (List.filter_congr fun r _ => ?_)), hsorted, hscroll⟩
  rw [hdescribes.selects_initial hq.method.conditions hvalues rfl, matchesRow_behind]

/-- Any other window is taken from those of them that come after the last row. -/
theorem Scrollable.behind (h : q.Scrollable a w) (hq : q.SetUp) (hkeyed : q.Keyed a db keyOf table)
    (hanswers : q.AnswersScrolls a provider held request db keyOf table) {last : ρ}
    (hlast : last ∈ table) :
    ∃ results : List ρ, results.Perm (table.filter fun r =>
        q.matchesRow a db r && db.keyOrder keyOf (q.completeSort a).orders last r == .lt) ∧
      results.Pairwise (db.keyOrder keyOf (q.completeSort a).orders · · ≠ .gt) ∧
      q.scroll provider (a.behind (q.cursorAt a keyOf last)) keyOf =
        (.ok (q.windowOf a keyOf w (q.cursorAt a keyOf last) results), q) := by
  have hget : ∀ o ∈ (q.completeSort a).orders,
      (q.cursorAt a keyOf last).get? o.property = some (keyOf last o.property) :=
    fun o ho => get?_cursorAt ho
  obtain ⟨query, pss, rows, bs, ks, values, results, hdescribes, hvalues, hperm, hsorted, hscroll⟩ :=
    h.results hq hkeyed (.inr fun o ho => ⟨_, hget o ho⟩)
      (hanswers (q.cursorAt a keyOf last) (.inr ⟨last, hlast, rfl⟩))
  refine ⟨results, hperm.trans (List.Perm.of_eq (List.filter_congr fun r hr => ?_)), hsorted, hscroll⟩
  obtain ⟨id, hid⟩ := List.exists_mem_of_ne_nil _ h.identified
  obtain ⟨o, ho, -⟩ := exists_order_of_id (a := a) hid
  rw [hdescribes.selects_behind hq.method.conditions hvalues (Cursor.isInitial_of_get? (hget o ho))
    (List.ne_nil_of_mem ho) hget (hkeyed.keys last hlast) (hkeyed.keys r hr)
    (hkeyed.swaps r hr last hlast), matchesRow_behind]
  rfl

theorem take_beyondWindow {rows : List ρ} (hrows : rows.length ≤ PageRequest.maxRows) :
    (rows.take (beyondWindow w)).take w = rows.take w := by
  unfold beyondWindow
  rw [List.take_take]
  by_cases hw : w ≤ PageRequest.maxRows
  · congr 1
    omega
  · rw [List.take_of_length_le (by omega), List.take_of_length_le (by omega)]

theorem content_windowOf {cursor : Cursor} (hforward : cursor.direction = .forward) {rows : List ρ}
    (hrows : rows.length ≤ PageRequest.maxRows) :
    (q.windowOf a keyOf w cursor rows).content = rows.take w := by
  simp only [windowOf, Window.ofResult, Window.content_ofRows, hforward]
  exact take_beyondWindow hrows

/-- The row that is read beyond a window tells whether more rows are left than it has. -/
theorem any_beyondWindow {rows : List ρ} (hrows : rows.length ≤ PageRequest.maxRows) :
    (some w).any (· < (rows.take (beyondWindow w)).length) = decide (w < rows.length) := by
  rw [List.length_take, beyondWindow, Option.any_some]
  exact decide_eq_decide.2 (by omega)

/-- More rows follow just if more are left than the window has. -/
theorem hasNext_windowOf {cursor : Cursor} {rows : List ρ}
    (hrows : rows.length ≤ PageRequest.maxRows) :
    (q.windowOf a keyOf w cursor rows).hasNext = decide (w < rows.length) :=
  any_beyondWindow hrows

theorem lastPosition?_windowOf {cursor : Cursor} (hforward : cursor.direction = .forward)
    {rows front : List ρ} {last : ρ} (hrows : rows.length ≤ PageRequest.maxRows)
    (hlast : rows.take w = front ++ [last]) :
    (q.windowOf a keyOf w cursor rows).lastPosition? =
      some (.keyset (q.cursorAt a keyOf last)) := by
  have hcontent : ScrollDirection.forward.cutRows w (rows.take (beyondWindow w)) = front ++ [last] :=
    (take_beyondWindow hrows).trans hlast
  simp only [windowOf, Window.ofResult, Window.lastPosition?, Window.ofRows, hforward,
    Option.getD_some, ScrollDirection.forwardRows, hcontent]
  simp [List.zipIdx_append, cursorAt]

/-! ### A whole scroll -/

/-- The windows of a scroll from a position on. As long as more rows follow, the next window is
fetched from the last position of the one before. -/
inductive Scrolls (provider : Provider σ ρ) (a : Arguments) (keyOf : ρ → String → Value) :
    DerivedQuery → ScrollPosition → List (Window ρ) → Prop
  | last {q q' : DerivedQuery} {position : ScrollPosition} {window : Window ρ}
      (h : q.scroll provider { a with scroll := some position } keyOf = (.ok window, q'))
      (hnext : window.hasNext = false) : Scrolls provider a keyOf q position [window]
  | next {q q' : DerivedQuery} {position position' : ScrollPosition} {window : Window ρ}
      {windows : List (Window ρ)}
      (h : q.scroll provider { a with scroll := some position } keyOf = (.ok window, q'))
      (hnext : window.hasNext = true) (hposition : window.lastPosition? = some position')
      (hrest : Scrolls provider a keyOf q' position' windows) :
      Scrolls provider a keyOf q position (window :: windows)

/-- There is only one way to scroll. -/
theorem Scrolls.unique {position : ScrollPosition} {windows windows' : List (Window ρ)}
    (h : Scrolls provider a keyOf q position windows)
    (h' : Scrolls provider a keyOf q position windows') : windows = windows' := by
  induction h generalizing windows' with
  | last hwindow hnext =>
    cases h' with
    | last hwindow' hnext' =>
      obtain ⟨hsame, -⟩ := Prod.mk.inj (hwindow.symm.trans hwindow')
      rw [Except.ok.inj hsame]
    | next hwindow' hnext' =>
      obtain ⟨hsame, -⟩ := Prod.mk.inj (hwindow.symm.trans hwindow')
      rw [Except.ok.inj hsame, hnext'] at hnext
      cases hnext
  | next hwindow hnext hposition _ ih =>
    cases h' with
    | last hwindow' hnext' =>
      obtain ⟨hsame, -⟩ := Prod.mk.inj (hwindow.symm.trans hwindow')
      rw [Except.ok.inj hsame, hnext'] at hnext
      cases hnext
    | next hwindow' hnext' hposition' hrest' =>
      obtain ⟨hsame, rfl⟩ := Prod.mk.inj (hwindow.symm.trans hwindow')
      obtain rfl := Except.ok.inj hsame
      obtain rfl := Option.some.inj (hposition.symm.trans hposition')
      rw [ih hrest']

/-- From a position that leaves `rest`, a scroll goes through just `rest`. -/
theorem Scrollable.scrolls (h : q.Scrollable a w) (hq : q.SetUp) (hkeyed : q.Keyed a db keyOf table)
    (hanswers : q.AnswersScrolls a provider held request db keyOf table) {before rest : List ρ}
    (hperm : (before ++ rest).Perm (table.filter (q.matchesRow a db)))
    (hsorted : (before ++ rest).Pairwise
      (db.keyOrder keyOf (q.completeSort a).orders · · = .lt)) {cursor : Cursor}
    (hforward : cursor.direction = .forward)
    (hscroll : q.scroll provider (a.behind cursor) keyOf =
      (.ok (q.windowOf a keyOf w cursor rest), q)) :
    ∃ windows, Scrolls provider a keyOf q (.keyset cursor) windows ∧
      windows.flatMap Window.content = rest := by
  have hsize : (before ++ rest).length ≤ PageRequest.maxRows := by
    rw [hperm.length_eq]
    exact (List.length_filter_le _ _).trans hkeyed.size
  have hrest : rest.length ≤ PageRequest.maxRows := by
    rw [List.length_append] at hsize
    omega
  -- Each window has a row at least, so that less is left behind it.
  induction hn : rest.length using Nat.strong_induction_on generalizing before rest cursor with
  | _ n ih =>
    subst hn
    have hcontent : (q.windowOf a keyOf w cursor rest).content = rest.take w :=
      content_windowOf hforward hrest
    by_cases hmore : w < rest.length
    · have hpos := h.positive
      have htake : rest.take w ≠ [] := by
        rw [← List.length_pos_iff, List.length_take]
        omega
      obtain ⟨front, last, hlast⟩ : ∃ front last, rest.take w = front ++ [last] :=
        ⟨_, _, (List.dropLast_append_getLast htake).symm⟩
      have hsplit : before ++ rest = (before ++ front) ++ last :: rest.drop w := by
        conv_lhs => rw [← List.take_append_drop w rest, hlast]
        simp
      have hmem : last ∈ table := by
        refine List.mem_of_mem_filter (hperm.mem_iff.1 ?_)
        rw [hsplit]
        simp
      obtain ⟨results, hresults, hresults', hnext⟩ := h.behind hq hkeyed hanswers hmem
      rw [hsplit] at hperm hsorted hsize
      have hsame : results = rest.drop w := hkeyed.eq_rest hperm hsorted hresults hresults'
      rw [hsame] at hnext
      have hregroup : (before ++ front) ++ last :: rest.drop w =
          (before ++ front ++ [last]) ++ rest.drop w := by simp
      rw [hregroup] at hperm hsorted hsize
      obtain ⟨windows, hwindows, hall⟩ := ih (rest.drop w).length
        (by rw [List.length_drop]; omega) hperm hsorted rfl hnext hsize
        (by rw [List.length_drop]; omega) rfl
      refine ⟨q.windowOf a keyOf w cursor rest :: windows, .next hscroll ?_
        (lastPosition?_windowOf hforward hrest hlast) hwindows, ?_⟩
      · rw [hasNext_windowOf hrest]
        exact decide_eq_true hmore
      · rw [List.flatMap_cons, hcontent, hall, List.take_append_drop]
    · refine ⟨[q.windowOf a keyOf w cursor rest], .last hscroll ?_, ?_⟩
      · rw [hasNext_windowOf hrest]
        exact decide_eq_false hmore
      · rw [List.flatMap_singleton, hcontent, List.take_of_length_le (by omega)]

/-- Scrolling from the initial position ends, in one way only, and its windows are the rows that the
method name selects, in order and without loss or repetition. -/
theorem scroll_visits_once (hq : q.Reachable) (h : q.Scrollable a w)
    (hkeyed : q.Keyed a db keyOf table)
    (hanswers : q.AnswersScrolls a provider held request db keyOf table) :
    ∃ windows, (∀ windows',
        Scrolls provider a keyOf q (.keyset .initial) windows' ↔ windows' = windows) ∧
      (windows.flatMap Window.content).Perm (table.filter (q.matchesRow a db)) ∧
      (windows.flatMap Window.content).Pairwise
        (db.keyOrder keyOf (q.completeSort a).orders · · = .lt) := by
  obtain ⟨results, hperm, hsorted, hscroll⟩ := h.first hq.setUp hkeyed hanswers
  have hall : ([] ++ results).Perm (table.filter (q.matchesRow a db)) := hperm
  have hstrict : (([] : List ρ) ++ results).Pairwise
      (db.keyOrder keyOf (q.completeSort a).orders · · = .lt) := hkeyed.sorted hperm hsorted
  obtain ⟨windows, hwindows, rfl⟩ := h.scrolls hq.setUp hkeyed hanswers hall hstrict rfl hscroll
  refine ⟨windows, fun windows' => ⟨fun hw => hw.unique hwindows, ?_⟩, hall, hstrict⟩
  rintro rfl
  exact hwindows

/-- No window can be fetched unless all orders name properties. -/
theorem sortable_of_scroll (hq : q.SetUp) (hfinds : Finds q.method)
    (hraw : ∀ o ∈ a.sort.orders, o.rawExpression = false) {cursor : Cursor} {window : Window ρ}
    {q' : DerivedQuery} (h : q.scroll provider (a.behind cursor) keyOf = (.ok window, q')) :
    ∀ o ∈ (q.scrollSort a cursor.direction).orders, (q.creator none false).Sortable o := by
  have hsort : (q.creator (some (a.behind cursor)) false).keysetSort cursor a.sort =
      q.scrollSort a cursor.direction := keysetSort_behind cursor _
  have hprepared : (q.renderKeyset cursor (a.behind cursor)).map (q.bounded (a.behind cursor) ·
      (q.scrollSort a cursor.direction)) >>= (fun p => do
        let rows ← DerivedQuery.rowsOf provider (a.behind cursor) p
        return Window.ofResult rows p.window (.keyset cursor) p.sort keyOf) = .ok window := by
    rw [← hsort]
    exact congrArg Prod.fst h
  obtain ⟨p, hp, -⟩ := result_bind_ok.1 hprepared
  obtain ⟨r, hr, -⟩ := result_map_ok.1 hp
  obtain ⟨created, hcreated, -⟩ := result_bind_ok.1 hr
  obtain ⟨base, hbase, -⟩ := result_bind_ok.1 hcreated
  have hcomplete : ∀ o ∈ (q.completeSort a).orders, o.rawExpression = false := by
    intro o ho
    rcases mem_completeSort.1 ho with hmethod | hcall | ⟨id, -, -, rfl⟩
    · exact (hq.method.orders o hmethod).1
    · exact hraw o hcall
    · rfl
  have hall : ∀ o ∈ (q.scrollSort a cursor.direction).orders, o.rawExpression = false := by
    intro o ho
    obtain ⟨o', ho', rfl | rfl⟩ := mem_scrollSort ho
    · exact hcomplete o ho'
    · exact hcomplete o' ho'
  rw [← hsort] at hall ⊢
  exact createSorted_sortable (c := q.creator (some (a.behind cursor)) false) hfinds rfl hall hbase

/-! ### Users by name -/

def scrolledUser (id : String) : ManagedType :=
  { name := "app.User", entityName := "User", isEntity := true
    attributes := [.id id .long, .basic "name" .string, .basic "age" .integer] }

def scrolledParameters : MethodParameters :=
  ⟨"findTop1ByAgeOrderByName", [⟨0, some "age", .bindable .integer, none⟩]⟩

def scrolledMethod : MethodName :=
  { limit := some 1
    alternatives := [[
      { source := "Age", operator := .simpleProperty
        property := ⟨[⟨"app.User", .basic "age" .integer⟩], List.cons_ne_nil _ _⟩ }]]
    sort := ⟨[{ property := "name" }]⟩ }

def scrolledQuery (id : String) : DerivedQuery :=
  { method := scrolledMethod, entity := scrolledUser id
    metamodel := ⟨[scrolledUser id]⟩, parameters := scrolledParameters }

def scrolledArguments : Arguments := { values := [(none, .int 7)] }

theorem parse_scrolled {id : String} (h : id = "id" ∨ id = "user_id") :
    MethodName.parse ⟨[scrolledUser id]⟩ (scrolledUser id) "findTop1ByAgeOrderByName" =
      .ok scrolledMethod := by
  rcases h with rfl | rfl <;> cbv

theorem accepted_scrolled {id : String} (h : id = "id" ∨ id = "user_id") :
    (((scrolledQuery id).creator none false).create .unsorted).toOption.map (·.bindings.length) =
      some 1 := by
  rcases h with rfl | rfl <;> cbv

theorem create_scrolled {id : String} (h : id = "id" ∨ id = "user_id") :
    DerivedQuery.create "findTop1ByAgeOrderByName" "app.User" ⟨[scrolledUser id]⟩
      scrolledParameters = .ok (scrolledQuery id) := by
  have hentity : Metamodel.entity? ⟨[scrolledUser id]⟩ "app.User" = some (scrolledUser id) := rfl
  obtain ⟨created, hcreated, -⟩ := exists_of_toOption_map (accepted_scrolled h)
  unfold DerivedQuery.create
  rw [hentity]
  exact result_bind_ok.2 ⟨scrolledMethod, parse_scrolled h, result_bind_ok.2 ⟨(), rfl,
    result_bind_ok.2 ⟨created, hcreated, rfl⟩⟩⟩

/-- An identifier such as `user_id`, whose name reads as two properties, cannot be sorted by: the
query is set up, but no scroll succeeds. -/
theorem divided_identifier_fails : ∃ q,
    DerivedQuery.create "findTop1ByAgeOrderByName" "app.User" ⟨[scrolledUser "user_id"]⟩
      scrolledParameters = .ok q ∧
    q.returned = .domain ∧ Finds q.method ∧ q.entity.idAttributes ≠ [] ∧
    scrolledArguments.sort.orders = [] ∧ scrolledArguments.page = .unpaged ∧
    q.method.limit.or scrolledArguments.limit = some 1 ∧
    ∀ (σ ρ : Type) (provider : Provider σ ρ) (keyOf : ρ → String → Value)
      (windows : List (Window ρ)),
      ¬ Scrolls provider scrolledArguments keyOf q (.keyset .initial) windows := by
  refine ⟨_, create_scrolled (.inr rfl), rfl, ⟨rfl, rfl, rfl⟩, by decide, rfl, rfl, rfl, ?_⟩
  intro σ ρ provider keyOf windows hscrolls
  have hsetUp : (scrolledQuery "user_id").SetUp := (create_setUp (create_scrolled (.inr rfl))).1
  have hid : ({ property := "user_id" } : Order) ∈
      ((scrolledQuery "user_id").completeSort scrolledArguments).orders := by decide
  have hunknown : (PropertyPath.ofSource ⟨[scrolledUser "user_id"]⟩ (scrolledUser "user_id")
      "user_id").toOption.map PropertyPath.toDotPath = none := by
    cbv
  have hfails {window : Window ρ} {q' : DerivedQuery}
      (h : (scrolledQuery "user_id").scroll provider (scrolledArguments.behind .initial) keyOf =
        (.ok window, q')) : False := by
    obtain ⟨-, p, hp⟩ := sortable_of_scroll hsetUp ⟨rfl, rfl, rfl⟩ (by decide) h _ hid
    have hp : PropertyPath.ofSource ⟨[scrolledUser "user_id"]⟩ (scrolledUser "user_id")
        "user_id" = .ok p := hp
    rw [hp] at hunknown
    cases hunknown
  cases hscrolls with
  | last h => exact hfails h
  | next h => exact hfails h

def scrolledRow (id : Int) (name : String) (age : Int) : MemoryRow :=
  [("id", .int id), ("name", .text name), ("age", .int age)]

/-- Two users share their name, and one is too old. -/
def scrolledTable : List MemoryRow :=
  [scrolledRow 1 "a" 7, scrolledRow 2 "a" 7, scrolledRow 4 "a" 8, scrolledRow 3 "b" 7]

def scrolledOrders : List OrderExpression :=
  [⟨.path ⟨.root, "name", "name"⟩, { property := "name" }⟩,
    ⟨.path ⟨.root, "id", "id"⟩, { property := "id" }⟩]

def scrolledFirst : SelectQuery :=
  { entityName := "User", aliasName := "u", orders := scrolledOrders
    predicate := some (.compare (.path ⟨.root, "age", "age"⟩) "=" (.parameter 1)) }

def scrolledBehind : SelectQuery :=
  { scrolledFirst with
    predicate := some (.and
      (.nested (.compare (.path ⟨.root, "age", "age"⟩) "=" (.parameter 1)))
      (.nested (.or
        (.nested (.compare (.path ⟨.root, "name", "name"⟩) ">" (.parameter 2)))
        (.nested (.and
          (.compare (.path ⟨.root, "name", "name"⟩) "=" (.parameter 3))
          (.compare (.path ⟨.root, "id", "id"⟩) ">" (.parameter 4))))))) }

/-- What is created for the start of the scroll. -/
theorem createKeyset_scrolledFirst :
    (((scrolledQuery "id").creator (some (scrolledArguments.behind .initial))
      false).createKeyset .initial scrolledArguments.sort).toOption.map (·.query) =
        some scrolledFirst := by
  cbv

/-- What is created for going on behind a row. -/
theorem createKeyset_scrolledBehind {cursor : Cursor} {id age : Int} {name : String}
    (hcursor : cursor = (scrolledQuery "id").cursorAt scrolledArguments MemoryRow.value
      (scrolledRow id name age)) :
    (((scrolledQuery "id").creator (some (scrolledArguments.behind cursor))
      false).createKeyset cursor scrolledArguments.sort).toOption.map (·.query) =
        some scrolledBehind := by
  obtain rfl : cursor = ⟨[("name", .text name), ("id", .int id)], .forward⟩ := hcursor
  cbv

theorem render_scrolledBehind_ne : scrolledBehind.render ≠ scrolledFirst.render := by
  decide +kernel

theorem completeSort_scrolled : ((scrolledQuery "id").completeSort scrolledArguments).orders =
    [{ property := "name" }, { property := "id" }] := by
  decide

theorem ofSource_scrolled {o : Order}
    (h : o ∈ ((scrolledQuery "id").completeSort scrolledArguments).orders) :
    ∃ p, PropertyPath.ofSource ⟨[scrolledUser "id"]⟩ (scrolledUser "id") o.property = .ok p ∧
      p.toDotPath = o.property := by
  rw [completeSort_scrolled] at h
  simp only [List.mem_cons, List.not_mem_nil, or_false] at h
  apply exists_of_toOption_map
  rcases h with rfl | rfl <;> cbv

theorem scrollable_scrolled : (scrolledQuery "id").Scrollable scrolledArguments 1 where
  returned := rfl
  finds := ⟨rfl, rfl, rfl⟩
  identified := by decide
  identifiers := by
    have hids : (scrolledQuery "id").entity.idAttributes = [.id "id" .long] := by decide
    intro id hid
    rw [hids, List.mem_singleton] at hid
    subst hid
    obtain ⟨p, hp, -⟩ := ofSource_scrolled (o := { property := "id" }) (by decide)
    exact ⟨rfl, p, hp⟩
  orders := by simp [scrolledArguments, Arguments.sort, PageRequest.sort, Sorting.unsorted]
  unpaged := rfl
  window := rfl
  positive := by decide

theorem keyed_scrolled : (scrolledQuery "id").Keyed scrolledArguments recordDatabase
    MemoryRow.value scrolledTable where
  keys := by
    refine fun r hr => ⟨fun o ho p hp => ?_, ?_⟩
    · obtain ⟨p', hp', hpath⟩ := ofSource_scrolled ho
      obtain rfl := Except.ok.inj (hp'.symm.trans hp)
      rw [← hpath]
      rfl
    · revert r
      decide
  swaps := by
    unfold Database.Swaps
    decide
  distinct := by decide
  size := by decide

/-- The provider that knows both queries answers whatever a scroll through the users asks for. -/
theorem answersScrolls_scrolled : (scrolledQuery "id").AnswersScrolls scrolledArguments
    (tableProvider recordDatabase scrolledTable [scrolledFirst, scrolledBehind]) TableQuery.held
    TableQuery.request recordDatabase MemoryRow.value scrolledTable := by
  have hanswers : ∀ q ∈ [scrolledFirst, scrolledBehind],
      (tableProvider recordDatabase scrolledTable [scrolledFirst, scrolledBehind]).Answers
        TableQuery.held TableQuery.request recordDatabase scrolledTable q := by
    intro q hq
    refine tableProvider_answers hq ?_ ?_
    · intro q' hq' hrender
      simp only [List.mem_cons, List.not_mem_nil, or_false] at hq hq'
      rcases hq with rfl | rfl <;> rcases hq' with rfl | rfl
      · rfl
      · exact absurd hrender render_scrolledBehind_ne
      · exact absurd hrender.symm render_scrolledBehind_ne
      · rfl
    · revert q
      decide
  rintro cursor (rfl | ⟨row, hrow, hcursor⟩) created hcreated
  · have hquery := createKeyset_scrolledFirst
    rw [hcreated] at hquery
    rw [← Option.some.inj hquery] at hanswers ⊢
    exact hanswers created.query (by simp)
  · obtain ⟨id, name, age, rfl⟩ : ∃ id name age, row = scrolledRow id name age := by
      simp only [scrolledTable, List.mem_cons, List.not_mem_nil, or_false] at hrow
      rcases hrow with rfl | rfl | rfl | rfl <;> exact ⟨_, _, _, rfl⟩
    have hquery := createKeyset_scrolledBehind hcursor
    rw [hcreated] at hquery
    rw [← Option.some.inj hquery] at hanswers ⊢
    exact hanswers created.query (by simp)

/-- Users of one age are visited window by window, though they share names. -/
theorem scroll_visits_users :
    scrolledTable.filter ((scrolledQuery "id").matchesRow scrolledArguments recordDatabase) =
      [scrolledRow 1 "a" 7, scrolledRow 2 "a" 7, scrolledRow 3 "b" 7] ∧
    ∃ windows, (∀ windows',
        Scrolls (tableProvider recordDatabase scrolledTable [scrolledFirst, scrolledBehind])
          scrolledArguments MemoryRow.value (scrolledQuery "id") (.keyset .initial) windows' ↔
            windows' = windows) ∧
      (windows.flatMap Window.content).Perm
        (scrolledTable.filter ((scrolledQuery "id").matchesRow scrolledArguments recordDatabase)) ∧
      (windows.flatMap Window.content).Pairwise (recordDatabase.keyOrder MemoryRow.value
        ((scrolledQuery "id").completeSort scrolledArguments).orders · · = .lt) :=
  ⟨rfl, scroll_visits_once (.create (create_scrolled (.inl rfl))) scrollable_scrolled keyed_scrolled
    answersScrolls_scrolled⟩

end DerivedQuery

end Jpql
