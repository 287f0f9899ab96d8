import Jpql.Proofs.Derived.Cache
import Jpql.Proofs.Derived.Keyset

/-! What a derived query prepares for a call, whether it scrolls or not. The query has the conditions
of the method name and the comparisons with the cursor, the operands of the conditions come before
the values of the cursor, and the rows are sorted as the prepared sort says. -/

namespace Jpql

open Derived MethodName
open Step (result_bind_ok result_map_ok result_pure_ok)

/-- The cursor that a call scrolls on from; the initial one if it does not scroll by keyset. -/
def Arguments.cursor (a : Arguments) : Cursor :=
  match a.scroll with
  | some (.keyset c) => c
  | _ => .initial

namespace DerivedQuery

/-- What the query of a call consists of. The predicates of the conditions are `pss`, one list for
each alternative, and take the bindings `bs`; those of the cursor are `rows` and take `ks`. -/
structure Describes (q : DerivedQuery) (a : Arguments) (sort : Sorting) (query : SelectQuery)
    (pss rows : List (List Predicate)) (bs ks : List ParameterBinding) : Prop where
  entityName : query.entityName = q.entity.entityName
  aliasName : query.aliasName = (initial? q.entity.simpleName.toList).getD "r"
  joined : Joined q.metamodel query.joins
  selection : Selects (q.creator (some a) false) query query.selection
  distinct : query.distinct = (q.method.distinct && !q.method.isDelete)
  predicate : query.predicate =
    together (joinPredicates .or ((pss.map (joinPredicates .and)).filterMap id))
      (cursorPredicate rows)
  alternatives : pss.map List.length = q.method.alternatives.map List.length
  conditions : Conditions q.options (q.creator (some a) false).source query 0 q.method.parts
    pss.flatten
  operands : BindsAll (q.creator (some a) false).source 0 (operands q.method) bs
  comparisons : rows.map List.length = (Derived.rowsOf a.cursor sort).map List.length
  cursor : CursorAtoms q.metamodel q.entity a.cursor query bs.length
    (Derived.rowsOf a.cursor sort).flatten rows.flatten ks
  orders : if q.method.isCount || q.method.isDelete then query.orders = []
    else List.Forall₂ (SortsOn (q.creator (some a) false) query) sort.orders query.orders

variable {q : DerivedQuery} {a : Arguments} {sort : Sorting}

theorem describes {base : Created} {query : SelectQuery} {rows : List (List Predicate)}
    {ks : List ParameterBinding} (hcreates : Creates (q.creator (some a) false) sort base)
    (hgrows : Grows q.metamodel base.query query)
    (hrows : rows.map List.length = (Derived.rowsOf a.cursor sort).map List.length)
    (hcursor : CursorAtoms q.metamodel q.entity a.cursor query base.bindings.length
      (Derived.rowsOf a.cursor sort).flatten rows.flatten ks) :
    ∃ pss, Describes q a sort
      { query with predicate := together base.query.predicate (cursorPredicate rows) } pss rows
      base.bindings ks := by
  obtain ⟨js, n, hquery⟩ := (hgrows.spec hcreates.joined.wellJoined).1
  have hsame : query.entityName = base.query.entityName ∧ query.aliasName = base.query.aliasName ∧
      query.selection = base.query.selection ∧ query.distinct = base.query.distinct ∧
      query.orders = base.query.orders ∧ base.query.joins <+: query.joins := by
    rw [hquery]
    exact ⟨rfl, rfl, rfl, rfl, rfl, List.prefix_append _ _⟩
  obtain ⟨hentity, halias, hselection, hdistinct, horders, hmono⟩ := hsame
  obtain ⟨pss, hpredicate, hlengths, hconditions⟩ := hcreates.predicate
  have hsorts : if q.method.isCount || q.method.isDelete then base.query.orders = []
      else List.Forall₂ (SortsOn (q.creator (some a) false) base.query) sort.orders
        base.query.orders := hcreates.orders
  exact ⟨pss, {
    entityName := hentity.trans hcreates.entityName
    aliasName := halias.trans hcreates.aliasName
    joined := hgrows.joined hcreates.joined
    selection := by
      change Selects _ _ query.selection
      rw [hselection]
      exact hcreates.selection.mono hmono
    distinct := hdistinct.trans hcreates.distinct
    predicate := by rw [hpredicate]
    alternatives := hlengths
    conditions := hconditions.mono hmono
    operands := hcreates.bindings
    comparisons := hrows
    cursor := hcursor.mono (List.prefix_refl _)
    orders := by
      change if _ then query.orders = [] else List.Forall₂ _ _ query.orders
      rw [horders]
      split at hsorts
      next hnone => rwa [if_pos hnone]
      next hsome =>
        rw [if_neg hsome]
        exact hsorts.imp fun _ _ h => h.mono hmono }⟩

theorem finish_ok {c : Creator} {created : Created} {r : RenderedQuery} :
    q.finish c created = .ok r ↔ ∃ binder, ParameterBinder.of c.parameters created.bindings =
      .ok binder ∧ r = ⟨created.query.render, created.bindings, binder, q.returned.usesTuple⟩ := by
  unfold finish
  simp only [result_bind_ok, result_pure_ok, Creator.binder, @eq_comm _ r]

/-- The query of a call is rendered from one that the call describes. -/
structure Prepares (q : DerivedQuery) (a : Arguments) (p : PreparedQuery) (query : SelectQuery)
    (pss rows : List (List Predicate)) (bs ks : List ParameterBinding) : Prop where
  describes : Describes q a p.sort query pss rows bs ks
  bounded : p = q.bounded a p.rendered p.sort
  text : p.rendered.query = query.render
  bindings : p.rendered.bindings = bs ++ ks
  binder : ParameterBinder.of q.parameters (bs ++ ks) = .ok p.rendered.binder
  tuple : p.rendered.tuple = q.returned.usesTuple

theorem rawExpression_keysetSort (c : Creator) (cursor : Cursor) (sort : Sorting)
    (hmethod : ∀ o ∈ c.method.sort.orders, o.rawExpression = false)
    (hsort : ∀ o ∈ sort.orders, o.rawExpression = false) :
    ∀ o ∈ (c.keysetSort cursor sort).orders, o.rawExpression = false := by
  unfold Creator.keysetSort ScrollDirection.completeSort
  extract_lets missing complete
  have hcomplete : ∀ o ∈ complete.orders, o.rawExpression = false := by
    intro o ho
    simp only [complete, Sorting.orders_and, List.mem_append, or_assoc] at ho
    rcases ho with ho | ho | ho
    · exact hmethod o ho
    · exact hsort o ho
    · obtain ⟨property, -, rfl⟩ := List.mem_map.1 ho
      rfl
  split
  · exact hcomplete
  · intro o ho
    obtain ⟨o', ho', rfl⟩ := List.mem_map.1 ho
    exact hcomplete o' ho'

@[simp] theorem rendered_bounded (q : DerivedQuery) (a : Arguments) (r : RenderedQuery)
    (sort : Sorting) : (q.bounded a r sort).rendered = r := by
  simp only [bounded]
  split <;> rfl

@[simp] theorem sort_bounded (q : DerivedQuery) (a : Arguments) (r : RenderedQuery)
    (sort : Sorting) : (q.bounded a r sort).sort = sort := by
  simp only [bounded]
  split <;> rfl

theorem Describes.prepares {created : Created} {r : RenderedQuery}
    {pss rows : List (List Predicate)} {bs ks : List ParameterBinding}
    (h : Describes q a sort created.query pss rows bs ks) (hbindings : created.bindings = bs ++ ks)
    (hr : q.finish (q.creator (some a) false) created = .ok r) :
    Prepares q a (q.bounded a r sort) created.query pss rows bs ks := by
  obtain ⟨binder, hbinder, rfl⟩ := finish_ok.1 hr
  refine ⟨?_, ?_, ?_, ?_, ?_, ?_⟩
  · rwa [sort_bounded]
  · rw [rendered_bounded, sort_bounded]
  · rw [rendered_bounded]
  · rw [rendered_bounded]
    exact hbindings
  · rw [rendered_bounded, ← hbindings]
    exact hbinder
  · rw [rendered_bounded]

theorem rawExpression_and {s t : Sorting} (hs : ∀ o ∈ s.orders, o.rawExpression = false)
    (ht : ∀ o ∈ t.orders, o.rawExpression = false) :
    ∀ o ∈ (s.and t).orders, o.rawExpression = false :=
  fun o ho => (List.mem_append.1 ho).elim (hs o) (ht o)

theorem render_prepares {r : RenderedQuery} (hq : q.returned = .domain)
    (hparts : OnAttributes q.metamodel q.method.parts)
    (hmethod : ∀ o ∈ q.method.sort.orders, o.rawExpression = false)
    (hsort : ∀ o ∈ a.sort.orders, o.rawExpression = false) (hcursor : a.cursor = .initial)
    (h : q.render a.sort a false = .ok r) :
    ∃ query pss rows bs ks, Prepares q a (q.bounded a r (q.method.sort.and a.sort)) query pss rows
      bs ks := by
  obtain ⟨created, hcreated, hr⟩ := result_bind_ok.1 h
  have hcreates : Creates (q.creator (some a) false) (q.method.sort.and a.sort) created :=
    createSorted_creates hq hparts (rawExpression_and hmethod hsort) hcreated
  obtain ⟨pss, hdescribes⟩ := @describes _ _ _ _ _ [] _ hcreates .refl (by rw [hcursor]; rfl)
    (by rw [hcursor]; exact .nil _)
  have htogether : together created.query.predicate (cursorPredicate []) =
      created.query.predicate := by
    cases created.query.predicate <;> rfl
  rw [htogether] at hdescribes
  exact ⟨_, pss, [], _, [], hdescribes.prepares (by simp) hr⟩

theorem createKeyset_describes {created : Created} (hq : q.returned = .domain)
    (hparts : OnAttributes q.metamodel q.method.parts)
    (hmethod : ∀ o ∈ q.method.sort.orders, o.rawExpression = false)
    (hsort : ∀ o ∈ a.sort.orders, o.rawExpression = false)
    (h : (q.creator (some a) false).createKeyset a.cursor a.sort = .ok created) :
    ∃ pss rows bs ks, Describes q a ((q.creator (some a) false).keysetSort a.cursor a.sort)
      created.query pss rows bs ks ∧ created.bindings = bs ++ ks := by
  obtain ⟨base, query, rows, ks, hcreates, hgrows, rfl, hrows, hatoms⟩ :=
    createKeyset_compares hq hparts (rawExpression_keysetSort _ _ _ hmethod hsort) h
  obtain ⟨pss, hdescribes⟩ := describes hcreates hgrows hrows hatoms
  exact ⟨pss, rows, base.bindings, ks, hdescribes, rfl⟩

theorem renderKeyset_prepares {r : RenderedQuery} {cursor : Cursor} (hq : q.returned = .domain)
    (hparts : OnAttributes q.metamodel q.method.parts)
    (hmethod : ∀ o ∈ q.method.sort.orders, o.rawExpression = false)
    (hsort : ∀ o ∈ a.sort.orders, o.rawExpression = false) (hcursor : a.cursor = cursor)
    (h : q.renderKeyset cursor a = .ok r) :
    ∃ query pss rows bs ks, Prepares q a
      (q.bounded a r ((q.creator (some a) false).keysetSort cursor a.sort)) query pss rows bs ks := by
  subst hcursor
  obtain ⟨created, hcreated, hr⟩ := result_bind_ok.1 h
  obtain ⟨pss, rows, bs, ks, hdescribes, hbindings⟩ :=
    createKeyset_describes hq hparts hmethod hsort hcreated
  exact ⟨_, pss, rows, bs, ks, hdescribes.prepares hbindings hr⟩

/-- Whatever a call prepares is rendered from a query that the call describes. -/
theorem prepared_prepares {p : PreparedQuery} (hq : q.returned = .domain)
    (hparts : OnAttributes q.metamodel q.method.parts)
    (hmethod : ∀ o ∈ q.method.sort.orders, o.rawExpression = false)
    (hsort : ∀ o ∈ a.sort.orders, o.rawExpression = false) (h : q.prepared a = .ok p) :
    ∃ query pss rows bs ks, Prepares q a p query pss rows bs ks := by
  unfold prepared at h
  have hcursor : a.cursor = match a.scroll with
      | some (.keyset c) => c
      | _ => .initial := rfl
  rcases hscroll : a.scroll with _ | last | cursor <;> rw [hscroll] at h hcursor
  · obtain ⟨r, hr, rfl⟩ := result_map_ok.1 h
    exact render_prepares hq hparts hmethod hsort hcursor hr
  · obtain ⟨r, hr, rfl⟩ := result_map_ok.1 h
    exact render_prepares hq hparts hmethod hsort hcursor hr
  · obtain ⟨r, hr, rfl⟩ := result_map_ok.1 h
    exact renderKeyset_prepares hq hparts hmethod hsort hcursor hr

/-! ### Queries as they are set up -/

/-- What setting up a query guarantees. -/
structure SetUp (q : DerivedQuery) : Prop where
  entity : q.entity ∈ q.metamodel.types
  method : q.method.WellFormed q.metamodel
  accepted : ∃ created, (q.creator none false).create .unsorted = .ok created

theorem check_ok {q' : DerivedQuery} (h : q.check = .ok q') :
    q' = q ∧ ∃ created, (q.creator none false).create .unsorted = .ok created := by
  obtain ⟨created, hcreated, h⟩ := result_bind_ok.1 h
  exact ⟨(result_pure_ok.1 h).symm, created, hcreated⟩

theorem create_setUp {name entityName : String} {m : Metamodel} {ps : MethodParameters}
    (h : DerivedQuery.create name entityName m ps = .ok q) :
    q.SetUp ∧ q.Consistent ∧ q.returned = .domain ∧ q.metamodel = m ∧ q.parameters = ps := by
  unfold DerivedQuery.create at h
  split at h
  next => cases h
  next entity hentity =>
    obtain ⟨method, hmethod, h⟩ := result_bind_ok.1 h
    obtain ⟨_, -, h⟩ := result_bind_ok.1 h
    obtain ⟨rfl, haccepted⟩ := check_ok h
    have hmem : entity ∈ m.types :=
      List.mem_of_find?_eq_some (Option.filter_eq_some_iff.1 hentity).1
    exact ⟨⟨hmem, parse_wellFormed hmethod, haccepted⟩,
      ⟨faithful_ofCapacity _ _ _, faithful_ofCapacity _ _ _⟩, rfl, rfl, rfl⟩

/-- However often a query was called before, what it prepares is rendered from a query that the call
describes. -/
theorem SetUp.prepare {p : PreparedQuery} (h : q.SetUp) (hconsistent : q.Consistent)
    (hreturned : q.returned = .domain) (calls : List Call)
    (hsort : ∀ o ∈ a.sort.orders, o.rawExpression = false)
    (hp : ((q.afterAll calls).prepare a).1 = .ok p) :
    ∃ query pss rows bs ks, Prepares q a p query pss rows bs ks := by
  rw [prepare_afterAll hconsistent] at hp
  exact prepared_prepares hreturned h.method.onAttributes (fun o ho => (h.method.orders o ho).1)
    hsort hp

end DerivedQuery

end Jpql
