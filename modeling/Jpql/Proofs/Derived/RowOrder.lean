import Jpql.Proofs.Derived.Database

/-! The order of rows by their sort keys, and what a cursor makes of it. The comparisons with the
keys of a row hold for just the rows that come after it, however many leading keys they share. -/

namespace Jpql

open Derived

variable {ρ : Type} {db : Database ρ} {keyOf : ρ → String → Value} {orders : List Order} {r s : ρ}

namespace Database

theorem keyOrder_cons (o : Order) (orders : List Order) (r s : ρ) :
    db.keyOrder keyOf (o :: orders) r s =
      (o.direction.compare db.compare (keyOf r o.property) (keyOf s o.property)).then
        (db.keyOrder keyOf orders r s) := rfl

/-- The keys of two rows are compared alike from either side. -/
def Swaps (db : Database ρ) (keyOf : ρ → String → Value) (orders : List Order) (r s : ρ) : Prop :=
  ∀ o ∈ orders, (db.compare (keyOf r o.property) (keyOf s o.property)).swap =
    db.compare (keyOf s o.property) (keyOf r o.property)

theorem Swaps.direction {o : Order} (h : db.Swaps keyOf orders r s) (ho : o ∈ orders) :
    (o.direction.compare db.compare (keyOf r o.property) (keyOf s o.property)).swap =
      o.direction.compare db.compare (keyOf s o.property) (keyOf r o.property) := by
  have hswap := h o ho
  cases o.direction with
  | asc => exact hswap
  | desc =>
    change (db.compare (keyOf s o.property) (keyOf r o.property)).swap = _
    rw [← hswap, Ordering.swap_swap]
    rfl

theorem swap_keyOrder (h : db.Swaps keyOf orders r s) :
    (db.keyOrder keyOf orders r s).swap = db.keyOrder keyOf orders s r := by
  induction orders with
  | nil => rfl
  | cons o orders ih =>
    rw [keyOrder_cons, keyOrder_cons, Ordering.swap_then, h.direction List.mem_cons_self,
      ih fun o' ho' => h o' (List.mem_cons_of_mem _ ho')]

theorem keyOrder_self (h : db.Swaps keyOf orders r r) : db.keyOrder keyOf orders r r = .eq := by
  have hswap := swap_keyOrder h
  cases hself : db.keyOrder keyOf orders r r with
  | eq => rfl
  | lt | gt =>
    rw [hself] at hswap
    cases hswap

/-- Reversed orders put rows the other way round. -/
theorem keyOrder_reversed (orders : List Order) (r s : ρ) :
    db.keyOrder keyOf (orders.map Order.reversed) r s = db.keyOrder keyOf orders s r := by
  induction orders with
  | nil => rfl
  | cons o orders ih =>
    have hfirst : o.reversed.direction.compare db.compare (keyOf r o.property)
        (keyOf s o.property) =
          o.direction.compare db.compare (keyOf s o.property) (keyOf r o.property) := by
      change o.direction.reverse.compare _ _ _ = _
      cases o.direction <;> rfl
    rw [List.map_cons, keyOrder_cons, keyOrder_cons, ih]
    exact congrArg (Ordering.then · _) hfirst

/-- Rows that are not told apart have the same keys. -/
theorem compare_of_keyOrder (h : db.Swaps keyOf orders r s)
    (heq : db.keyOrder keyOf orders r s = .eq) :
    ∀ o ∈ orders, db.compare (keyOf r o.property) (keyOf s o.property) = .eq := by
  induction orders with
  | nil => simp
  | cons o orders ih =>
    rw [keyOrder_cons, Ordering.then_eq_eq] at heq
    obtain ⟨hfirst, hrest⟩ := heq
    refine List.forall_mem_cons.2 ⟨?_, ih (fun o' ho' => h o' (List.mem_cons_of_mem _ ho')) hrest⟩
    have hswap := h o List.mem_cons_self
    cases hdirection : o.direction with
    | asc => rwa [hdirection] at hfirst
    | desc =>
      rw [hdirection] at hfirst
      change db.compare (keyOf s o.property) (keyOf r o.property) = .eq at hfirst
      rw [hfirst] at hswap
      rwa [← Ordering.swap_inj]

/-! ### Behind a cursor -/

/-- Whether a row passes a comparison with the keys of `last`. -/
def passes (db : Database ρ) (keyOf : ρ → String → Value) (last row : ρ) (c : Order × Bool) :
    Bool :=
  db.compare (keyOf row c.1.property) (keyOf last c.1.property) ==
    if c.2 then .eq else if c.1.isAscending then .gt else .lt

variable {last row : ρ}

theorem passes_comparison {o : Order} (h : db.Swaps keyOf orders row last) (ho : o ∈ orders) :
    db.passes keyOf last row (o, false) =
      (o.direction.compare db.compare (keyOf last o.property) (keyOf row o.property) == .lt) := by
  have hswap := h o ho
  unfold passes
  cases hdirection : o.direction with
  | asc =>
    have hascending : o.isAscending = true := by rw [Order.isAscending, hdirection]; rfl
    change _ = (db.compare (keyOf last o.property) (keyOf row o.property) == .lt)
    rw [← hswap, hascending]
    cases db.compare (keyOf row o.property) (keyOf last o.property) <;> rfl
  | desc =>
    have hascending : o.isAscending = false := by rw [Order.isAscending, hdirection]; rfl
    change _ = (db.compare (keyOf row o.property) (keyOf last o.property) == .lt)
    rw [hascending]
    rfl

theorem passes_equality {o : Order} (h : db.Swaps keyOf orders row last) (ho : o ∈ orders) :
    db.passes keyOf last row (o, true) =
      (o.direction.compare db.compare (keyOf last o.property) (keyOf row o.property) == .eq) := by
  have hswap := h o ho
  unfold passes
  cases o.direction with
  | asc =>
    change _ = (db.compare (keyOf last o.property) (keyOf row o.property) == .eq)
    rw [← hswap]
    cases db.compare (keyOf row o.property) (keyOf last o.property) <;> rfl
  | desc => rfl

/-- The rows of comparisons with the keys of a row single out the rows behind it. -/
theorem any_cursorRows (before : List Order) (h : db.Swaps keyOf orders row last) :
    (cursorRows before orders).any (·.all (db.passes keyOf last row)) =
      (before.all (fun o => db.passes keyOf last row (o, true)) &&
        db.keyOrder keyOf orders last row == .lt) := by
  induction orders generalizing before with
  | nil => simp [cursorRows, keyOrder, lexicographic]
  | cons o orders ih =>
    have hrest := ih (before ++ [o]) fun o' ho' => h o' (List.mem_cons_of_mem _ ho')
    rw [cursorRows, List.any_cons, hrest, keyOrder_cons]
    simp only [List.all_append, List.all_map, List.all_cons, List.all_nil, Bool.and_true]
    rw [passes_comparison h List.mem_cons_self, passes_equality h List.mem_cons_self]
    change (before.all (fun o => db.passes keyOf last row (o, true)) && _ || _) = _
    cases before.all fun o => db.passes keyOf last row (o, true) <;>
      cases o.direction.compare db.compare (keyOf last o.property) (keyOf row o.property) <;>
      rfl

end Database

/-! ### The cursor of a row -/

theorem Cursor.find?_putKey_of_ne {key k : String} (h : key ≠ k) (value : Value)
    (kvs : List (String × Value)) :
    (putKey key value kvs).find? (·.1 == k) = kvs.find? (·.1 == k) := by
  induction kvs with
  | nil => simp [putKey, h]
  | cons kv rest ih =>
    simp only [putKey]
    split
    next hkey =>
      obtain rfl : kv.1 = key := by simpa using hkey
      simp [h]
    next => simp [List.find?_cons, ih]

/-- A cursor that is made of properties with their values has them all. -/
theorem Cursor.get?_ofKeys (direction : ScrollDirection) (value : String → Value)
    {properties : List String} {p : String} (hp : p ∈ properties) :
    (ofKeys direction (properties.map fun p => (p, value p))).get? p = some (value p) := by
  have hfold (kvs : List (String × Value))
      (h : p ∈ properties ∨ kvs.find? (·.1 == p) = some (p, value p)) :
      ((properties.map fun p => (p, value p)).foldl (fun acc kv => putKey kv.1 kv.2 acc) kvs).find?
        (·.1 == p) = some (p, value p) := by
    clear hp
    induction properties generalizing kvs with
    | nil => simpa using h
    | cons p' properties ih =>
      refine ih _ ?_
      by_cases hsame : p' = p
      · rw [hsame]
        exact .inr (find?_putKey p (value p) kvs)
      · rcases h with hmem | hfind
        · exact .inl ((List.mem_cons.1 hmem).resolve_left fun heq => hsame heq.symm)
        · exact .inr ((find?_putKey_of_ne hsame _ _).trans hfind)
  unfold Cursor.get? ofKeys
  rw [hfold [] (.inl hp)]
  rfl

theorem Cursor.isInitial_of_get? {c : Cursor} {key : String} {v : Value}
    (h : c.get? key = some v) : c.isInitial = false := by
  unfold Cursor.get? at h
  unfold Cursor.isInitial
  cases hkeys : c.keys with
  | nil =>
    rw [hkeys] at h
    cases h
  | cons => rfl

/-! ### What queries select, and how they sort -/

/-- The keys of a row are the values of the properties that the orders name, and are not null. -/
structure DerivedQuery.HasKeys (q : DerivedQuery) (db : Database ρ) (keyOf : ρ → String → Value)
    (orders : List Order) (row : ρ) : Prop where
  value : ∀ o ∈ orders, ∀ p, PropertyPath.ofSource q.metamodel q.entity o.property = .ok p →
    keyOf row o.property = db.value row (property p.toDotPath)
  notNull : ∀ o ∈ orders, (keyOf row o.property).isNull = false

namespace DerivedQuery

variable {q : DerivedQuery} {a : Arguments} {query : SelectQuery} {last row : ρ}

/-- The comparisons with a cursor hold for the rows that pass them. -/
theorem holds_cursorAtoms {cursor : Cursor} {k : Nat} {comparisons : List (Order × Bool)}
    {ps : List Predicate} {ks : List ParameterBinding} {values : Nat → Option Value}
    (h : CursorAtoms q.metamodel q.entity cursor query k comparisons ps ks)
    (hcomparisons : ∀ c ∈ comparisons, c.1 ∈ orders)
    (hcursor : ∀ o ∈ orders, cursor.get? o.property = some (keyOf last o.property))
    (hlast : q.HasKeys db keyOf orders last) (hrow : q.HasKeys db keyOf orders row)
    (hvalues : ∀ i b, ks[i]? = some b → values (k + i + 1) = some (b.boundValue q.parameters a)) :
    ps.map (fun p => db.holds row values (p.rooted (joinPaths query.joins))) =
      comparisons.map (db.passes keyOf last row) := by
  induction h with
  | nil k => rfl
  | @null k o p e comparisons ps ks hv hp he _ ih =>
    have ho : o ∈ orders := hcomparisons (o, true) List.mem_cons_self
    have hnull := hlast.notNull o ho
    rw [← Option.some.inj (hv.symm.trans (hcursor o ho))] at hnull
    cases hnull
  | @value k o isEqual v p e comparisons ps ks hv _ hp he _ ih =>
    obtain ⟨ho, hrest⟩ := List.forall_mem_cons.1 hcomparisons
    have hkey : v = keyOf last o.property := Option.some.inj (hv.symm.trans (hcursor o ho))
    have hbound : values (k + 1) = some v := hvalues 0 _ rfl
    have hvalue := hrow.value o ho p hp
    have hoperator : (cursorOperator o isEqual,
        if isEqual then Ordering.eq else if o.isAscending then .gt else .lt) ∈
          [("=", .eq), ("<", .lt), (">", .gt)] := by
      unfold cursorOperator
      cases isEqual <;> cases o.isAscending <;> simp
    have hfirst : db.holds row values ((Predicate.compare (.path e) (cursorOperator o isEqual)
        (.parameter (k + 1))).rooted (joinPaths query.joins)) =
          db.passes keyOf last row (o, isEqual) := by
      have hleft := hlast.notNull o ho
      have hright := hrow.notNull o ho
      rw [← hkey] at hleft
      rw [hvalue] at hright
      rw [Predicate.rooted, he.rooted]
      change db.holds row values (.compare _ _ (.parameter (k + 1))) = _
      rw [db.holds_compare row values _ _ _ v _ hbound hleft hright hoperator, Database.passes,
        hvalue, hkey]
    have htail := ih hrest fun i b hi => by
      have hnext := hvalues (i + 1) b hi
      have hsame : k + (i + 1) = k + 1 + i := by omega
      rwa [hsame] at hnext
    rw [List.map_cons, List.map_cons, hfirst, htail]

/-- An item of a query that sorts on what an order names compares the keys of rows. -/
theorem compare_sortsOn {c : Creator} {o : Order} {item : OrderExpression}
    (h : SortsOn c query o item) (hcase : o.ignoreCase = false)
    (hr : ∀ p, PropertyPath.ofSource c.metamodel c.entity o.property = .ok p →
      keyOf r o.property = db.value r (property p.toDotPath))
    (hs : ∀ p, PropertyPath.ofSource c.metamodel c.entity o.property = .ok p →
      keyOf s o.property = db.value s (property p.toDotPath)) :
    item.order.direction.compare db.compare
        (db.value r (item.expression.rooted (joinPaths query.joins)))
        (db.value s (item.expression.rooted (joinPaths query.joins))) =
      o.direction.compare db.compare (keyOf r o.property) (keyOf s o.property) := by
  obtain ⟨p, e, hp, hleads, hitem⟩ := h.expression
  rw [hcase] at hitem
  have hrooted : item.expression.rooted (joinPaths query.joins) = property p.toDotPath := by
    rw [hitem]
    exact hleads.rooted
  rw [h.order, hrooted, hr p hp, hs p hp]

/-- A query orders rows by their keys. -/
theorem compareRows_eq
    (hsorts : List.Forall₂ (SortsOn (q.creator (some a) false) query) orders query.orders)
    (hcase : ∀ o ∈ orders, o.ignoreCase = false) (hr : q.HasKeys db keyOf orders r)
    (hs : q.HasKeys db keyOf orders s) :
    query.compareRows db r s = db.keyOrder keyOf orders r s := by
  obtain ⟨hr, -⟩ := hr
  obtain ⟨hs, -⟩ := hs
  unfold SelectQuery.compareRows Database.keyOrder
  generalize query.orders = items at hsorts
  induction hsorts with
  | nil => rfl
  | cons hfirst _ ih =>
    obtain ⟨hcase, hcases⟩ := List.forall_mem_cons.1 hcase
    obtain ⟨hr, hrs⟩ := List.forall_mem_cons.1 hr
    obtain ⟨hs, hss⟩ := List.forall_mem_cons.1 hs
    rw [List.map_cons, List.map_cons, lexicographic, lexicographic, ih hcases hrs hss,
      compare_sortsOn hfirst hcase hr hs]

/-! ### Whole queries -/

variable {sort : Sorting} {pss rows : List (List Predicate)} {bs ks : List ParameterBinding}
  {values : Nat → Option Value}

theorem ne_nil_of_lengths {α β : Type} {xss : List (List α)} {yss : List (List β)}
    (hlengths : xss.map List.length = yss.map List.length) (hne : ∀ ys ∈ yss, ys ≠ []) :
    ∀ xs ∈ xss, xs ≠ [] := by
  intro xs hxs
  have hmem : xs.length ∈ yss.map List.length := hlengths ▸ List.mem_map_of_mem hxs
  obtain ⟨ys, hys, hlength⟩ := List.mem_map.1 hmem
  have hpos := List.length_pos_iff.2 (hne ys hys)
  exact List.length_pos_iff.1 (by omega)

theorem isEmpty_of_lengths {α β : Type} {xss : List (List α)} {yss : List (List β)}
    (hlengths : xss.map List.length = yss.map List.length) : xss.isEmpty = yss.isEmpty := by
  cases xss <;> cases yss <;> first | rfl | cases hlengths

theorem any_all {α : Type} (f : α → Bool) (xss : List (List α)) :
    xss.any (·.all f) = anyHolds (xss.map (·.map f)) := by
  simp [anyHolds, List.any_map, Function.comp_def]

/-- A query selects a row if the method name does and the comparisons with the cursor hold. -/
theorem Describes.selects_eq (h : Describes q a sort query pss rows bs ks)
    (hconditions : ∀ parts ∈ q.method.alternatives, parts ≠ [])
    (hvalues : ∀ k b, (bs ++ ks)[k]? = some b → b.isNullTest = false →
      values (k + 1) = some (b.boundValue q.parameters a)) :
    query.selects db values row = (q.matchesRow a db row && (rows.isEmpty ||
      anyHolds (rows.map (·.map fun p =>
        db.holds row values (p.rooted (joinPaths query.joins)))))) := by
  have hown := valueAt_eq h.operands fun k b hb hnull => hvalues k b
    ((List.getElem?_append_left (List.getElem?_eq_some_iff.1 hb).1).trans hb) hnull
  have hflat : (pss.flatten.map fun p => db.holds row values (p.rooted (joinPaths query.joins))) =
      q.facts a db row 0 q.method.parts :=
    holds_conditions h.conditions h.operands hown
  have hfacts : (pss.map (·.map fun p =>
      db.holds row values (p.rooted (joinPaths query.joins)))) =
        q.factsOf a db row 0 q.method.alternatives := by
    refine List.eq_iff_flatten_eq.2 ⟨?_, ?_⟩
    · rw [← List.map_flatten, hflat, flatten_factsOf]
      rfl
    · rw [length_factsOf, ← h.alternatives, List.map_map]
      simp [Function.comp_def]
  have hempty := isEmpty_of_lengths h.alternatives
  rw [SelectQuery.selects, h.predicate, holdsOrNone_together,
    holdsOrNone_alternatives h.conditions.isCondition
      (ne_nil_of_lengths h.alternatives hconditions),
    holdsOrNone_cursorPredicate h.cursor.isCondition
      (ne_nil_of_lengths h.comparisons (rowsOf_ne_nil _ _)),
    any_all, any_all, hfacts, hempty]
  rfl

/-- Behind the initial cursor a query selects what the method name does. -/
theorem Describes.selects_initial (h : Describes q a sort query pss rows bs ks)
    (hconditions : ∀ parts ∈ q.method.alternatives, parts ≠ [])
    (hvalues : ∀ k b, (bs ++ ks)[k]? = some b → b.isNullTest = false →
      values (k + 1) = some (b.boundValue q.parameters a))
    (hcursor : a.cursor.isInitial = true) :
    query.selects db values row = q.matchesRow a db row := by
  have hnone := h.comparisons
  rw [Derived.rowsOf, if_pos hcursor] at hnone
  obtain rfl : rows = [] := by simpa using hnone
  rw [h.selects_eq hconditions hvalues]
  simp

/-- Behind a row a query selects the rows that the method name selects and that come after it. -/
theorem Describes.selects_behind (h : Describes q a sort query pss rows bs ks)
    (hconditions : ∀ parts ∈ q.method.alternatives, parts ≠ [])
    (hvalues : ∀ k b, (bs ++ ks)[k]? = some b → b.isNullTest = false →
      values (k + 1) = some (b.boundValue q.parameters a))
    (hcursor : a.cursor.isInitial = false) (hsome : sort.orders ≠ [])
    (hkeys : ∀ o ∈ sort.orders, a.cursor.get? o.property = some (keyOf last o.property))
    (hlast : q.HasKeys db keyOf sort.orders last) (hrow : q.HasKeys db keyOf sort.orders row)
    (hswaps : db.Swaps keyOf sort.orders row last) :
    query.selects db values row =
      (q.matchesRow a db row && db.keyOrder keyOf sort.orders last row == .lt) := by
  have hrows : Derived.rowsOf a.cursor sort = cursorRows [] sort.orders := by
    rw [Derived.rowsOf, if_neg (by simp [hcursor])]
  have hatoms := h.cursor
  have hlengths := h.comparisons
  rw [hrows] at hatoms hlengths
  have hbound : ∀ i b, ks[i]? = some b →
      values (bs.length + i + 1) = some (b.boundValue q.parameters a) := by
    intro i b hi
    refine hvalues _ b ?_ (h.cursor.isNullTest b (List.mem_of_getElem? hi))
    rw [List.getElem?_append_right (by omega), Nat.add_sub_cancel_left, hi]
  have hflat := holds_cursorAtoms hatoms (mem_cursorRows [] sort.orders) hkeys hlast
    hrow hbound
  have htests : (rows.map (·.map fun p =>
      db.holds row values (p.rooted (joinPaths query.joins)))) =
        (cursorRows [] sort.orders).map (·.map (db.passes keyOf last row)) := by
    refine List.eq_iff_flatten_eq.2 ⟨?_, ?_⟩
    · rw [← List.map_flatten, hflat, List.map_flatten]
    · simpa [Function.comp_def] using hlengths
  have hempty : rows.isEmpty = false := by
    rw [isEmpty_of_lengths hlengths]
    cases horders : sort.orders with
    | nil => exact absurd horders hsome
    | cons => rfl
  rw [h.selects_eq hconditions hvalues, htests, hempty, ← any_all,
    Database.any_cursorRows [] hswaps]
  rfl

end DerivedQuery

end Jpql
