import Jpql.Proofs.Derived.RowOrder

/-! Tables whose rows have keys. The sort of a call, completed by the identifier, puts such rows in
one order only, and those behind a row are what is left of that order after it. -/

namespace Jpql.DerivedQuery

open Derived

variable {ρ : Type} {q : DerivedQuery} {a : Arguments}

/-! ### The completed sort -/

/-- The sort of a call, completed by the identifier. -/
def completeSort (q : DerivedQuery) (a : Arguments) : Sorting :=
  ScrollDirection.forward.completeSort (q.method.sort.and a.sort)
    (q.entity.idAttributes.map (·.name))

theorem mem_completeSort {o : Order} :
    o ∈ (q.completeSort a).orders ↔ o ∈ q.method.sort.orders ∨ o ∈ a.sort.orders ∨
      ∃ id ∈ q.entity.idAttributes, ((q.method.sort.and a.sort).orderFor? id.name).isNone ∧
        o = { property := id.name } := by
  simp only [completeSort, ScrollDirection.completeSort, Sorting.orders_and, List.mem_append,
    or_assoc, Sorting.ofProperties, Sorting.byDirection, List.mem_map, List.mem_filter]
  refine or_congr_right (or_congr_right ⟨?_, ?_⟩)
  · rintro ⟨_, ⟨⟨id, hid, rfl⟩, hmissing⟩, rfl⟩
    exact ⟨id, hid, hmissing, rfl⟩
  · rintro ⟨id, hid, hmissing, rfl⟩
    exact ⟨_, ⟨⟨id, hid, rfl⟩, hmissing⟩, rfl⟩

theorem exists_order_of_id {id : Attribute} (h : id ∈ q.entity.idAttributes) :
    ∃ o ∈ (q.completeSort a).orders, o.property = id.name := by
  cases hfor : (q.method.sort.and a.sort).orderFor? id.name with
  | none => exact ⟨_, mem_completeSort.2 (.inr (.inr ⟨id, h, by rw [hfor]; rfl, rfl⟩)), rfl⟩
  | some o =>
    have hmem : o ∈ q.method.sort.orders ++ a.sort.orders := List.mem_of_find?_eq_some hfor
    have hproperty : o.property = id.name := by simpa using List.find?_some hfor
    refine ⟨o, mem_completeSort.2 ?_, hproperty⟩
    rcases List.mem_append.1 hmem with hmem | hmem
    · exact .inl hmem
    · exact .inr (.inl hmem)

/-- The sort of a scroll, reversed if the scroll goes backward. -/
def scrollSort (q : DerivedQuery) (a : Arguments) (d : ScrollDirection) : Sorting :=
  d.completeSort (q.method.sort.and a.sort) (q.entity.idAttributes.map (·.name))

theorem mem_scrollSort {d : ScrollDirection} {o : Order} (ho : o ∈ (q.scrollSort a d).orders) :
    ∃ o' ∈ (q.completeSort a).orders, o = o' ∨ o = o'.reversed := by
  cases d with
  | forward => exact ⟨o, ho, .inl rfl⟩
  | backward =>
    obtain ⟨o', ho', rfl⟩ := List.mem_map.1 ho
    exact ⟨o', ho', .inr rfl⟩

/-- Either direction sorts by the same properties. -/
theorem map_property_scrollSort (d : ScrollDirection) :
    (q.scrollSort a d).orders.map (·.property) = (q.completeSort a).orders.map (·.property) := by
  cases d with
  | forward => rfl
  | backward => exact List.map_map

theorem forall_scrollSort {P : String → Prop} (d : ScrollDirection) :
    (∀ o ∈ (q.scrollSort a d).orders, P o.property) ↔
      ∀ o ∈ (q.completeSort a).orders, P o.property := by
  rw [← List.forall_mem_map, map_property_scrollSort, List.forall_mem_map]

theorem HasKeys.scrollSort {ρ : Type} {db : Database ρ} {keyOf : ρ → String → Value} {row : ρ}
    (h : q.HasKeys db keyOf (q.completeSort a).orders row) (d : ScrollDirection) :
    q.HasKeys db keyOf (q.scrollSort a d).orders row where
  value := (forall_scrollSort (P := fun s => ∀ p, PropertyPath.ofSource q.metamodel q.entity s =
    .ok p → keyOf row s = db.value row (property p.toDotPath)) d).2 h.value
  notNull := (forall_scrollSort (P := fun p => (keyOf row p).isNull = false) d).2 h.notNull

/-! ### Tables with keys -/

/-- The rows of a table have keys that order them, and no two have the same identifier. There are no
more rows than a result can have. -/
structure Keyed (q : DerivedQuery) (a : Arguments) (db : Database ρ) (keyOf : ρ → String → Value)
    (table : List ρ) : Prop where
  keys : ∀ r ∈ table, q.HasKeys db keyOf (q.completeSort a).orders r
  swaps : ∀ r ∈ table, ∀ s ∈ table, db.Swaps keyOf (q.completeSort a).orders r s
  distinct : table.Pairwise fun r s => ∃ id ∈ q.entity.idAttributes,
    db.compare (keyOf r id.name) (keyOf s id.name) ≠ .eq
  size : table.length ≤ PageRequest.maxRows

/-- The cursor at a row. -/
def cursorAt (q : DerivedQuery) (a : Arguments) (keyOf : ρ → String → Value) (row : ρ) : Cursor :=
  .ofKeys .forward ((q.completeSort a).orders.map fun o => (o.property, keyOf row o.property))

variable {db : Database ρ} {keyOf : ρ → String → Value} {table : List ρ} {r s row : ρ}

theorem get?_cursorAt {o : Order} (ho : o ∈ (q.completeSort a).orders) :
    (q.cursorAt a keyOf row).get? o.property = some (keyOf row o.property) := by
  have hkeys : (q.completeSort a).orders.map (fun o => (o.property, keyOf row o.property)) =
      ((q.completeSort a).orders.map (·.property)).map fun p => (p, keyOf row p) := by
    rw [List.map_map]
    rfl
  rw [cursorAt, hkeys]
  exact Cursor.get?_ofKeys .forward (keyOf row) (List.mem_map_of_mem ho)

/-- Rows of the table that their keys do not tell apart are the same. -/
theorem Keyed.eq_of_keyOrder (h : q.Keyed a db keyOf table) (hr : r ∈ table) (hs : s ∈ table)
    (heq : db.keyOrder keyOf (q.completeSort a).orders r s = .eq) : r = s := by
  have hsame : ∀ x ∈ [(r, s), (s, r)], ∀ id ∈ q.entity.idAttributes,
      db.compare (keyOf x.1 id.name) (keyOf x.2 id.name) = .eq := by
    have heq' : db.keyOrder keyOf (q.completeSort a).orders s r = .eq := by
      rw [← Database.swap_keyOrder (h.swaps r hr s hs), heq]
      rfl
    intro x hx id hid
    obtain ⟨o, ho, hproperty⟩ := exists_order_of_id (a := a) hid
    rw [← hproperty]
    simp only [List.mem_cons, List.not_mem_nil, or_false] at hx
    rcases hx with rfl | rfl
    · exact Database.compare_of_keyOrder (h.swaps r hr s hs) heq o ho
    · exact Database.compare_of_keyOrder (h.swaps s hs r hr) heq' o ho
  obtain ⟨i, hi, rfl⟩ := List.mem_iff_getElem.1 hr
  obtain ⟨j, hj, rfl⟩ := List.mem_iff_getElem.1 hs
  have hdistinct := List.pairwise_iff_getElem.1 h.distinct
  rcases Nat.lt_trichotomy i j with hlt | rfl | hlt
  · obtain ⟨id, hid, hne⟩ := hdistinct i j hi hj hlt
    exact absurd (hsame (_, _) (by simp) id hid) hne
  · rfl
  · obtain ⟨id, hid, hne⟩ := hdistinct j i hj hi hlt
    exact absurd (hsame (_, _) (by simp) id hid) hne

theorem Keyed.nodup (h : q.Keyed a db keyOf table) : table.Nodup := by
  refine h.distinct.imp_of_mem ?_
  rintro r _ hr - ⟨id, hid, hne⟩ rfl
  obtain ⟨o, ho, hproperty⟩ := exists_order_of_id (a := a) hid
  have hself := Database.compare_of_keyOrder (h.swaps r hr r hr)
    (Database.keyOrder_self (h.swaps r hr r hr)) o ho
  rw [hproperty] at hself
  exact hne hself

/-- Rows of the table in order are in strict order. -/
theorem Keyed.sorted (h : q.Keyed a db keyOf table) {f : ρ → Bool} {rows : List ρ}
    (hperm : rows.Perm (table.filter f))
    (hrows : rows.Pairwise (db.keyOrder keyOf (q.completeSort a).orders · · ≠ .gt)) :
    rows.Pairwise (db.keyOrder keyOf (q.completeSort a).orders · · = .lt) := by
  have hmem : ∀ r ∈ rows, r ∈ table := fun r hr => List.mem_of_mem_filter (hperm.mem_iff.1 hr)
  have hnodup : rows.Nodup := hperm.nodup_iff.2 (h.nodup.filter f)
  refine (hnodup.and hrows).imp_of_mem fun {r s} hr hs hrs => ?_
  cases horder : db.keyOrder keyOf (q.completeSort a).orders r s with
  | lt => rfl
  | eq => exact absurd (h.eq_of_keyOrder (hmem r hr) (hmem s hs) horder) hrs.1
  | gt => exact absurd horder hrs.2

/-- The rows of the table have one order only. -/
theorem Keyed.eq_of_perm (h : q.Keyed a db keyOf table) {rows rows' : List ρ}
    (hmem : ∀ r ∈ rows, r ∈ table) (hperm : rows.Perm rows')
    (hrows : rows.Pairwise (db.keyOrder keyOf (q.completeSort a).orders · · = .lt))
    (hrows' : rows'.Pairwise (db.keyOrder keyOf (q.completeSort a).orders · · = .lt)) :
    rows = rows' := by
  refine List.Perm.eq_of_pairwise ?_ hrows hrows' hperm
  intro r s hr hs hrs hsr
  rw [← Database.swap_keyOrder (h.swaps r (hmem r hr) s (hmem s (hperm.mem_iff.2 hs))), hrs] at hsr
  cases hsr

/-- In a sorted list the rows that come after one are those behind it. -/
theorem Keyed.filter_behind (h : q.Keyed a db keyOf table) {last : ρ} {before rest : List ρ}
    (hmem : ∀ r ∈ before ++ last :: rest, r ∈ table)
    (hsorted : (before ++ last :: rest).Pairwise
      (db.keyOrder keyOf (q.completeSort a).orders · · = .lt)) :
    (before ++ last :: rest).filter
      (db.keyOrder keyOf (q.completeSort a).orders last · == .lt) = rest := by
  obtain ⟨-, hbehind, hacross⟩ := List.pairwise_append.1 hsorted
  have hlast : last ∈ table := hmem last (by simp)
  have hself := Database.keyOrder_self (h.swaps last hlast last hlast)
  have hbefore : before.filter (db.keyOrder keyOf (q.completeSort a).orders last · == .lt) = [] := by
    refine List.filter_eq_nil_iff.2 fun r hr => ?_
    have hr' : r ∈ table := hmem r (List.mem_append_left _ hr)
    have hlt := hacross r hr last List.mem_cons_self
    rw [← Database.swap_keyOrder (h.swaps r hr' last hlast), hlt]
    decide
  have hrest : rest.filter (db.keyOrder keyOf (q.completeSort a).orders last · == .lt) = rest := by
    refine List.filter_eq_self.2 fun r hr => ?_
    rw [(List.pairwise_cons.1 hbehind).1 r hr]
    rfl
  rw [List.filter_append, hbefore, List.filter_cons, hself, hrest]
  rfl

/-- In a sorted list the rows that come before one are those it is behind. -/
theorem Keyed.filter_before (h : q.Keyed a db keyOf table) {last : ρ} {before rest : List ρ}
    (hmem : ∀ r ∈ before ++ last :: rest, r ∈ table)
    (hsorted : (before ++ last :: rest).Pairwise
      (db.keyOrder keyOf (q.completeSort a).orders · · = .lt)) :
    (before ++ last :: rest).filter
      (db.keyOrder keyOf (q.completeSort a).orders · last == .lt) = before := by
  obtain ⟨-, hbehind, hacross⟩ := List.pairwise_append.1 hsorted
  have hlast : last ∈ table := hmem last (by simp)
  have hself := Database.keyOrder_self (h.swaps last hlast last hlast)
  have hbefore : before.filter (db.keyOrder keyOf (q.completeSort a).orders · last == .lt) =
      before := by
    refine List.filter_eq_self.2 fun r hr => ?_
    rw [hacross r hr last List.mem_cons_self]
    rfl
  have hrest : rest.filter (db.keyOrder keyOf (q.completeSort a).orders · last == .lt) = [] := by
    refine List.filter_eq_nil_iff.2 fun r hr => ?_
    have hr' : r ∈ table := hmem r (by simp [hr])
    have hlt := (List.pairwise_cons.1 hbehind).1 r hr
    rw [← Database.swap_keyOrder (h.swaps last hlast r hr'), hlt]
    decide
  rw [List.filter_append, hbefore, List.filter_cons, hself, hrest]
  exact List.append_nil before

/-- What is left of a sorted list behind one of its rows does not depend on how it is found. -/
theorem Keyed.eq_rest (h : q.Keyed a db keyOf table) {f : ρ → Bool} {last : ρ}
    {before rest rows : List ρ} (hperm : (before ++ last :: rest).Perm (table.filter f))
    (hsorted : (before ++ last :: rest).Pairwise
      (db.keyOrder keyOf (q.completeSort a).orders · · = .lt))
    (hrows : rows.Perm (table.filter fun r =>
      f r && db.keyOrder keyOf (q.completeSort a).orders last r == .lt))
    (hrows' : rows.Pairwise (db.keyOrder keyOf (q.completeSort a).orders · · ≠ .gt)) :
    rows = rest := by
  have hmem : ∀ r ∈ before ++ last :: rest, r ∈ table :=
    fun r hr => List.mem_of_mem_filter (hperm.mem_iff.1 hr)
  have hsame : rows.Perm rest := by
    have hfilter := hperm.filter (db.keyOrder keyOf (q.completeSort a).orders last · == .lt)
    rw [h.filter_behind hmem hsorted, List.filter_filter] at hfilter
    refine hrows.trans (List.Perm.trans ?_ hfilter.symm)
    refine List.Perm.of_eq (List.filter_congr fun r _ => ?_)
    exact Bool.and_comm _ _
  have hrest : rest.Pairwise (db.keyOrder keyOf (q.completeSort a).orders · · = .lt) :=
    (List.pairwise_cons.1 (List.pairwise_append.1 hsorted).2.1).2
  exact h.eq_of_perm (fun r hr => List.mem_of_mem_filter (hrows.mem_iff.1 hr)) hsame
    (h.sorted hrows hrows') hrest

/-- Read from the other end, what comes before one of its rows does not depend on it either. -/
theorem Keyed.eq_before (h : q.Keyed a db keyOf table) {f : ρ → Bool} {last : ρ}
    {before rest rows : List ρ} (hperm : (before ++ last :: rest).Perm (table.filter f))
    (hsorted : (before ++ last :: rest).Pairwise
      (db.keyOrder keyOf (q.completeSort a).orders · · = .lt))
    (hrows : rows.Perm (table.filter fun r =>
      f r && db.keyOrder keyOf (q.completeSort a).orders r last == .lt))
    (hrows' : rows.Pairwise fun r s => db.keyOrder keyOf (q.completeSort a).orders s r ≠ .gt) :
    rows = before.reverse := by
  have hmem : ∀ r ∈ before ++ last :: rest, r ∈ table :=
    fun r hr => List.mem_of_mem_filter (hperm.mem_iff.1 hr)
  have hforward : rows.reverse.Perm (table.filter fun r =>
      f r && db.keyOrder keyOf (q.completeSort a).orders r last == .lt) :=
    rows.reverse_perm.trans hrows
  have hsame : rows.reverse.Perm before := by
    have hfilter := hperm.filter (db.keyOrder keyOf (q.completeSort a).orders · last == .lt)
    rw [h.filter_before hmem hsorted, List.filter_filter] at hfilter
    refine hforward.trans (List.Perm.trans ?_ hfilter.symm)
    refine List.Perm.of_eq (List.filter_congr fun r _ => ?_)
    exact Bool.and_comm _ _
  have hbefore : rows.reverse = before :=
    h.eq_of_perm (fun r hr => List.mem_of_mem_filter (hforward.mem_iff.1 hr)) hsame
      (h.sorted hforward (List.pairwise_reverse.2 hrows')) (List.pairwise_append.1 hsorted).1
  rw [← hbefore, List.reverse_reverse]

end Jpql.DerivedQuery
