import Jpql.Derived.Keyset
import Jpql.Proofs.Derived.Database
import Mathlib.Data.List.Pairwise
import Mathlib.Data.List.Sort

/-! Sorting backward. The backward sort turns every direction round, and nulls that the database
places itself change sides with it. The side that an order names for nulls stays as it is, so rows
told apart by that side alone come in the same order either way. -/

namespace Jpql

/-! ### How keys are compared -/

/-- How a database compares keys: values, with or without regard to case, and nulls as one extreme
value. -/
structure Collation (κ : Type) where
  compare : Bool → κ → κ → Ordering
  nullsLeast : Bool
  transitive : ∀ ignoreCase, Std.TransCmp (compare ignoreCase)
  separates : Std.LawfulEqCmp (compare false)

/-- What a comparison becomes in a direction. -/
def Direction.turn : Direction → Ordering → Ordering
  | .asc, x => x
  | .desc, x => x.swap

namespace Direction

@[simp] theorem turn_eq_eq {d : Direction} {x : Ordering} : d.turn x = .eq ↔ x = .eq := by
  cases d <;> simp [turn]

@[simp] theorem turn_reverse (d : Direction) (x : Ordering) : d.reverse.turn x = (d.turn x).swap := by
  cases d <;> simp [turn, reverse]

theorem swap_turn (d : Direction) (x : Ordering) : (d.turn x).swap = d.turn x.swap := by
  cases d <;> rfl

end Direction

/-- Comparing by several keys is transitive if comparing by each of them is. -/
theorem transCmp_lexicographic {ρ : Type} {cs : List (ρ → ρ → Ordering)}
    (h : ∀ cmp ∈ cs, Std.TransCmp cmp) : Std.TransCmp (lexicographic cs) := by
  induction cs with
  | nil => exact { eq_swap := rfl, isLE_trans := fun _ _ => rfl }
  | cons cmp cs ih =>
    have := h cmp List.mem_cons_self
    have := ih fun cmp' hmem => h cmp' (List.mem_cons_of_mem _ hmem)
    exact inferInstanceAs (Std.TransCmp (compareLex cmp (lexicographic cs)))

namespace Collation

variable {κ ρ : Type} (c : Collation κ)

instance (ignoreCase : Bool) : Std.TransCmp (c.compare ignoreCase) := c.transitive ignoreCase

instance : Std.LawfulEqCmp (c.compare false) := c.separates

/-- On which side of the values an order places nulls. -/
def nullSide (o : Order) : Ordering :=
  match o.nulls with
  | .first => .lt
  | .last => .gt
  | .native => o.direction.turn (if c.nullsLeast then .lt else .gt)

theorem nullSide_ne_eq (o : Order) : c.nullSide o ≠ .eq := by
  unfold nullSide
  split <;> simp only [ne_eq, reduceCtorEq, not_false_eq_true, Direction.turn_eq_eq]
  split <;> simp

/-- How an order puts two keys, where `none` is null. -/
def compareKeys (o : Order) : Option κ → Option κ → Ordering
  | none, none => .eq
  | none, some _ => c.nullSide o
  | some _, none => (c.nullSide o).swap
  | some v, some w => o.direction.turn (c.compare o.ignoreCase v w)

theorem isLE_turn_trans {d : Direction} {ignoreCase : Bool} {u v w : κ}
    (huv : (d.turn (c.compare ignoreCase u v)).isLE) (hvw : (d.turn (c.compare ignoreCase v w)).isLE) :
    (d.turn (c.compare ignoreCase u w)).isLE := by
  cases d <;> simp only [Direction.turn, Ordering.isLE_swap] at huv hvw ⊢
  · exact Std.TransCmp.isLE_trans huv hvw
  · exact Std.TransCmp.isGE_trans huv hvw

instance (o : Order) : Std.TransCmp (c.compareKeys o) where
  eq_swap {v w} := by
    cases v <;> cases w <;>
      simp only [compareKeys, Ordering.swap_swap, Ordering.swap_eq, Direction.swap_turn]
    exact congrArg _ Std.OrientedCmp.eq_swap
  isLE_trans {u v w} huv hvw := by
    have hside := c.nullSide_ne_eq o
    cases u with
    | none =>
      cases w with
      | none => rfl
      | some _ =>
        cases v with
        | none => exact hvw
        | some _ => exact huv
    | some u =>
      cases v with
      | none =>
        cases w with
        | none => exact huv
        -- nulls would be on both sides
        | some _ =>
          simp only [compareKeys, Ordering.isLE_swap] at huv hvw
          cases hnull : c.nullSide o <;> simp_all
      | some v =>
        cases w with
        | none => exact hvw
        | some w => exact c.isLE_turn_trans huv hvw

/-- A value differs from every other key if case counts. -/
theorem eq_of_compareKeys {o : Order} (hcase : o.ignoreCase = false) {v w : Option κ}
    (h : c.compareKeys o v w = .eq) : v = w := by
  have hside := c.nullSide_ne_eq o
  cases v <;> cases w <;>
    simp only [compareKeys, Ordering.swap_eq_eq, Direction.turn_eq_eq, hcase, hside] at h ⊢
  exact congrArg some (Std.LawfulEqCmp.eq_of_compare h)

/-! ### Reversed orders -/

/-- Whether one key is null and the order names the side of nulls. -/
def namedNull (o : Order) (v w : Option κ) : Bool :=
  o.nulls != .native && (v.isNone || w.isNone)

theorem nullSide_reversed (o : Order) :
    c.nullSide o.reversed = if o.nulls = .native then (c.nullSide o).swap else c.nullSide o := by
  unfold nullSide
  change (match o.nulls with
    | .first => Ordering.lt
    | .last => .gt
    | .native => o.direction.reverse.turn (if c.nullsLeast then .lt else .gt)) = _
  cases o.nulls <;> simp

/-- A reversed order puts keys the other way round, except nulls on a side that it names. -/
theorem compareKeys_reversed (o : Order) (v w : Option κ) :
    c.compareKeys o.reversed v w =
      if namedNull o v w then c.compareKeys o v w else (c.compareKeys o v w).swap := by
  cases v <;> cases w
  case some.some v w =>
    simp only [namedNull, Option.isNone_some, Bool.or_self, Bool.and_false, Bool.false_eq_true,
      if_false]
    exact Direction.turn_reverse o.direction _
  all_goals by_cases hnative : o.nulls = .native <;>
    simp [compareKeys, namedNull, nullSide_reversed, hnative]

variable (keyOf : ρ → String → Option κ)

/-- How several orders put two rows. -/
def compareRows (orders : List Order) : ρ → ρ → Ordering :=
  lexicographic <| orders.map fun o r s =>
    c.compareKeys o (keyOf r o.property) (keyOf s o.property)

/-- Whether the first order that tells two rows apart does so by a null on the side it names. -/
def placedByNulls : List Order → ρ → ρ → Bool
  | [], _, _ => false
  | o :: orders, r, s =>
    if c.compareKeys o (keyOf r o.property) (keyOf s o.property) = .eq then
      placedByNulls orders r s
    else namedNull o (keyOf r o.property) (keyOf s o.property)

instance (orders : List Order) : Std.TransCmp (c.compareRows keyOf orders) := by
  refine transCmp_lexicographic fun cmp hcmp => ?_
  obtain ⟨o, -, rfl⟩ := List.mem_map.1 hcmp
  exact { eq_swap := Std.OrientedCmp.eq_swap, isLE_trans := Std.TransCmp.isLE_trans }

theorem compareRows_cons (o : Order) (orders : List Order) (r s : ρ) :
    c.compareRows keyOf (o :: orders) r s =
      (c.compareKeys o (keyOf r o.property) (keyOf s o.property)).then
        (c.compareRows keyOf orders r s) := rfl

theorem swap_compareRows (orders : List Order) (r s : ρ) :
    (c.compareRows keyOf orders r s).swap = c.compareRows keyOf orders s r :=
  Std.OrientedCmp.eq_swap.symm

theorem compareRows_reversed (orders : List Order) (r s : ρ) :
    c.compareRows keyOf (orders.map Order.reversed) r s =
      if c.placedByNulls keyOf orders r s then c.compareRows keyOf orders r s
      else (c.compareRows keyOf orders r s).swap := by
  induction orders with
  | nil => rfl
  | cons o orders ih =>
    have hfirst := c.compareKeys_reversed o (keyOf r o.property) (keyOf s o.property)
    rw [List.map_cons, compareRows_cons, compareRows_cons, ih, placedByNulls]
    change (c.compareKeys o.reversed (keyOf r o.property) (keyOf s o.property)).then _ = _
    rw [hfirst]
    cases namedNull o (keyOf r o.property) (keyOf s o.property) <;>
      cases c.compareKeys o (keyOf r o.property) (keyOf s o.property) <;> simp

theorem compareRows_ne_eq_of_placedByNulls {orders : List Order} {r s : ρ}
    (h : c.placedByNulls keyOf orders r s = true) : c.compareRows keyOf orders r s ≠ .eq := by
  induction orders with
  | nil => simp [placedByNulls] at h
  | cons o orders ih =>
    rw [compareRows_cons, ne_eq, Ordering.then_eq_eq]
    rintro ⟨hfirst, hrest⟩
    rw [placedByNulls, if_pos hfirst] at h
    exact ih h hrest

theorem compareKeys_of_compareRows {orders : List Order} {r s : ρ}
    (h : c.compareRows keyOf orders r s = .eq) :
    ∀ o ∈ orders, c.compareKeys o (keyOf r o.property) (keyOf s o.property) = .eq := by
  induction orders with
  | nil => simp
  | cons o orders ih =>
    rw [compareRows_cons, Ordering.then_eq_eq] at h
    exact List.forall_mem_cons.2 ⟨h.1, ih h.2⟩

/-! ### Sorted rows -/

/-- A list of all rows in an order that the sort allows. -/
structure Sorts (sort : Sorting) (rows result : List ρ) : Prop where
  perm : result.Perm rows
  sorted : result.Pairwise fun r s => c.compareRows keyOf sort.orders r s ≠ .gt

instance [DecidableEq ρ] (sort : Sorting) (rows result : List ρ) :
    Decidable (c.Sorts keyOf sort rows result) :=
  decidable_of_iff (result.Perm rows ∧
      result.Pairwise fun r s => c.compareRows keyOf sort.orders r s ≠ .gt)
    ⟨fun h => ⟨h.1, h.2⟩, fun h => ⟨h.1, h.2⟩⟩

variable {c keyOf} {sort : Sorting} {ids : List String} {rows l l' : List ρ}

theorem exists_sorts (c : Collation κ) (keyOf : ρ → String → Option κ) (sort : Sorting)
    (rows : List ρ) : ∃ l, c.Sorts keyOf sort rows l := by
  refine ⟨rows.mergeSort fun r s => (c.compareRows keyOf sort.orders r s).isLE,
    List.mergeSort_perm _ _, ?_⟩
  refine (List.pairwise_mergeSort (fun _ _ _ => Std.TransCmp.isLE_trans) (fun r s => ?_) rows).imp
    Ordering.isLE_iff_ne_gt.1
  rw [← c.swap_compareRows keyOf sort.orders r s]
  cases c.compareRows keyOf sort.orders r s <;> rfl

/-- Rows that the sort tells apart can be sorted in one way only. -/
theorem Sorts.eq (h : c.Sorts keyOf sort rows l) (h' : c.Sorts keyOf sort rows l')
    (hdistinct : rows.Pairwise fun r s => c.compareRows keyOf sort.orders r s ≠ .eq) : l = l' := by
  have hsymm : Std.Symm fun r s => c.compareRows keyOf sort.orders r s ≠ .eq :=
    ⟨fun r s hne heq => hne (Std.OrientedCmp.eq_comm.1 heq)⟩
  refine List.Perm.eq_of_pairwise (fun r s hr hs hrs hsr => ?_) h.sorted h'.sorted
    (h.perm.trans h'.perm.symm)
  by_contra hne
  refine hdistinct.forall (h.perm.mem_iff.1 hr) (h'.perm.mem_iff.1 hs) hne ?_
  rw [← c.swap_compareRows] at hsr
  cases hcompare : c.compareRows keyOf sort.orders r s <;> simp_all

theorem placedByNulls_comm (orders : List Order) (r s : ρ) :
    c.placedByNulls keyOf orders r s = c.placedByNulls keyOf orders s r := by
  induction orders with
  | nil => rfl
  | cons o orders ih =>
    simp only [placedByNulls, ih, namedNull, Bool.or_comm]
    exact if_congr Std.OrientedCmp.eq_comm rfl rfl

/-- Without rows told apart by the side of nulls, the reversed sort reverses the rows. -/
theorem sorts_reverse_iff
    (h : ∀ r ∈ rows, ∀ s ∈ rows, c.placedByNulls keyOf sort.orders r s = false) :
    c.Sorts keyOf sort.reverse rows l ↔ c.Sorts keyOf sort rows l.reverse := by
  have hpairs (hperm : l.Perm rows) :
      (l.Pairwise fun r s => c.compareRows keyOf sort.reverse.orders r s ≠ .gt) ↔
        l.reverse.Pairwise fun r s => c.compareRows keyOf sort.orders r s ≠ .gt := by
    rw [List.pairwise_reverse]
    refine List.Pairwise.iff_of_mem fun {r s} hr hs => ?_
    rw [Sorting.orders_reverse, compareRows_reversed,
      h r (hperm.mem_iff.1 hr) s (hperm.mem_iff.1 hs), if_neg Bool.false_ne_true,
      c.swap_compareRows]
  constructor
  · intro hl
    exact ⟨(List.reverse_perm l).trans hl.perm, (hpairs hl.perm).1 hl.sorted⟩
  · intro hl
    have hperm := (List.reverse_perm l).symm.trans hl.perm
    exact ⟨hperm, (hpairs hperm).2 hl.sorted⟩

/-- In rows that either sort allows, one forward and one backward, nothing is told apart by the side
of nulls: it would come first in both. -/
theorem placedByNulls_of_sorts (h : c.Sorts keyOf sort.reverse rows l)
    (h' : c.Sorts keyOf sort rows l.reverse) {r s : ρ} (hr : r ∈ rows) (hs : s ∈ rows) :
    c.placedByNulls keyOf sort.orders r s = false := by
  by_contra hplaced
  rw [Bool.not_eq_false] at hplaced
  have hne := c.compareRows_ne_eq_of_placedByNulls keyOf hplaced
  have hboth : l.Pairwise fun r s => c.compareRows keyOf sort.reverse.orders r s ≠ .gt ∧
      c.compareRows keyOf sort.orders s r ≠ .gt :=
    h.sorted.and (List.pairwise_reverse.1 h'.sorted)
  have hsymm : Std.Symm fun r s => c.placedByNulls keyOf sort.orders r s = true →
      c.compareRows keyOf sort.orders r s = .eq := by
    refine ⟨fun r s hrs hsr => ?_⟩
    rw [placedByNulls_comm] at hsr
    exact Std.OrientedCmp.eq_comm.1 (hrs hsr)
  have hnone : l.Pairwise fun r s => c.placedByNulls keyOf sort.orders r s = true →
      c.compareRows keyOf sort.orders r s = .eq := by
    refine hboth.imp fun {r s} ⟨hrs, hsr⟩ hplaced => ?_
    rw [Sorting.orders_reverse, compareRows_reversed, if_pos hplaced] at hrs
    rw [← c.swap_compareRows] at hsr
    cases hcompare : c.compareRows keyOf sort.orders r s <;> simp_all
  have hrs : r ≠ s := by
    rintro rfl
    exact hne Std.ReflCmp.compare_self
  exact hne (hnone.forall (h.perm.mem_iff.2 hr) (h.perm.mem_iff.2 hs) hrs hplaced)

/-! ### Complete sorts -/

theorem completeSort_backward (sort : Sorting) (ids : List String) :
    ScrollDirection.backward.completeSort sort ids =
      (ScrollDirection.forward.completeSort sort ids).reverse := rfl

/-- The completed sort has an order on every identifier that regards case if the sort does. -/
theorem exists_order_of_mem_ids (d : ScrollDirection) {id : String} (h : id ∈ ids)
    (hcase : ∀ o ∈ sort.orders, o.property = id → o.ignoreCase = false) :
    ∃ o ∈ (d.completeSort sort ids).orders, o.property = id ∧ o.ignoreCase = false := by
  obtain ⟨o, ho, hid⟩ : ∃ o ∈ (ScrollDirection.forward.completeSort sort ids).orders,
      o.property = id ∧ o.ignoreCase = false := by
    cases hfor : sort.orderFor? id with
    | some o =>
      have hmem : o ∈ sort.orders := List.mem_of_find?_eq_some hfor
      have hid : o.property = id := by simpa using List.find?_some hfor
      exact ⟨o, List.mem_append_left _ hmem, hid, hcase o hmem hid⟩
    | none =>
      refine ⟨{ property := id }, List.mem_append_right _ (List.mem_map_of_mem ?_), rfl, rfl⟩
      exact List.mem_filter.2 ⟨h, by rw [hfor]; rfl⟩
  cases d with
  | forward => exact ⟨o, ho, hid⟩
  | backward => exact ⟨o.reversed, List.mem_map_of_mem ho, hid⟩

/-- Identifiers tell rows apart if the sort regards their case. -/
theorem pairwise_compareRows (d : ScrollDirection)
    (hcase : ∀ o ∈ sort.orders, o.property ∈ ids → o.ignoreCase = false)
    (hids : rows.Pairwise fun r s => ∃ id ∈ ids, keyOf r id ≠ keyOf s id) :
    rows.Pairwise fun r s => c.compareRows keyOf (d.completeSort sort ids).orders r s ≠ .eq := by
  refine hids.imp fun {r s} ⟨id, hid, hne⟩ heq => hne ?_
  obtain ⟨o, ho, rfl, hregards⟩ := exists_order_of_mem_ids d hid
    fun o ho hproperty => hcase o ho (hproperty ▸ hid)
  exact c.eq_of_compareKeys hregards (c.compareKeys_of_compareRows keyOf heq o ho)

/-- Rows can be sorted in either direction, in one way only if their identifiers are distinct. The
backward sort reverses what the forward sort makes of them just when no two of them are told apart by
a null on a side that an order names. -/
theorem backward_reverses_iff (c : Collation κ) (keyOf : ρ → String → Option κ) (sort : Sorting)
    (ids : List String) (rows : List ρ) :
    (∀ d : ScrollDirection, ∃ l, c.Sorts keyOf (d.completeSort sort ids) rows l) ∧
    ((rows.Pairwise fun r s => ∃ id ∈ ids, keyOf r id ≠ keyOf s id) →
      (∀ o ∈ sort.orders, o.property ∈ ids → o.ignoreCase = false) →
      ∀ (d : ScrollDirection) (l l' : List ρ), c.Sorts keyOf (d.completeSort sort ids) rows l →
        c.Sorts keyOf (d.completeSort sort ids) rows l' → l = l') ∧
    ((∀ l, c.Sorts keyOf (ScrollDirection.backward.completeSort sort ids) rows l ↔
        c.Sorts keyOf (ScrollDirection.forward.completeSort sort ids) rows l.reverse) ↔
      ∀ r ∈ rows, ∀ s ∈ rows, c.placedByNulls keyOf
        (ScrollDirection.forward.completeSort sort ids).orders r s = false) := by
  rw [completeSort_backward]
  refine ⟨fun d => exists_sorts c keyOf _ rows, ?_, ?_, ?_⟩
  · intro hids hcase d l l' hl hl'
    exact hl.eq hl' (pairwise_compareRows d hcase hids)
  · intro h r hr s hs
    obtain ⟨l, hl⟩ := exists_sorts c keyOf
      (ScrollDirection.forward.completeSort sort ids).reverse rows
    exact placedByNulls_of_sorts hl ((h l).1 hl) hr hs
  · intro h l
    exact sorts_reverse_iff h

/-! ### Ages with nulls first -/

/-- Whole numbers, with nulls below them. -/
def numbers : Collation Nat where
  compare _ := Ord.compare
  nullsLeast := true
  transitive _ := inferInstanceAs (Std.TransOrd Nat)
  separates := inferInstanceAs (Std.LawfulEqOrd Nat)

/-- Rows of an age that may be null and an identifier. -/
def agedKey (row : Option Nat × Nat) (property : String) : Option Nat :=
  if property = "age" then row.1 else some row.2

def byAgeNullsFirst : Sorting := ⟨[{ property := "age", nulls := .first }]⟩

/-- Two rows without an age are told apart by their identifiers, and turned round. -/
theorem backward_reverses_ageless :
    (∀ r ∈ [(none, 1), (none, 2)], ∀ s ∈ [(none, 1), (none, 2)], numbers.placedByNulls agedKey
      (ScrollDirection.forward.completeSort byAgeNullsFirst ["id"]).orders r s = false) ∧
    ∀ l, numbers.Sorts agedKey (ScrollDirection.backward.completeSort byAgeNullsFirst ["id"])
        [(none, 1), (none, 2)] l ↔
      numbers.Sorts agedKey (ScrollDirection.forward.completeSort byAgeNullsFirst ["id"])
        [(none, 1), (none, 2)] l.reverse :=
  have hplaced : ∀ r ∈ [(none, 1), (none, 2)], ∀ s ∈ [(none, 1), (none, 2)],
      numbers.placedByNulls agedKey
        (ScrollDirection.forward.completeSort byAgeNullsFirst ["id"]).orders r s = false := by
    decide
  ⟨hplaced, (backward_reverses_iff numbers agedKey byAgeNullsFirst ["id"]
    [(none, 1), (none, 2)]).2.2.2 hplaced⟩

/-- A row without an age stands before one with an age in either direction, though their identifiers
are distinct. -/
theorem ageless_first_either_way :
    ([(none, 1), (some 5, 2)].Pairwise fun r s => ∃ id ∈ ["id"], agedKey r id ≠ agedKey s id) ∧
    (∀ (d : ScrollDirection) (l : List (Option Nat × Nat)),
      numbers.Sorts agedKey (d.completeSort byAgeNullsFirst ["id"]) [(none, 1), (some 5, 2)] l ↔
        l = [(none, 1), (some 5, 2)]) ∧
    [((none : Option Nat), 1), (some 5, 2)] ≠ [(none, 1), (some 5, 2)].reverse := by
  have hids : [(none, 1), (some 5, 2)].Pairwise fun r s =>
      ∃ id ∈ ["id"], agedKey r id ≠ agedKey s id := by
    decide
  refine ⟨hids, fun d l => ?_, by decide⟩
  have hrows : numbers.Sorts agedKey (d.completeSort byAgeNullsFirst ["id"])
      [(none, 1), (some 5, 2)] [(none, 1), (some 5, 2)] := by
    cases d <;> decide
  constructor
  · intro hl
    exact hl.eq hrows (pairwise_compareRows d (by decide) hids)
  · rintro rfl
    exact hrows

end Collation

end Jpql
