import Jpql.Declared.Markers
import Mathlib.Data.List.Perm.Subperm
import Mathlib.Data.Nat.Nth

/-! The labels that allocations return. While the labels in use are the numbers from one on, the next
one is returned without a search, otherwise the first gap is filled; either way it is the least
positive number that is not in use. So a run of allocations counts through the numbers that were free
at its start. -/

namespace Jpql.Markers.Labels

/-- No label is listed twice, and those in sequence are the numbers from one on. -/
structure WellFormed (l : Labels) : Prop where
  nodup : l.used.Nodup
  sequence : l.sequential = true → ∀ i < l.used.length, i + 1 ∈ l.used

variable {used : List Nat} {l : Labels}

theorem wellFormed_ofUsed (h : used.Nodup) : (ofUsed used).WellFormed where
  nodup := h
  sequence hall := by
    simpa [ofUsed] using hall

/-- Labels that are not taken to be in sequence, whatever they are. -/
theorem wellFormed_gapped (h : used.Nodup) : WellFormed ⟨used, false⟩ where
  nodup := h
  sequence := nofun

/-! ### One allocation -/

/-- A list is too short to hold one number more than it has entries. -/
theorem exists_free (used : List Nat) : ∃ i ≤ used.length, i + 1 ∉ used := by
  by_contra h
  push Not at h
  have hsubset : (List.range (used.length + 1)).map (· + 1) ⊆ used := by
    intro n hn
    obtain ⟨i, hi, rfl⟩ := List.mem_map.1 hn
    exact h i (Nat.lt_succ_iff.1 (List.mem_range.1 hi))
  have hnodup : ((List.range (used.length + 1)).map (· + 1)).Nodup :=
    List.nodup_range.map fun _ _ h => Nat.succ.inj h
  have hlength := (hnodup.subperm hsubset).length_le
  rw [List.length_map, List.length_range] at hlength
  omega

theorem isLeast_firstFree (used : List Nat) : IsLeast {k | 0 < k ∧ k ∉ used} (firstFree used) := by
  obtain ⟨i, hi, hfree⟩ := exists_free used
  have hfirst : firstFree used = (((List.range (used.length + 1)).find?
      fun i => decide (i + 1 ∉ used)).map (· + 1)).getD (used.length + 1) := by
    rw [firstFree, List.find?_map]
    rfl
  cases hfind : (List.range (used.length + 1)).find? fun i => decide (i + 1 ∉ used) with
  | none =>
    have hused := List.find?_eq_none.1 hfind i (List.mem_range.2 (by omega))
    exact absurd hfree (by simpa using hused)
  | some j =>
    obtain ⟨hj, -, hbelow⟩ := List.find?_range_eq_some.1 hfind
    rw [hfirst, hfind]
    refine ⟨⟨Nat.succ_pos j, by simpa using hj⟩, fun k ⟨hpos, hk⟩ => ?_⟩
    by_contra hlt
    have hused := hbelow (k - 1) (by simp at hlt; omega)
    rw [Nat.sub_add_cancel hpos] at hused
    exact hk (by simpa using hused)

/-- Labels in sequence leave no gap: there are no others. -/
theorem WellFormed.mem_used_iff (h : l.WellFormed) (hsequential : l.sequential = true) {k : Nat} :
    k ∈ l.used ↔ 0 < k ∧ k ≤ l.used.length := by
  have hsubset : List.range' 1 l.used.length ⊆ l.used := by
    intro k hk
    obtain ⟨hpos, hlt⟩ := List.mem_range'_1.1 hk
    have hmem := h.sequence hsequential (k - 1) (by omega)
    rwa [Nat.sub_add_cancel hpos] at hmem
  have hperm : (List.range' 1 l.used.length).Perm l.used :=
    ((List.nodup_range' 1).subperm hsubset).perm_of_length_le (by simp)
  rw [← hperm.mem_iff, List.mem_range'_1]
  omega

theorem WellFormed.isLeast_allocate (h : l.WellFormed) :
    IsLeast {k | 0 < k ∧ k ∉ l.used} l.allocate.1 := by
  cases hsequential : l.sequential with
  | true =>
    have hnext : l.allocate.1 = l.used.length + 1 := if_pos hsequential
    rw [hnext]
    constructor
    · refine ⟨Nat.succ_pos _, fun hmem => ?_⟩
      have := ((h.mem_used_iff hsequential).1 hmem).2
      omega
    · rintro k ⟨hpos, hk⟩
      rw [h.mem_used_iff hsequential] at hk
      omega
  | false =>
    have hgap : l.allocate.1 = firstFree l.used := if_neg (by simp [hsequential])
    rw [hgap]
    exact isLeast_firstFree l.used

theorem WellFormed.allocate_notMem (h : l.WellFormed) : l.allocate.1 ∉ l.used :=
  h.isLeast_allocate.1.2

theorem allocate_le (l : Labels) : l.allocate.1 ≤ l.used.length + 1 := by
  obtain ⟨i, hi, hfree⟩ := exists_free l.used
  have hle : firstFree l.used ≤ i + 1 := (isLeast_firstFree l.used).2 ⟨Nat.succ_pos i, hfree⟩
  unfold allocate
  dsimp only
  split
  · exact Nat.le_refl _
  · omega

theorem WellFormed.used_allocate (h : l.WellFormed) :
    l.allocate.2.used = l.allocate.1 :: l.used := by
  change insert l.allocate.1 l.used = _
  rw [insert, if_neg h.allocate_notMem]

theorem WellFormed.allocate (h : l.WellFormed) : l.allocate.2.WellFormed where
  nodup := by
    rw [h.used_allocate]
    exact List.nodup_cons.2 ⟨h.allocate_notMem, h.nodup⟩
  sequence hsequential i hi := by
    have hsequential : l.sequential = true := hsequential
    have hfirst : l.allocate.1 = l.used.length + 1 := if_pos hsequential
    rw [h.used_allocate, List.length_cons] at hi
    rw [h.used_allocate, hfirst, List.mem_cons]
    rcases Nat.lt_or_eq_of_le (Nat.lt_succ_iff.1 hi) with hlt | rfl
    · exact .inr (h.sequence hsequential i hlt)
    · exact .inl rfl

/-! ### Runs of allocations -/

/-- What is in use after `n` allocations. -/
def after (l : Labels) : Nat → Labels
  | 0 => l
  | n + 1 => (l.after n).allocate.2

/-- The label that an allocation returns after `n` others. -/
def nextAfter (l : Labels) (n : Nat) : Nat := (l.after n).allocate.1

theorem WellFormed.after (h : l.WellFormed) (n : Nat) : (l.after n).WellFormed := by
  induction n with
  | zero => exact h
  | succ n ih => exact ih.allocate

theorem mem_used_after {n k : Nat} :
    k ∈ (l.after n).used ↔ k ∈ l.used ∨ ∃ i < n, k = l.nextAfter i := by
  induction n with
  | zero => simp [after]
  | succ n ih =>
    have hinsert : k ∈ (l.after (n + 1)).used ↔ k = l.nextAfter n ∨ k ∈ (l.after n).used :=
      mem_insert
    rw [hinsert, ih]
    constructor
    · rintro (rfl | hmem | ⟨i, hi, rfl⟩)
      · exact .inr ⟨n, Nat.lt_succ_self n, rfl⟩
      · exact .inl hmem
      · exact .inr ⟨i, Nat.lt_succ_of_lt hi, rfl⟩
    · rintro (hmem | ⟨i, hi, rfl⟩)
      · exact .inr (.inl hmem)
      · rcases Nat.lt_or_eq_of_le (Nat.lt_succ_iff.1 hi) with hlt | rfl
        · exact .inr (.inr ⟨i, hlt, rfl⟩)
        · exact .inl rfl

theorem WellFormed.isLeast_nextAfter (h : l.WellFormed) (n : Nat) :
    IsLeast {k | 0 < k ∧ k ∉ l.used ∧ ∀ i < n, k ≠ l.nextAfter i} (l.nextAfter n) := by
  have hset : {k | 0 < k ∧ k ∉ l.used ∧ ∀ i < n, k ≠ l.nextAfter i} =
      {k | 0 < k ∧ k ∉ (l.after n).used} := by
    ext k
    simp [mem_used_after]
  rw [hset]
  exact (h.after n).isLeast_allocate

theorem infinite_free (used : List Nat) : (Set.ofPred fun k => 0 < k ∧ k ∉ used).Infinite := by
  refine Set.infinite_of_forall_exists_gt fun a => ?_
  obtain ⟨k, hk⟩ := Infinite.exists_notMem_finset (used.toFinset ∪ Finset.range (a + 1))
  simp only [Finset.mem_union, List.mem_toFinset, Finset.mem_range, not_or] at hk
  exact ⟨k, ⟨by omega, hk.1⟩, by omega⟩

/-- The labels are the free numbers in order, from the least on. -/
theorem WellFormed.nextAfter_eq_nth (h : l.WellFormed) (n : Nat) :
    l.nextAfter n = Nat.nth (fun k => 0 < k ∧ k ∉ l.used) n := by
  have hinfinite := infinite_free l.used
  induction n using Nat.strong_induction_on with
  | _ n ih =>
    -- what is not returned before is what is greater than all that is
    have hset : {k | 0 < k ∧ k ∉ l.used ∧ ∀ i < n, k ≠ l.nextAfter i} =
        {k | (0 < k ∧ k ∉ l.used) ∧ ∀ i < n, Nat.nth (fun k => 0 < k ∧ k ∉ l.used) i < k} := by
      ext k
      constructor
      · rintro ⟨hpos, hk, hne⟩
        refine ⟨⟨hpos, hk⟩, fun i hi => ?_⟩
        obtain ⟨j, rfl⟩ : k ∈ Set.range (Nat.nth fun k => 0 < k ∧ k ∉ l.used) := by
          rw [Nat.range_nth_of_infinite hinfinite]
          exact ⟨hpos, hk⟩
        rw [Nat.nth_lt_nth hinfinite]
        by_contra hle
        exact hne j (by omega) (ih j (by omega)).symm
      · rintro ⟨⟨hpos, hk⟩, hlt⟩
        refine ⟨hpos, hk, fun i hi heq => ?_⟩
        have := hlt i hi
        rw [heq, ih i hi] at this
        exact Nat.lt_irrefl _ this
    have hleast := h.isLeast_nextAfter n
    rw [hset] at hleast
    exact hleast.unique (Nat.isLeast_nth_of_infinite hinfinite n)

/-- Every allocation returns the least positive label that is neither in use at the start nor
returned before, so the labels of a run are the free numbers in order. It makes no difference whether
the labels are found to be in sequence at the start or a gap is looked for every time. -/
theorem allocations_fill_gaps (h : used.Nodup) (n : Nat) :
    IsLeast {k | 0 < k ∧ k ∉ used ∧ ∀ i < n, k ≠ (ofUsed used).nextAfter i}
      ((ofUsed used).nextAfter n) ∧
    (ofUsed used).nextAfter n = Nat.nth (fun k => 0 < k ∧ k ∉ used) n ∧
    (ofUsed used).nextAfter n = nextAfter ⟨used, false⟩ n := by
  have hlabels := wellFormed_ofUsed h
  have hnth : (ofUsed used).nextAfter n = Nat.nth (fun k => 0 < k ∧ k ∉ used) n :=
    hlabels.nextAfter_eq_nth n
  refine ⟨hlabels.isLeast_nextAfter n, hnth, ?_⟩
  rw [hnth]
  exact ((wellFormed_gapped h).nextAfter_eq_nth n).symm

/-- The label `0` is no start of a sequence, and `2` is a gap. -/
theorem allocations_fill_gaps_of_zero :
    [0, 1, 3].Nodup ∧ (ofUsed [0, 1, 3]).sequential = false ∧ (ofUsed [0, 1, 3]).nextAfter 0 = 2 ∧
    (ofUsed [0, 1, 3]).nextAfter 1 = 4 ∧
    IsLeast {k | 0 < k ∧ k ∉ [0, 1, 3] ∧ ∀ i < 1, k ≠ (ofUsed [0, 1, 3]).nextAfter i}
      ((ofUsed [0, 1, 3]).nextAfter 1) := by
  have hnodup : [0, 1, 3].Nodup := by decide
  exact ⟨hnodup, by decide, by decide, by decide, (allocations_fill_gaps hnodup 1).1⟩

example : (ofUsed [2, 1]).sequential = true ∧ (ofUsed [2, 1]).nextAfter 0 = 3 ∧
    (ofUsed [2, 1]).nextAfter 1 = 4 := by
  decide

end Jpql.Markers.Labels
