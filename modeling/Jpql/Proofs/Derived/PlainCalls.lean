import Jpql.Proofs.Derived.Scrolling

/-! Calls without a cursor. When a query is set up it is rendered once, without arguments and without
counting. That is all that can fail: rendering for a call then fails only by an order of the call's
sort, whichever arguments are null or missing, and a call without a sort does not fail at all. -/

namespace Jpql.DerivedQuery

open Derived MethodName
open Step (result_bind_ok)

variable {q : DerivedQuery} {a : Arguments} {sort : Sorting} {counting : Bool}

/-- Rendering binds the operands of the method name, each to a parameter. -/
theorem SetUp.render_binds (hq : q.SetUp) {r : RenderedQuery}
    (h : q.render sort a counting = .ok r) :
    BindsAll (q.creator (some a) counting).source 0 (operands q.method) r.bindings ∧
      ParameterBinder.of q.parameters r.bindings = .ok r.binder := by
  obtain ⟨created, hcreated, hfinish⟩ := result_bind_ok.1 h
  obtain ⟨binder, hbinder, rfl⟩ := finish_ok.1 hfinish
  exact ⟨createSorted_bindsAll hq.method.onAttributes hcreated, hbinder⟩

/-- Only the orders of a sort can keep a query from being rendered once it is set up. -/
theorem SetUp.render (hq : q.SetUp) (hsort : ∀ o ∈ sort.orders, (q.creator none false).Accepts o)
    (a : Arguments) (counting : Bool) : ∃ r, q.render sort a counting = .ok r := by
  obtain ⟨_, haccepted⟩ := hq.accepted
  obtain ⟨created, hcreated⟩ :
      ∃ created, (q.creator (some a) counting).create sort = .ok created := by
    refine createSorted_succeeds haccepted fun hcounts hdelete o ho => ?_
    have hcount : q.method.isCount = false := (Bool.or_eq_false_iff.1 hcounts).2
    rcases List.mem_append.1 ho with ho | ho
    · exact hq.accepts hcount hdelete o ho
    · exact hsort o ho
  have hbinds : BindsAll (q.creator (some a) counting).source 0 (operands q.method)
      created.bindings := createSorted_bindsAll hq.method.onAttributes hcreated
  have hnone : ∀ b ∈ ([] : List ParameterBinding), ∃ v origin, b.origin = .synthetic v origin :=
    List.forall_mem_nil _
  obtain ⟨binder, hbinder⟩ := binder_succeeds hbinds hnone
  rw [List.append_nil] at hbinder
  exact ⟨_, result_bind_ok.2 ⟨created, hcreated, finish_ok.2 ⟨binder, hbinder, rfl⟩⟩⟩

theorem SetUp.render_unsorted (hq : q.SetUp) (a : Arguments) (counting : Bool) :
    ∃ r, q.render .unsorted a counting = .ok r := by
  have hnone : ∀ o ∈ Sorting.unsorted.orders, (q.creator none false).Accepts o :=
    List.forall_mem_nil _
  exact hq.render hnone a counting

/-- Whatever a cache holds, a query that can be rendered is returned. -/
theorem cached_succeeds (h : ∃ r, q.render sort a counting = .ok r)
    (cache : QueryCache RenderedQuery) : ∃ r, (q.cached cache sort a counting).1 = .ok r := by
  obtain ⟨r, hr⟩ := h
  unfold cached
  split
  · exact ⟨r, hr⟩
  · split
    next hit _ _ => exact ⟨hit, rfl⟩
    next =>
      rw [hr]
      exact ⟨r, rfl⟩

/-- Without a cursor a call takes its query from the cache. -/
theorem prepare_of_cached {r : RenderedQuery} (hscroll : ∀ cursor, a.scroll ≠ some (.keyset cursor))
    (h : (q.cached q.queries a.sort a false).1 = .ok r) :
    (q.prepare a).1 = .ok (q.bounded a r (q.method.sort.and a.sort)) := by
  unfold prepare
  rcases hposition : a.scroll with _ | last | cursor
  · exact congrArg (Except.map _) h
  · exact congrArg (Except.map _) h
  · exact absurd hposition (hscroll cursor)

theorem Reachable.prepare_succeeds (hq : q.Reachable) (hsort : a.sort.orders = [])
    (hscroll : ∀ cursor, a.scroll ≠ some (.keyset cursor)) : ∃ p, (q.prepare a).1 = .ok p := by
  have hnone : ∀ o ∈ a.sort.orders, (q.creator none false).Accepts o := by simp [hsort]
  obtain ⟨r, hr⟩ := cached_succeeds (hq.setUp.render hnone a false) q.queries
  exact ⟨_, prepare_of_cached hscroll hr⟩

end Jpql.DerivedQuery
