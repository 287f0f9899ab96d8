import Jpql.Proofs.Derived.PlainCalls

/-! Queries whose settings change between calls. A new set of options or a new capacity empties the
caches, so that from then on a query answers like one that was never called. A new returned type does
not: what was rendered for the type before is still found. -/

namespace Jpql.DerivedQuery

open Derived
open Step (result_bind_ok exists_of_toOption_map)

variable {q q' fresh : DerivedQuery}

/-- A query that is set up for a method and changed in its settings, but not called yet. -/
inductive Fresh : DerivedQuery → Prop
  | create {q : DerivedQuery} {name entityName : String} {m : Metamodel} {ps : MethodParameters}
      (h : DerivedQuery.create name entityName m ps = .ok q) : Fresh q
  | returning {q q' : DerivedQuery} {returned : ReturnedType} (hq : Fresh q)
      (h : q.returning returned = .ok q') : Fresh q'
  | withOptions {q q' : DerivedQuery} {options : Options} (hq : Fresh q)
      (h : q.withOptions options = .ok q') : Fresh q'
  | withCacheCapacity {q : DerivedQuery} (hq : Fresh q) (capacity : Nat) :
      Fresh (q.withCacheCapacity capacity)

/-- A query that is called in between, however often. Options and capacities change at any time, the
returned type only while nothing is in the caches. -/
inductive Maintained : DerivedQuery → Prop
  | fresh {q : DerivedQuery} (hq : Fresh q) : Maintained q
  | returning {q q' : DerivedQuery} {returned : ReturnedType} (hq : Reachable q)
      (hqueries : q.queries.isEmpty = true) (hcounts : q.counts.isEmpty = true)
      (h : q.returning returned = .ok q') : Maintained q'
  | withOptions {q q' : DerivedQuery} {options : Options} (hq : Reachable q)
      (h : q.withOptions options = .ok q') : Maintained q'
  | withCacheCapacity {q : DerivedQuery} (hq : Reachable q) (capacity : Nat) :
      Maintained (q.withCacheCapacity capacity)
  | after {q : DerivedQuery} (hq : Maintained q) (call : Call) : Maintained (q.after call)

/-- The queries differ in their caches at most. -/
def SameSettings (q fresh : DerivedQuery) : Prop :=
  ∃ queries counts, fresh = { q with queries, counts }

theorem SameSettings.uncached (h : q.SameSettings fresh) (call : Call) :
    fresh.uncached call = q.uncached call := by
  obtain ⟨queries, counts, rfl⟩ := h
  cases call <;> rfl

theorem SameSettings.after (h : q.SameSettings q') (call : Call) :
    q.SameSettings (q'.after call) := by
  obtain ⟨queries, counts, rfl⟩ := h
  exact after_eq _ call

theorem check_of_accepted (h : ∃ created, (q.creator none false).create .unsorted = .ok created) :
    q.check = .ok q := by
  obtain ⟨created, hcreated⟩ := h
  exact result_bind_ok.2 ⟨created, hcreated, rfl⟩

/-! ### Fresh queries -/

theorem Fresh.reachable (h : Fresh q) : q.Reachable := by
  induction h with
  | create h => exact .create h
  | returning _ h ih => exact ih.returning h
  | withOptions _ h ih => exact ih.withOptions h
  | withCacheCapacity _ capacity ih => exact ih.withCacheCapacity capacity

theorem isEmpty_of_create {name entityName : String} {m : Metamodel} {ps : MethodParameters}
    (h : DerivedQuery.create name entityName m ps = .ok q) :
    q.queries.isEmpty = true ∧ q.counts.isEmpty = true := by
  unfold DerivedQuery.create at h
  split at h
  next => cases h
  next =>
    obtain ⟨method, -, h⟩ := result_bind_ok.1 h
    obtain ⟨_, -, h⟩ := result_bind_ok.1 h
    obtain ⟨rfl, -⟩ := check_ok h
    exact ⟨rfl, rfl⟩

theorem Fresh.isEmpty (h : Fresh q) : q.queries.isEmpty = true ∧ q.counts.isEmpty = true := by
  induction h with
  | create h => exact isEmpty_of_create h
  | returning _ h ih =>
    obtain ⟨rfl, -⟩ := check_ok h
    exact ih
  | withOptions _ h ih =>
    obtain ⟨rfl, -⟩ := check_ok h
    exact ⟨rfl, rfl⟩
  | withCacheCapacity _ capacity ih => exact ⟨rfl, rfl⟩

theorem consistent_of_isEmpty (hqueries : q.queries.isEmpty = true)
    (hcounts : q.counts.isEmpty = true) : q.Consistent := by
  have hnone {counting : Bool} {cache : QueryCache RenderedQuery} (h : cache.isEmpty = true) :
      q.Faithful counting cache := by
    intro e he
    rw [List.isEmpty_iff.1 h] at he
    cases he
  exact ⟨hnone hqueries, hnone hcounts⟩

/-- Whatever happened to a query, one with its settings can be set up anew. -/
theorem Reachable.exists_fresh (h : q.Reachable) : ∃ fresh, fresh.Fresh ∧ q.SameSettings fresh := by
  induction h with
  | create h => exact ⟨_, .create h, _, _, rfl⟩
  | @returning q q' returned _ h ih =>
    obtain ⟨fresh, hfresh, queries, counts, rfl⟩ := ih
    obtain ⟨rfl, haccepted⟩ := check_ok h
    exact ⟨_, hfresh.returning (check_of_accepted haccepted), queries, counts, rfl⟩
  | @withOptions q q' options _ h ih =>
    obtain ⟨fresh, hfresh, queries, counts, rfl⟩ := ih
    obtain ⟨rfl, haccepted⟩ := check_ok h
    exact ⟨_, hfresh.withOptions (check_of_accepted haccepted), _, _, rfl⟩
  | withCacheCapacity _ capacity ih =>
    obtain ⟨fresh, hfresh, queries, counts, rfl⟩ := ih
    exact ⟨_, hfresh, queries, counts, rfl⟩
  | @after q _ call ih =>
    obtain ⟨fresh, hfresh, queries, counts, rfl⟩ := ih
    obtain ⟨queries', counts', hafter⟩ := q.after_eq call
    exact ⟨_, hfresh, queries, counts, by rw [hafter]⟩

/-! ### Queries in use -/

theorem Maintained.reachable (h : Maintained q) : q.Reachable := by
  induction h with
  | fresh hq => exact hq.reachable
  | returning hq _ _ h => exact hq.returning h
  | withOptions hq h => exact hq.withOptions h
  | withCacheCapacity hq capacity => exact hq.withCacheCapacity capacity
  | after _ call ih => exact ih.after call

/-- No cache holds anything but what rendering gives with the settings of now. -/
theorem Maintained.consistent (h : Maintained q) : q.Consistent := by
  induction h with
  | fresh hq => exact consistent_of_isEmpty hq.isEmpty.1 hq.isEmpty.2
  | returning _ hqueries hcounts h =>
    obtain ⟨rfl, -⟩ := check_ok h
    exact consistent_of_isEmpty hqueries hcounts
  | withOptions _ h =>
    obtain ⟨rfl, -⟩ := check_ok h
    exact consistent_of_isEmpty rfl rfl
  | @withCacheCapacity q _ capacity => exact q.consistent_withCacheCapacity capacity
  | after _ call ih => exact (ih.after call).1

/-- Whatever was rendered before its settings changed, a query answers like any other that was set up
with the settings of now, and there is such a one. -/
theorem maintained_answers (hq : q.Maintained) :
    (∃ fresh, fresh.Fresh ∧ q.SameSettings fresh) ∧ ∀ fresh, fresh.Fresh → q.SameSettings fresh →
      ∀ calls, q.answers calls = calls.map fresh.answer := by
  refine ⟨hq.reachable.exists_fresh, fun fresh hfresh hsame calls => ?_⟩
  have hconsistent : fresh.Consistent := consistent_of_isEmpty hfresh.isEmpty.1 hfresh.isEmpty.2
  rw [hq.consistent.answers]
  exact List.map_congr_left fun call _ => by rw [hconsistent.answer, hsame.uncached]

/-- Users are looked up once more with other options, after a call with the first ones. -/
theorem maintained_answers_on_users : ∃ q,
    ((scrolledQuery "id").after (.prepare scrolledArguments)).withOptions
      { caseTemplate := .lower } = .ok q ∧
    (∃ fresh, fresh.Fresh ∧ q.SameSettings fresh) ∧ ∀ fresh, fresh.Fresh → q.SameSettings fresh →
      ∀ calls, q.answers calls = calls.map fresh.answer := by
  have hq : (scrolledQuery "id").Reachable := .create (create_scrolled (.inl rfl))
  have haccepted : ((({ scrolledQuery "id" with options := { caseTemplate := .lower } } :
      DerivedQuery).creator none false).create .unsorted).toOption.map (·.bindings.length) =
        some 1 := by
    cbv
  obtain ⟨created, hcreated, -⟩ := exists_of_toOption_map haccepted
  obtain ⟨q, hchanged⟩ : ∃ q, ((scrolledQuery "id").after (.prepare scrolledArguments)).withOptions
      { caseTemplate := .lower } = .ok q := by
    obtain ⟨queries, counts, hafter⟩ := (scrolledQuery "id").after_eq (.prepare scrolledArguments)
    rw [hafter]
    exact ⟨_, check_of_accepted ⟨created, hcreated⟩⟩
  exact ⟨q, hchanged, maintained_answers (.withOptions (hq.after _) hchanged)⟩

/-! ### Another returned type -/

/-- What a call has rendered is found again, whatever the settings have become. -/
theorem cached_cached (q' : DerivedQuery) {a : Arguments} {sort : Sorting} {counting : Bool} {r : RenderedQuery}
    (ha : a.hasNull = false) (hr : q.render sort a counting = .ok r) (capacity : Nat) :
    (q'.cached (q.cached (.ofCapacity capacity) sort a counting).2 sort a counting).1 = .ok r := by
  have hcache : (q.cached (.ofCapacity capacity) sort a counting).2 =
      ⟨max 1 capacity, [(.of sort a, r)]⟩ := by
    have htake : [(CacheKey.of sort a, r)].take (max 1 capacity) = [(CacheKey.of sort a, r)] :=
      List.take_of_length_le (Nat.le_max_left _ _)
    simp only [cached, ha, hr, QueryCache.get?, QueryCache.put, QueryCache.ofCapacity]
    exact congrArg (QueryCache.mk _) htake
  rw [hcache]
  simp [cached, ha, QueryCache.get?]

theorem tuple_of_render {a : Arguments} {sort : Sorting} {counting : Bool} {r : RenderedQuery}
    (h : q.render sort a counting = .ok r) : r.tuple = q.returned.usesTuple := by
  obtain ⟨created, -, hfinish⟩ := result_bind_ok.1 h
  obtain ⟨binder, -, rfl⟩ := finish_ok.1 hfinish
  rfl

/-- The caches outlive a change of the returned type: users are looked up as entities once more,
though tuples are to be returned. -/
theorem returning_keeps_rendered : ∃ stale fresh,
    (scrolledQuery "id").Fresh ∧
    ((scrolledQuery "id").after (.prepare scrolledArguments)).returning .tuple = .ok stale ∧
    (scrolledQuery "id").returning .tuple = .ok fresh ∧ stale.SameSettings fresh ∧
    (stale.answer (.prepare scrolledArguments)).toOption.map (·.rendered.tuple) = some false ∧
    (fresh.answer (.prepare scrolledArguments)).toOption.map (·.rendered.tuple) = some true := by
  have hq : (scrolledQuery "id").Fresh := .create (create_scrolled (.inl rfl))
  have haccepted : ((({ scrolledQuery "id" with returned := .tuple } :
      DerivedQuery).creator none false).create .unsorted).toOption.map (·.bindings.length) =
        some 1 := by
    cbv
  obtain ⟨created, hcreated, -⟩ := exists_of_toOption_map haccepted
  obtain ⟨queries, counts, hafter⟩ := (scrolledQuery "id").after_eq (.prepare scrolledArguments)
  have hfresh : (scrolledQuery "id").returning .tuple =
      .ok { scrolledQuery "id" with returned := .tuple } := check_of_accepted ⟨created, hcreated⟩
  refine ⟨{ (scrolledQuery "id").after (.prepare scrolledArguments) with returned := .tuple }, _, hq,
    ?_, hfresh, ?_, ?_, ?_⟩
  · refine check_of_accepted ?_
    rw [hafter]
    exact ⟨created, hcreated⟩
  · rw [hafter]
    exact ⟨_, _, rfl⟩
  · obtain ⟨r, hr⟩ := hq.reachable.setUp.render_unsorted scrolledArguments false
    have hagain := cached_cached
      { (scrolledQuery "id").after (.prepare scrolledArguments) with returned := .tuple }
      rfl hr defaultCapacity
    rw [answer, prepare_of_cached (by simp [scrolledArguments]) hagain]
    simp only [Except.toOption, Option.map_some, rendered_bounded, tuple_of_render hr]
    rfl
  · obtain ⟨r, hr⟩ :=
      (hq.returning hfresh).reachable.setUp.render_unsorted scrolledArguments false
    have hfirst : (DerivedQuery.cached { scrolledQuery "id" with returned := .tuple }
        (.ofCapacity defaultCapacity) .unsorted scrolledArguments false).1 = .ok r :=
      ((faithful_ofCapacity _ _ _).cached _ _).1.trans hr
    rw [answer, prepare_of_cached (by simp [scrolledArguments]) hfirst]
    simp only [Except.toOption, Option.map_some, rendered_bounded, tuple_of_render hr]
    rfl

end Jpql.DerivedQuery
