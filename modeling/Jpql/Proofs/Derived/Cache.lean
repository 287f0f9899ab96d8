import Jpql.Derived

/-! The caches of a derived query never show. Rendering depends on the sort and on which arguments
are null, and on nothing else of a call, so an entry under the key of a call is what rendering for
this call would give; every call keeps it that way. Nor does a cache grow beyond its capacity. -/

namespace Jpql

open Derived

namespace Derived

/-! ### What rendering depends on -/

theorem bindingAt_congr {s s' : OperandSource} (hp : s.parameters = s'.parameters)
    (he : s.escape = s'.escape) (hn : ∀ k, s.isNullAt k = s'.isNullAt k) :
    s.bindingAt = s'.bindingAt := by
  funext part expected index
  unfold OperandSource.bindingAt
  rw [hp, he, hn]

theorem condition_congr {s s' : OperandSource} (hp : s.parameters = s'.parameters)
    (he : s.escape = s'.escape) (hn : ∀ k, s.isNullAt k = s'.isNullAt k) (options : Options) :
    condition options s = condition options s' := by
  have hdraw : drawBinding s = drawBinding s' := by
    funext part expected
    unfold drawBinding
    rw [bindingAt_congr hp he hn]
  have hoperand : drawOperand s = drawOperand s' := by
    funext part expected
    unfold drawOperand
    rw [hdraw]
  have hcomparison : comparison s = comparison s' := by
    funext part path operator
    unfold comparison
    rw [hoperand]
  have hpattern : pattern options s = pattern options s' := by
    funext part same
    unfold pattern
    rw [hoperand, he]
  have hequality : equality options s = equality options s' := by
    funext part path same
    unfold equality
    rw [hdraw]
  funext part
  unfold condition
  rw [hoperand, hcomparison, hpattern, hequality]

theorem disjunction_congr {s s' : OperandSource} (hp : s.parameters = s'.parameters)
    (he : s.escape = s'.escape) (hn : ∀ k, s.isNullAt k = s'.isNullAt k) (options : Options) :
    disjunction options s = disjunction options s' := by
  have hconjunction : conjunction options s = conjunction options s' := by
    funext parts
    unfold conjunction
    rw [condition_congr hp he hn]
  funext alternatives
  unfold disjunction
  rw [hconjunction]

/-! ### How many entries there are -/

namespace QueryCache

variable {α : Type} {c c' : QueryCache α} {n : Nat}

/-- The cache has room for `n` entries, and no more than these. -/
structure Bounded (c : QueryCache α) (n : Nat) : Prop where
  capacity : c.capacity = n
  size : c.size ≤ n

theorem bounded_ofCapacity (capacity : Nat) :
    (ofCapacity capacity : QueryCache α).Bounded (max 1 capacity) := ⟨rfl, Nat.zero_le _⟩

/-- An entry that is used moves to the front. -/
theorem Bounded.get? {key : CacheKey} {a : α} (h : c.Bounded n)
    (hget : c.get? key = some (a, c')) : c'.Bounded n := by
  unfold QueryCache.get? at hget
  split at hget
  next e he =>
    obtain ⟨-, rfl⟩ := Prod.mk.inj (Option.some.inj hget)
    have hkey : e.1 = key := by simpa using List.find?_some he
    have hless : (c.entries.filter (·.1 != key)).length < c.entries.length :=
      List.length_filter_lt_length_iff_exists.2
        ⟨e, List.mem_of_find?_eq_some he, by simp [hkey]⟩
    exact ⟨h.capacity, Nat.le_trans hless h.size⟩
  next => cases hget

/-- An entry that is new lets the last one go if there is no room. -/
theorem Bounded.put (h : c.Bounded n) (key : CacheKey) (a : α) : (c.put key a).Bounded n :=
  ⟨h.capacity, Nat.le_trans (List.length_take_le _ _) (Nat.le_of_eq h.capacity)⟩

end QueryCache

end Derived

namespace DerivedQuery

variable {q : DerivedQuery}

theorem render_congr {a a' : Arguments} (h : a.values.map (·.2.isNull) = a'.values.map (·.2.isNull))
    (sort : Sorting) (counting : Bool) : q.render sort a counting = q.render sort a' counting := by
  have hn : ∀ k, (q.creator (some a) counting).source.isNullAt k =
      (q.creator (some a') counting).source.isNullAt k := by
    intro k
    have hk {a : Arguments} : (a.value? k).any (·.isNull) =
        ((a.values.map (·.2.isNull))[k]?).any id := by
      rw [Arguments.value?, List.getElem?_map]
      cases a.values[k]? <;> rfl
    change (a.value? k).any (·.isNull) = (a'.value? k).any (·.isNull)
    rw [hk, hk, h]
  have hpredicate : disjunction q.options (q.creator (some a) counting).source =
      disjunction q.options (q.creator (some a') counting).source := by
    refine disjunction_congr ?_ ?_ hn q.options
    · rfl
    · rfl
  have hbuild : (q.creator (some a) counting).build = (q.creator (some a') counting).build := by
    funext sort
    unfold Creator.build
    change (disjunction q.options (q.creator (some a) counting).source q.method.alternatives >>= _) =
      (disjunction q.options (q.creator (some a') counting).source q.method.alternatives >>= _)
    rw [hpredicate]
    rfl
  have hcreate : (q.creator (some a) counting).create = (q.creator (some a') counting).create := by
    funext sort
    unfold Creator.create Creator.createSorted
    rw [hbuild]
    rfl
  change ((q.creator (some a) counting).create sort >>= _) =
    ((q.creator (some a') counting).create sort >>= _)
  rw [hcreate]
  rfl

/-! ### Entries -/

/-- Every entry is what rendering gives for the calls with its key. -/
def Faithful (q : DerivedQuery) (counting : Bool) (cache : QueryCache RenderedQuery) : Prop :=
  ∀ e ∈ cache.entries, ∀ sort a, CacheKey.of sort a = e.1 → q.render sort a counting = .ok e.2

theorem faithful_ofCapacity (q : DerivedQuery) (counting : Bool) (capacity : Nat) :
    q.Faithful counting (.ofCapacity capacity) := by
  intro e he
  cases he

theorem Faithful.get? {counting : Bool} {cache cache' : QueryCache RenderedQuery} {key : CacheKey}
    {r : RenderedQuery} (h : q.Faithful counting cache) (hget : cache.get? key = some (r, cache')) :
    (∀ sort a, CacheKey.of sort a = key → q.render sort a counting = .ok r) ∧
      q.Faithful counting cache' := by
  unfold QueryCache.get? at hget
  split at hget
  next e he =>
    obtain ⟨rfl, rfl⟩ := Prod.mk.inj (Option.some.inj hget)
    have hmem := List.mem_of_find?_eq_some he
    have hkey : e.1 = key := by simpa using List.find?_some he
    refine ⟨fun sort a hk => h e hmem sort a (hk.trans hkey.symm), fun e' he' => ?_⟩
    rcases List.mem_cons.1 he' with rfl | he'
    · exact h e' hmem
    · exact h e' (List.mem_filter.1 he').1
  next => cases hget

theorem Faithful.put {counting : Bool} {cache : QueryCache RenderedQuery} {sort : Sorting}
    {a : Arguments} {r : RenderedQuery} (h : q.Faithful counting cache)
    (hr : q.render sort a counting = .ok r) :
    q.Faithful counting (cache.put (.of sort a) r) := by
  intro e he sort' a' hkey
  rcases List.mem_cons.1 (List.mem_of_mem_take he) with rfl | he
  · obtain ⟨rfl, hnulls⟩ : sort' = sort ∧
        a'.values.map (·.2.isNull) = a.values.map (·.2.isNull) := by
      simpa [CacheKey.of] using hkey
    rw [render_congr hnulls]
    exact hr
  · exact h e (List.mem_filter.1 he).1 sort' a' hkey

/-- A query from the cache is the rendered one, and the cache stays faithful. -/
theorem Faithful.cached {counting : Bool} {cache : QueryCache RenderedQuery}
    (h : q.Faithful counting cache) (sort : Sorting) (a : Arguments) :
    (q.cached cache sort a counting).1 = q.render sort a counting ∧
      q.Faithful counting (q.cached cache sort a counting).2 := by
  unfold DerivedQuery.cached
  split
  · exact ⟨rfl, h⟩
  · split
    next hit cache' hget =>
      obtain ⟨hhit, hcache⟩ := h.get? hget
      exact ⟨(hhit sort a rfl).symm, hcache⟩
    next =>
      split
      next r hr => exact ⟨hr.symm, h.put hr⟩
      next e he => exact ⟨he.symm, h⟩

/-! ### Calls -/

inductive Call where
  | prepare (a : Arguments)
  | prepareCount (a : Arguments)

/-- The query after a call. -/
def after (q : DerivedQuery) : Call → DerivedQuery
  | .prepare a => (q.prepare a).2
  | .prepareCount a => (q.prepareCount a).2

/-- The query after all calls in order. -/
def afterAll (q : DerivedQuery) (calls : List Call) : DerivedQuery := calls.foldl after q

/-- Both caches are faithful. -/
structure Consistent (q : DerivedQuery) : Prop where
  queries : q.Faithful false q.queries
  counts : q.Faithful true q.counts

/-- What a call prepares when nothing comes from a cache. -/
def prepared (q : DerivedQuery) (a : Arguments) : Result PreparedQuery :=
  match a.scroll with
  | some (.keyset cursor) =>
    let sort := (q.creator (some a) false).keysetSort cursor a.sort
    (q.renderKeyset cursor a).map (q.bounded a · sort)
  | _ => (q.render a.sort a false).map (q.bounded a · (q.method.sort.and a.sort))

theorem Consistent.prepare (h : q.Consistent) (a : Arguments) :
    (q.prepare a).1 = q.prepared a ∧ ∃ queries, (q.prepare a).2 = { q with queries } ∧
      q.Faithful false queries := by
  obtain ⟨hsame, hcache⟩ := h.queries.cached a.sort a
  unfold DerivedQuery.prepare DerivedQuery.prepared
  rcases a.scroll with _ | last | cursor
  · exact ⟨by rw [← hsame], _, rfl, hcache⟩
  · exact ⟨by rw [← hsame], _, rfl, hcache⟩
  · exact ⟨rfl, _, rfl, h.queries⟩

/-- A call changes nothing but the caches, which stay faithful. -/
theorem Consistent.after (h : q.Consistent) (call : Call) :
    (q.after call).Consistent ∧ ∃ queries counts, q.after call = { q with queries, counts } := by
  cases call with
  | prepare a =>
    obtain ⟨_, queries, heq, hcache⟩ := h.prepare a
    rw [DerivedQuery.after, heq]
    exact ⟨⟨hcache, h.counts⟩, queries, q.counts, rfl⟩
  | prepareCount a =>
    exact ⟨⟨h.queries, (h.counts.cached .unsorted a).2⟩, q.queries, _, rfl⟩

theorem Consistent.afterAll (h : q.Consistent) (calls : List Call) :
    (q.afterAll calls).Consistent ∧
      ∃ queries counts, q.afterAll calls = { q with queries, counts } := by
  induction calls generalizing q with
  | nil => exact ⟨h, q.queries, q.counts, rfl⟩
  | cons call calls ih =>
    obtain ⟨hnext, queries, counts, heq⟩ := h.after call
    obtain ⟨hall, queries', counts', heq'⟩ := ih hnext
    refine ⟨hall, queries', counts', heq'.trans ?_⟩
    rw [heq]

/-- However often it was called, a query prepares what it would without caches. -/
theorem prepare_afterAll (h : q.Consistent) (calls : List Call) (a : Arguments) :
    ((q.afterAll calls).prepare a).1 = q.prepared a := by
  obtain ⟨hall, queries, counts, heq⟩ := h.afterAll calls
  rw [(hall.prepare a).1, heq]
  rfl

/-! ### Answers -/

/-- What a call answers. -/
def answer (q : DerivedQuery) : Call → Result PreparedQuery
  | .prepare a => (q.prepare a).1
  | .prepareCount a => (q.prepareCount a).1

/-- What the calls answer, one after the other. -/
def answers (q : DerivedQuery) : List Call → List (Result PreparedQuery)
  | [] => []
  | call :: calls => q.answer call :: (q.after call).answers calls

/-- What a call answers when nothing comes from a cache. -/
def uncached (q : DerivedQuery) : Call → Result PreparedQuery
  | .prepare a => q.prepared a
  | .prepareCount a => (q.render .unsorted a true).map fun rendered => { rendered }

theorem Consistent.answer (h : q.Consistent) (call : Call) : q.answer call = q.uncached call := by
  cases call with
  | prepare a => exact (h.prepare a).1
  | prepareCount a =>
    rw [uncached, ← (h.counts.cached .unsorted a).1]
    rfl

theorem Consistent.answers (h : q.Consistent) (calls : List Call) :
    q.answers calls = calls.map q.uncached := by
  induction calls generalizing q with
  | nil => rfl
  | cons call calls ih =>
    obtain ⟨hnext, queries, counts, heq⟩ := h.after call
    rw [DerivedQuery.answers, ih hnext, h.answer call, heq]
    rfl

theorem consistent_withCacheCapacity (q : DerivedQuery) (capacity : Nat) :
    (q.withCacheCapacity capacity).Consistent :=
  ⟨faithful_ofCapacity _ _ _, faithful_ofCapacity _ _ _⟩

theorem bounded_cached {cache : QueryCache RenderedQuery} {n : Nat} (h : cache.Bounded n)
    (sort : Sorting) (a : Arguments) (counting : Bool) :
    (q.cached cache sort a counting).2.Bounded n := by
  unfold DerivedQuery.cached
  split
  · exact h
  · split
    next hit cache' hget => exact h.get? hget
    next =>
      split
      next r hr => exact h.put _ r
      next e he => exact h

/-- Both caches have room for `n` entries, and no more than these. -/
structure Bounded (q : DerivedQuery) (n : Nat) : Prop where
  queries : q.queries.Bounded n
  counts : q.counts.Bounded n

theorem Bounded.after {n : Nat} (h : q.Bounded n) (call : Call) : (q.after call).Bounded n := by
  cases call with
  | prepare a =>
    change (q.prepare a).2.Bounded n
    unfold DerivedQuery.prepare
    rcases a.scroll with _ | last | cursor
    · exact ⟨bounded_cached h.queries _ _ _, h.counts⟩
    · exact ⟨bounded_cached h.queries _ _ _, h.counts⟩
    · exact h
  | prepareCount a => exact ⟨h.queries, bounded_cached h.counts _ _ _⟩

theorem Bounded.afterAll {n : Nat} (h : q.Bounded n) (calls : List Call) :
    (q.afterAll calls).Bounded n := by
  induction calls generalizing q with
  | nil => exact h
  | cons call calls ih => exact ih (h.after call)

/-- Whatever the capacity, all calls answer as if there were no caches, and no cache outgrows it. -/
theorem answers_withCacheCapacity (q : DerivedQuery) (capacity : Nat) (calls : List Call) :
    (q.withCacheCapacity capacity).answers calls = calls.map q.uncached ∧
      ((q.withCacheCapacity capacity).afterAll calls).queries.size ≤ max 1 capacity ∧
      ((q.withCacheCapacity capacity).afterAll calls).counts.size ≤ max 1 capacity := by
  have hbounded : ((q.withCacheCapacity capacity).afterAll calls).Bounded (max 1 capacity) :=
    Bounded.afterAll
      ⟨QueryCache.bounded_ofCapacity capacity, QueryCache.bounded_ofCapacity capacity⟩ calls
  refine ⟨?_, hbounded.queries.size, hbounded.counts.size⟩
  rw [(q.consistent_withCacheCapacity capacity).answers]
  rfl

end DerivedQuery

end Jpql
