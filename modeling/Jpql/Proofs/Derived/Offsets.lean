import Jpql.Proofs.Derived.Settings

/-! Scrolling by offset. Each window holds the rows right behind the offset it was asked for, each with
its own offset as its position, so that all windows together are the rest of the result. This needs a
limit that does not exceed that of the method name: otherwise the rows are read from further in front
than their positions say. -/

namespace Jpql

open Derived MethodName
open Step (result_bind_ok)

variable {σ ρ : Type}

/-- The call that goes on behind an offset. -/
def Arguments.behindOffset (a : Arguments) (last : Option Nat) : Arguments :=
  { a with scroll := some (.offset last) }

/-- The provider takes a rendered query, and returns what the bounds leave of a fixed result. `held` is
the value that a created query holds for a parameter, and `request` what it asks for. -/
structure Provider.Serves (provider : Provider σ ρ) (held : σ → QueryParameter → Option Value)
    (request : σ → Request) (r : RenderedQuery) (result : List ρ) : Prop where
  takes : provider.Takes held r.query r.tuple (boundPositions r.bindings)
  create : ∀ s, provider.create r.query false r.tuple = .ok s → request s = { text := r.query }
  set : ∀ p v t s, request (provider.set p v t s).2 = request s
  setFirstResult : ∀ n s,
    request (provider.setFirstResult n s) = { request s with firstResult := some n }
  setMaxResults : ∀ n s,
    request (provider.setMaxResults n s) = { request s with maxResults := some n }
  resultList : ∀ s, (request s).text = r.query →
    provider.resultList s = .ok ((request s).cut result)

/-- What a provider returns for a prepared query is the part of its result within the bounds. -/
theorem Provider.Serves.rowsOf {provider : Provider σ ρ}
    {held : σ → QueryParameter → Option Value} {request : σ → Request} {r : RenderedQuery}
    {result : List ρ} (h : provider.Serves held request r result) {q : DerivedQuery} (hq : q.SetUp)
    {a : Arguments} {sort : Sorting} {counting : Bool} (hr : q.render sort a counting = .ok r)
    {p : PreparedQuery} (hp : p.rendered = r) (a' : Arguments) :
    DerivedQuery.rowsOf provider a' p =
      .ok (Request.cut ⟨r.query, p.firstResult, p.maxResults⟩ result) := by
  subst hp
  obtain ⟨hbinds, hbinder⟩ := hq.render_binds hr
  obtain ⟨s, s', hcreate, hbind, -⟩ :=
    binder_binds hbinder hbinds.numbered hbinds.takesValue a' h.takes fun _ hn => hn
  have hkept := binder_keeps h.set hbinder a' s
  rw [hbind, h.create s hcreate] at hkept
  have hrequest := PreparedQuery.request_restricted (p := p) h.setFirstResult h.setMaxResults hkept
  refine result_bind_ok.2 ⟨_, PreparedQuery.create_eq hcreate hbind, ?_⟩
  rw [h.resultList _ (by rw [hrequest]), hrequest]
  rfl

namespace DerivedQuery

variable {q q' : DerivedQuery} {a : Arguments} {w : Nat} {provider : Provider σ ρ}
  {held : σ → QueryParameter → Option Value} {request : σ → Request} {r : RenderedQuery}
  {result : List ρ} {keyOf : ρ → String → Value}

/-- The call looks for rows in windows of `w`, and asks for no more than the method name allows. -/
structure OffsetScrollable (q : DerivedQuery) (a : Arguments) (w : Nat) : Prop where
  finds : Finds q.method
  unpaged : a.page = .unpaged
  window : q.method.limit.or a.limit = some w
  positive : 1 ≤ w
  within : ∀ n, a.limit = some n → n ≤ w

/-! ### One window -/

/-- The rows of a result, each with its own offset as its position. -/
def placed (result : List ρ) : List (ρ × ScrollPosition) :=
  result.zipIdx.map fun (row, n) => (row, .offset (some n))

@[simp] theorem length_placed (result : List ρ) : (placed result).length = result.length := by
  simp [placed]

theorem getElem?_placed (n : Nat) :
    (placed result)[n]? = result[n]?.map fun row => (row, .offset (some n)) := by
  simp [placed, List.getElem?_zipIdx, Function.comp_def]

/-- The number of rows up to an offset position. -/
def rowsUpTo (last : Option Nat) : Nat := last.elim 0 (· + 1)

/-- The row behind a position is the next one, as long as its index has 64 bits. -/
theorem startAfter_eq {last : Option Nat} (hlast : ∀ n ∈ last, n < PageRequest.maxRows) :
    ScrollPosition.startAfter last = rowsUpTo last := by
  cases last with
  | none => rfl
  | some n => exact PageRequest.wrapped_of_le (hlast n rfl)

/-- The window behind an offset, when the rows from index `first` on are read. -/
def offsetWindow (result : List ρ) (w first : Nat) (last : Option Nat) : Window ρ :=
  .ofRows ((result.drop first).take w)
    (fun i _ => .offset (some (PageRequest.wrapped (ScrollPosition.startAfter last + i))))
    (decide (first + w < result.length))

theorem entries_offsetWindow (hsize : result.length ≤ PageRequest.maxRows) (w : Nat)
    (last : Option Nat) :
    (offsetWindow result w (ScrollPosition.startAfter last) last).entries =
      ((placed result).drop (ScrollPosition.startAfter last)).take w := by
  refine List.ext_getElem? fun i => ?_
  simp only [offsetWindow, Window.ofRows, List.getElem?_map, List.getElem?_zipIdx,
    List.getElem?_take, List.getElem?_drop, getElem?_placed]
  split
  · rcases hrow : result[ScrollPosition.startAfter last + i]? with _ | row
    · rfl
    · -- The index of a row that there is has 64 bits.
      have hindex := (List.getElem?_eq_some_iff.1 hrow).1
      simp [PageRequest.wrapped_of_le (hindex.le.trans hsize)]
  · rfl

theorem lastPosition?_offsetWindow (hsize : result.length ≤ PageRequest.maxRows)
    {last : Option Nat} (hw : 1 ≤ w)
    (hmore : ScrollPosition.startAfter last + w < result.length) :
    (offsetWindow result w (ScrollPosition.startAfter last) last).lastPosition? =
      some (.offset (some (ScrollPosition.startAfter last + w - 1))) := by
  have hlength : (((placed result).drop (ScrollPosition.startAfter last)).take w).length = w := by
    rw [List.length_take, List.length_drop, length_placed]
    omega
  have hlast : ScrollPosition.startAfter last + (w - 1) < result.length := by omega
  rw [Window.lastPosition?, entries_offsetWindow hsize, List.getLast?_eq_getElem?, hlength,
    List.getElem?_take_of_lt (by omega), List.getElem?_drop, getElem?_placed,
    List.getElem?_eq_getElem hlast, Nat.add_sub_assoc hw]
  rfl

theorem ofResult_offset (hsize : result.length ≤ PageRequest.maxRows) (first : Nat)
    (last : Option Nat) (sort : Sorting) :
    Window.ofResult ((result.drop first).take (beyondWindow w)) (some w) (.offset last) sort keyOf =
      offsetWindow result w first last := by
  have hrest : (result.drop first).length ≤ PageRequest.maxRows := by
    rw [List.length_drop]
    omega
  have hnext : (some w).any (· < ((result.drop first).take (beyondWindow w)).length) =
      decide (first + w < result.length) := by
    rw [any_beyondWindow hrest, List.length_drop]
    exact decide_eq_decide.2 (by omega)
  simp only [Window.ofResult, Option.getD_some, take_beyondWindow hrest, hnext]
  rfl

/-- Scrolling by offset reads the rows within its bounds, and one row more, whatever is in the
caches. -/
theorem SetUp.scroll_offset (hq : q.SetUp) (hr : q.render a.sort a false = .ok r)
    (hserves : provider.Serves held request r result) (hsize : result.length ≤ PageRequest.maxRows)
    (hsame : q.SameSettings q') (hconsistent : q'.Consistent) {last first : Option Nat}
    (hbounds : q.bounds (a.behindOffset last) = (first, some w)) :
    q'.scroll provider (a.behindOffset last) keyOf =
      (.ok (offsetWindow result w (first.getD 0) last),
        q'.after (.prepare (a.behindOffset last))) := by
  have hposition : (a.behindOffset last).scroll = some (.offset last) := rfl
  have hrender : q.render a.sort (a.behindOffset last) false = .ok r :=
    (render_congr rfl _ _).trans hr
  have hprepared : q.prepared (a.behindOffset last) =
      .ok ⟨r, first, some (beyondWindow w), some w, q.method.sort.and a.sort⟩ := by
    have hbounded : q.bounded (a.behindOffset last) r (q.method.sort.and a.sort) =
        ⟨r, first, some (beyondWindow w), some w, q.method.sort.and a.sort⟩ := by
      rw [bounded, hbounds]
      rfl
    rw [← hbounded]
    exact congrArg (Except.map _) hrender
  have hcall : q'.prepare (a.behindOffset last) =
      (.ok ⟨r, first, some (beyondWindow w), some w, q.method.sort.and a.sort⟩,
        q'.after (.prepare (a.behindOffset last))) := by
    refine Prod.ext ?_ rfl
    rw [← hprepared]
    exact (hconsistent.answer (.prepare _)).trans (hsame.uncached (.prepare _))
  have hrows := hserves.rowsOf hq hr
    (p := ⟨r, first, some (beyondWindow w), some w, q.method.sort.and a.sort⟩) rfl
    (a.behindOffset last)
  simp only [DerivedQuery.scroll, hposition, hcall, Except.bind, hrows]
  rw [← ofResult_offset hsize]
  rfl

theorem OffsetScrollable.bounds (h : q.OffsetScrollable a w) (last : Option Nat) :
    q.bounds (a.behindOffset last) = (last.map fun n => ScrollPosition.startAfter (some n), some w) := by
  have hwindow := h.window
  have hpage : (a.behindOffset last).page = .unpaged := h.unpaged
  have hlimit : (a.behindOffset last).limit = a.limit := rfl
  have hfirst : requestedFirst (a.behindOffset last) =
      last.map fun n => ScrollPosition.startAfter (some n) := by
    unfold requestedFirst
    rw [hpage]
    cases last <;> rfl
  unfold DerivedQuery.bounds requestedMax
  rw [hpage, hlimit, hfirst, h.finds.notExists]
  -- The limit of the call replaces none and does not exceed that of the method name.
  cases hmethod : q.method.limit with
  | none => simpa [limited, hmethod, PageRequest.size?] using hwindow
  | some n =>
    obtain rfl : n = w := by simpa [hmethod] using hwindow
    cases hcall : a.limit with
    | none => cases last <;> rfl
    | some max =>
      have hmax : ¬ n < max := by simpa using h.within max hcall
      cases last <;> simp [limited, hmax]

/-- Behind an offset, the window holds the rows that come next. -/
theorem OffsetScrollable.scroll (h : q.OffsetScrollable a w) (hq : q.SetUp)
    (hr : q.render a.sort a false = .ok r) (hserves : provider.Serves held request r result)
    (hsize : result.length ≤ PageRequest.maxRows) (hsame : q.SameSettings q')
    (hconsistent : q'.Consistent) (keyOf : ρ → String → Value) (last : Option Nat) :
    q'.scroll provider (a.behindOffset last) keyOf =
      (.ok (offsetWindow result w (ScrollPosition.startAfter last) last),
        q'.after (.prepare (a.behindOffset last))) := by
  have hstart : (last.map fun n => ScrollPosition.startAfter (some n)).getD 0 =
      ScrollPosition.startAfter last := by cases last <;> rfl
  rw [← hstart]
  exact hq.scroll_offset hr hserves hsize hsame hconsistent (h.bounds last)

/-! ### A whole scroll -/

/-- A scroll from an offset on goes through the rest of the result. -/
theorem OffsetScrollable.scrolls (h : q.OffsetScrollable a w) (hq : q.SetUp)
    (hr : q.render a.sort a false = .ok r) (hserves : provider.Serves held request r result)
    (hsize : result.length ≤ PageRequest.maxRows) (hsame : q.SameSettings q')
    (hconsistent : q'.Consistent) (keyOf : ρ → String → Value) (last : Option Nat) :
    ∃ windows, Scrolls provider a keyOf q' (.offset last) windows ∧
      windows.flatMap Window.entries =
        (placed result).drop (ScrollPosition.startAfter last) := by
  -- Each window has a row at least, so that less is left behind it.
  induction hn : result.length - ScrollPosition.startAfter last using Nat.strong_induction_on
    generalizing q' last with
  | _ n ih =>
    have hpos := h.positive
    have hscroll := h.scroll hq hr hserves hsize hsame hconsistent keyOf last
    have hentries := entries_offsetWindow hsize w last
    by_cases hmore : ScrollPosition.startAfter last + w < result.length
    · have hstart : ScrollPosition.startAfter (some (ScrollPosition.startAfter last + w - 1)) =
          ScrollPosition.startAfter last + w := by
        rw [startAfter_eq (by simp; omega), rowsUpTo, Option.elim_some]
        omega
      obtain ⟨windows, hwindows, hall⟩ := ih _ (by omega) (hsame.after _) (hconsistent.after _).1
        (some (ScrollPosition.startAfter last + w - 1)) rfl
      refine ⟨_ :: windows, .next hscroll (decide_eq_true hmore)
        (lastPosition?_offsetWindow hsize hpos hmore) hwindows, ?_⟩
      rw [List.flatMap_cons, hentries, hall, hstart, ← List.drop_drop, List.take_append_drop]
    · refine ⟨[_], .last hscroll (decide_eq_false hmore), ?_⟩
      rw [List.flatMap_singleton, hentries, List.take_of_length_le]
      rw [List.length_drop, length_placed]
      omega

/-- Each window behind an offset holds the rows that come next, each with its own offset, and says
whether more follow. Scrolling on from the last position ends, in one way only, and goes through the
rest of the result without loss or repetition. The row behind the given offset needs an index of 64
bits; those behind the positions of a window have one. -/
theorem offset_scroll_tiles (hq : q.Maintained) (h : q.OffsetScrollable a w)
    (hr : q.render a.sort a false = .ok r) (hserves : provider.Serves held request r result)
    (hsize : result.length ≤ PageRequest.maxRows) (last : Option Nat)
    (hlast : ∀ n ∈ last, n < PageRequest.maxRows) :
    (∃ window, (q.scroll provider (a.behindOffset last) keyOf).1 = .ok window ∧
      window.entries = ((placed result).drop (rowsUpTo last)).take w ∧
      (window.hasNext = true ↔ rowsUpTo last + window.size < result.length)) ∧
    ∃ windows, (∀ windows',
        Scrolls provider a keyOf q (.offset last) windows' ↔ windows' = windows) ∧
      windows.flatMap Window.entries = (placed result).drop (rowsUpTo last) := by
  have hsame : q.SameSettings q := ⟨_, _, rfl⟩
  rw [← startAfter_eq hlast]
  constructor
  · refine ⟨_, congrArg Prod.fst (h.scroll hq.reachable.setUp hr hserves hsize hsame hq.consistent
      keyOf last), entries_offsetWindow hsize w last, ?_⟩
    rw [Window.size, entries_offsetWindow hsize, List.length_take, List.length_drop, length_placed]
    exact decide_eq_true_iff.trans (by omega)
  · obtain ⟨windows, hwindows, hall⟩ :=
      h.scrolls hq.reachable.setUp hr hserves hsize hsame hq.consistent keyOf last
    refine ⟨windows, fun windows' => ⟨fun hw => hw.unique hwindows, ?_⟩, hall⟩
    rintro rfl
    exact hwindows

/-! ### A provider of one result -/

/-- A created query, with the values and bounds set so far. -/
structure ResultQuery where
  request : Request
  held : QueryParameter → Option Value := fun _ => none

/-- The provider that takes one rendered query and has its result at hand. -/
def resultProvider (r : RenderedQuery) (result : List ρ) : Provider ResultQuery ρ where
  create text _ _ :=
    if text = r.query then .ok { request := { text } } else .error ("Unknown query " ++ text)
  parameters _ := (boundPositions r.bindings).map .positional
  set p v _ s :=
    if p ∈ (boundPositions r.bindings).map .positional then
      (.ok (), { s with held := fun p' => if p' = p then some v else s.held p' })
    else (.error (MemoryQuery.notLocated p.label), s)
  setFirstResult n s := { s with request := { s.request with firstResult := some n } }
  setMaxResults n s := { s with request := { s.request with maxResults := some n } }
  resultList s := .ok (s.request.cut result)

theorem resultProvider_serves (r : RenderedQuery) (result : List ρ) :
    (resultProvider r result).Serves ResultQuery.held ResultQuery.request r result where
  takes := {
    create := ⟨{ request := { text := r.query } }, if_pos rfl, fun p => by
      simp [resultProvider, eq_comm]⟩
    set := fun s p v t hp =>
      ⟨{ s with held := fun p' => if p' = p then some v else s.held p' }, if_pos hp, rfl,
        if_pos rfl, fun p' hne => if_neg hne⟩
    setFirstResult := fun _ _ _ => rfl
    setMaxResults := fun _ _ _ => rfl }
  create := by
    intro s h
    simp only [resultProvider, if_pos] at h
    rw [← Except.ok.inj h]
  set := by
    intro p v t s
    simp only [resultProvider]
    split <;> rfl
  setFirstResult := fun _ _ => rfl
  setMaxResults := fun _ _ => rfl
  resultList := fun _ _ => rfl

/-! ### Users by name, by offset -/

def offsetArguments (limit : Option Nat) : Arguments := { scrolledArguments with limit }

theorem render_offset (limit : Option Nat) :
    ∃ r, (scrolledQuery "id").render .unsorted (offsetArguments limit) false = .ok r :=
  (Reachable.create (create_scrolled (.inl rfl))).setUp.render_unsorted _ _

/-- The users are gone through one by one. -/
theorem offset_scroll_tiles_users : ∃ r,
    (scrolledQuery "id").render .unsorted (offsetArguments (some 1)) false = .ok r ∧
    (∃ window, ((scrolledQuery "id").scroll (resultProvider r scrolledTable)
        ((offsetArguments (some 1)).behindOffset (some 1)) MemoryRow.value).1 = .ok window ∧
      window.entries = ((placed scrolledTable).drop 2).take 1 ∧
      (window.hasNext = true ↔ 2 + window.size < scrolledTable.length)) ∧
    ∃ windows, (∀ windows', Scrolls (resultProvider r scrolledTable) (offsetArguments (some 1))
        MemoryRow.value (scrolledQuery "id") (.offset (some 1)) windows' ↔ windows' = windows) ∧
      windows.flatMap Window.entries = (placed scrolledTable).drop 2 := by
  obtain ⟨r, hr⟩ := render_offset (some 1)
  have hq : (scrolledQuery "id").Maintained := .fresh (.create (create_scrolled (.inl rfl)))
  have hscrollable : (scrolledQuery "id").OffsetScrollable (offsetArguments (some 1)) 1 :=
    ⟨⟨rfl, rfl, rfl⟩, rfl, rfl, by decide, by simp [offsetArguments]⟩
  exact ⟨r, hr, offset_scroll_tiles hq hscrollable hr (resultProvider_serves r scrolledTable)
    (by decide) (some 1) (by decide)⟩

def repeatedTable : List MemoryRow := [scrolledRow 1 "a" 7, scrolledRow 3 "b" 7]

/-- A limit above that of the method name moves the rows against their positions: the first of two
users is seen twice, the second time at the offset of the other. -/
theorem offset_scroll_repeats : ∃ q r windows,
    q.Fresh ∧ Finds q.method ∧ (offsetArguments (some 2)).page = .unpaged ∧
    (offsetArguments (some 2)).limit = some 2 ∧ q.method.limit = some 1 ∧
    q.render .unsorted (offsetArguments (some 2)) false = .ok r ∧
    (resultProvider r repeatedTable).Serves ResultQuery.held ResultQuery.request r repeatedTable ∧
    Scrolls (resultProvider r repeatedTable) (offsetArguments (some 2)) MemoryRow.value q
      (.offset none) windows ∧
    windows.flatMap Window.entries =
      [(scrolledRow 1 "a" 7, .offset (some 0)), (scrolledRow 1 "a" 7, .offset (some 1)),
        (scrolledRow 3 "b" 7, .offset (some 2))] := by
  obtain ⟨r, hr⟩ := render_offset (some 2)
  have hq : (scrolledQuery "id").Fresh := .create (create_scrolled (.inl rfl))
  have hscroll {q : DerivedQuery} (hsame : (scrolledQuery "id").SameSettings q ∧ q.Consistent)
      (last first : Option Nat)
      (hbounds : (scrolledQuery "id").bounds ((offsetArguments (some 2)).behindOffset last) =
        (first, some 1)) :
      ∃ q', ((scrolledQuery "id").SameSettings q' ∧ q'.Consistent) ∧
        q.scroll (resultProvider r repeatedTable) ((offsetArguments (some 2)).behindOffset last)
          MemoryRow.value = (.ok (offsetWindow repeatedTable 1 (first.getD 0) last), q') :=
    ⟨_, ⟨hsame.1.after _, (hsame.2.after _).1⟩, hq.reachable.setUp.scroll_offset hr
      (resultProvider_serves r repeatedTable) (by decide) hsame.1 hsame.2 hbounds⟩
  -- Nothing is skipped for the second window, and only one row for the third.
  obtain ⟨q₁, hq₁, hfirst⟩ := hscroll ⟨⟨_, _, rfl⟩, (Maintained.fresh hq).consistent⟩ none none rfl
  obtain ⟨q₂, hq₂, hsecond⟩ := hscroll hq₁ (some 0) (some 0) rfl
  obtain ⟨q₃, -, hthird⟩ := hscroll hq₂ (some 1) (some 1) rfl
  exact ⟨_, r, _, hq, ⟨rfl, rfl, rfl⟩, rfl, rfl, rfl, hr, resultProvider_serves r _,
    .next hfirst rfl rfl (.next hsecond rfl rfl (.last hthird rfl)), rfl⟩

end DerivedQuery

end Jpql
