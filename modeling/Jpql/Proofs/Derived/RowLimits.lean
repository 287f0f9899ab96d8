import Jpql.Proofs.Derived.PlainCalls

/-! How many rows a call receives. A limit, a page, the method name and the question whether anything
exists all bound it, and the last of them that is there decides alone. So the bounds set before are
kept as long as they are no smaller: a page of ten rows becomes three for a method with `First3`, but
so does a limit of two. -/

namespace Jpql

open Derived
open Step (result_bind_ok result_map_ok exists_of_toOption_map)

variable {σ ρ : Type}

theorem ScrollDirection.length_cutRows_le (d : ScrollDirection) (limit : Nat) (rows : List ρ) :
    (d.cutRows limit rows).length ≤ limit := by
  cases d with
  | forward => exact List.length_take_le _ _
  | backward =>
    rw [cutRows, List.length_drop]
    omega

/-- A window has no more rows than there is room for. -/
theorem Window.size_ofResult_le (rows : List ρ) (limit : Nat) (position : ScrollPosition)
    (sort : Sorting) (keyOf : ρ → String → Value) :
    (Window.ofResult rows (some limit) position sort keyOf).size ≤ limit := by
  have hsize (w : Window ρ) : w.size = w.content.length := by simp [Window.size, Window.content]
  rw [hsize]
  cases position with
  | offset last =>
    rw [Window.ofResult, Window.content_ofRows]
    exact List.length_take_le _ _
  | keyset cursor =>
    rw [Window.ofResult, Window.content_ofRows]
    exact cursor.direction.length_cutRows_le _ _

namespace DerivedQuery

variable {q : DerivedQuery} {a : Arguments} {p : PreparedQuery}

/-- How many rows the caller receives at most: those that a window has room for, or else those that
are read. -/
def received (a : Arguments) (p : PreparedQuery) : Option Nat :=
  if a.scroll.isSome then p.window else p.maxResults

/-- The number of rows is bounded, and by no more than `bound`. -/
def Within (bound : Nat) (rows : Option Nat) : Prop := ∃ n, rows = some n ∧ n ≤ bound

theorem within_some {bound n : Nat} : Within bound (some n) ↔ n ≤ bound := by
  simp [Within]

theorem snd_limited (limit : Option Nat) (bounds : Option Nat × Option Nat) :
    (limited limit bounds).2 = limit.or bounds.2 := by
  rcases limit with _ | n <;> rcases bounds with ⟨_ | first, _ | max⟩ <;> rfl

theorem snd_bounds (q : DerivedQuery) (a : Arguments) :
    (q.bounds a).2 = if q.method.isExists then some 1 else q.method.limit.or (requestedMax a) := by
  simp only [bounds, snd_limited]

/-- However a call is prepared, with a cursor or from a cache, it has the bounds of its arguments. -/
theorem prepare_bounded (h : (q.prepare a).1 = .ok p) : p = q.bounded a p.rendered p.sort := by
  unfold prepare at h
  split at h
  next =>
    obtain ⟨r, -, rfl⟩ := result_map_ok.1 h
    rw [rendered_bounded, sort_bounded]
  next =>
    obtain ⟨r, -, rfl⟩ := result_map_ok.1 h
    rw [rendered_bounded, sort_bounded]

/-- One bound decides: one row for a method that asks whether anything exists, else the limit of the
method name, else what is requested. -/
theorem received_eq (h : (q.prepare a).1 = .ok p) : received a p =
    if q.method.isExists then some 1 else q.method.limit.or (requestedMax a) := by
  rw [← snd_bounds, prepare_bounded h, received, bounded]
  dsimp only
  split
  next => rfl
  next => rfl

/-! ### Rows -/

/-- The number of rows is the last that a created query is told. -/
theorem exists_setMaxResults {provider : Provider σ ρ} {s : σ} (h : p.create provider a = .ok s)
    {n : Nat} (hn : p.maxResults = some n) : ∃ s', s = provider.setMaxResults n s' := by
  obtain ⟨query, -, hbind⟩ := result_bind_ok.1 h
  split at hbind
  next => cases hbind
  next =>
    rw [hn] at hbind
    exact ⟨_, (Except.ok.inj hbind).symm⟩

/-- The windows of a scroll have no more rows than are received. -/
theorem size_le_received (h : (q.prepare a).1 = .ok p) {n : Nat} (hn : received a p = some n)
    {provider : Provider σ ρ} {keyOf : ρ → String → Value} {window : Window ρ}
    (hw : (q.scroll provider a keyOf).1 = .ok window) : window.size ≤ n := by
  unfold scroll at hw
  cases hposition : a.scroll with
  | none =>
    rw [hposition] at hw
    cases hw
  | some position =>
    have hlimit : p.window = some n := by simpa [received, hposition] using hn
    rw [hposition] at hw
    obtain ⟨p', hp', hrows⟩ := result_bind_ok.1 hw
    obtain rfl : p = p' := Except.ok.inj (h.symm.trans hp')
    obtain ⟨rows, -, hwindow⟩ := result_bind_ok.1 hrows
    rw [hlimit] at hwindow
    obtain rfl := Except.ok.inj hwindow
    exact Window.size_ofResult_le ..

/-- Without a scroll position, a provider that reads no more rows than it is asked for returns no more
than are received. -/
theorem length_le_received (h : (q.prepare a).1 = .ok p) {n : Nat} (hn : received a p = some n)
    (hscroll : a.scroll = none) {provider : Provider σ ρ}
    (hcuts : ∀ s rows, provider.resultList (provider.setMaxResults n s) = .ok rows →
      rows.length ≤ n)
    {rows : List ρ} (hr : (q.execute provider a).1 = .ok rows) : rows.length ≤ n := by
  have hmax : p.maxResults = some n := by simpa [received, hscroll] using hn
  obtain ⟨p', hp', hrows⟩ := result_bind_ok.1 hr
  obtain rfl : p = p' := Except.ok.inj (h.symm.trans hp')
  obtain ⟨query, hquery, hlist⟩ := result_bind_ok.1 hrows
  obtain ⟨s, rfl⟩ := exists_setMaxResults hquery hmax
  refine hcuts s rows ?_
  cases hresult : provider.resultList (provider.setMaxResults n s) with
  | error e =>
    rw [hresult] at hlist
    cases hlist
  | ok rows' =>
    rw [hresult] at hlist
    exact congrArg Except.ok (Except.ok.inj hlist)

/-! ### Bounds -/

/-- Where First or Top states more rows than are requested, the request is exceeded, and so is one for
no rows by a method that asks whether any exist. Everything else is kept: the limit of the method name
by whatever was requested, and a single row for existence. -/
theorem received_within (h : (q.prepare a).1 = .ok p) :
    (∀ m, requestedMax a = some m → (Within m (received a p) ↔
      if q.method.isExists then 1 ≤ m else ∀ n, q.method.limit = some n → n ≤ m)) ∧
    (∀ n, q.method.limit = some n →
      (Within n (received a p) ↔ (q.method.isExists = true → 1 ≤ n))) ∧
    (q.method.isExists = true → Within 1 (received a p)) := by
  rw [received_eq h]
  cases hexists : q.method.isExists with
  | true => simp [within_some]
  | false =>
    cases hlimit : q.method.limit with
    | none => simp +contextual [within_some]
    | some n => simp [within_some]

/-- A page of three users is cut to the one that the method name allows. -/
theorem received_within_first_user : ∃ p, ((scrolledQuery "id").prepare
      { scrolledArguments with page := .paged 2 3 .unsorted }).1 = .ok p ∧
    requestedMax { scrolledArguments with page := .paged 2 3 .unsorted } = some 3 ∧
    Within 3 p.maxResults ∧ (scrolledQuery "id").method.limit = some 1 ∧ Within 1 p.maxResults := by
  have hq : (scrolledQuery "id").Reachable := .create (create_scrolled (.inl rfl))
  obtain ⟨p, hp⟩ := hq.prepare_succeeds
    (a := { scrolledArguments with page := .paged 2 3 .unsorted }) rfl (by simp [scrolledArguments])
  obtain ⟨hrequested, hlimited, -⟩ := received_within hp
  exact ⟨p, hp, rfl, (hrequested 3 rfl).2 (by simp [scrolledQuery, scrolledMethod]), rfl,
    (hlimited 1 rfl).2 (by simp)⟩

/-- Three users are read for a method with `Top3`, though the caller has set a limit of two. -/
theorem limit_exceeded : ∃ q p,
    DerivedQuery.create "findTop3ByAge" "app.User" ⟨[scrolledUser "id"]⟩ scrolledParameters = .ok q ∧
    (q.prepare { scrolledArguments with limit := some 2 }).1 = .ok p ∧
    requestedMax { scrolledArguments with limit := some 2 } = some 2 ∧
    received { scrolledArguments with limit := some 2 } p = some 3 := by
  have hcreated : (DerivedQuery.create "findTop3ByAge" "app.User" ⟨[scrolledUser "id"]⟩
      scrolledParameters).toOption.map (fun q => (q.method.limit, q.method.isExists)) =
        some (some 3, false) := by
    cbv
  obtain ⟨q, hq, hmethod⟩ := exists_of_toOption_map hcreated
  obtain ⟨hlimit, hexists⟩ := Prod.mk.inj hmethod
  obtain ⟨p, hp⟩ := (Reachable.create hq).prepare_succeeds
    (a := { scrolledArguments with limit := some 2 }) rfl (by simp [scrolledArguments])
  refine ⟨q, p, hq, hp, rfl, ?_⟩
  rw [received_eq hp, hexists, hlimit]
  rfl

end DerivedQuery

end Jpql
