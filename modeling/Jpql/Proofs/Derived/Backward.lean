import Jpql.Proofs.Derived.Scrolling

/-! Scrolling back. The sort, the comparisons and the rows that are read are all turned round, and
the window is cut from the other end. So it holds the rows in front of the cursor, as many as the
window has room for, in forward order. -/

namespace Jpql

theorem Window.positionAt?_ofRows {ρ : Type} (rows : List ρ) (positionOf : Nat → ρ → ScrollPosition)
    (hasNext : Bool) (i : Nat) :
    (ofRows rows positionOf hasNext).positionAt? i = rows[i]?.map (positionOf i) := by
  simp only [positionAt?, ofRows, List.getElem?_map, List.getElem?_zipIdx, Option.map_map,
    Nat.zero_add]
  rfl

namespace DerivedQuery

open Derived MethodName
open Step (exists_of_toOption_map)

variable {σ ρ : Type} {q : DerivedQuery} {a : Arguments} {w : Nat} {provider : Provider σ ρ}
  {held : σ → QueryParameter → Option Value} {request : σ → Request} {db : Database ρ}
  {keyOf : ρ → String → Value} {table : List ρ}

/-- The provider answers from the table whatever scrolling back from one of its rows asks for. -/
def AnswersBackward (q : DerivedQuery) (a : Arguments) (provider : Provider σ ρ)
    (held : σ → QueryParameter → Option Value) (request : σ → Request) (db : Database ρ)
    (keyOf : ρ → String → Value) (table : List ρ) : Prop :=
  ∀ row ∈ table, ∀ created,
    (q.creator (some (a.behind (q.cursorAt a keyOf row).reverse)) false).createKeyset
        (q.cursorAt a keyOf row).reverse a.sort = .ok created →
      provider.Answers held request db table created.query

/-- A window back from a row is taken from the rows in front of it, the nearest ones first. -/
theorem Scrollable.before (h : q.Scrollable a w) (hq : q.SetUp) (hkeyed : q.Keyed a db keyOf table)
    (hanswers : q.AnswersBackward a provider held request db keyOf table) {last : ρ}
    (hlast : last ∈ table) :
    ∃ results : List ρ, results.Perm (table.filter fun r =>
        q.matchesRow a db r && db.keyOrder keyOf (q.completeSort a).orders r last == .lt) ∧
      results.Pairwise (fun r s => db.keyOrder keyOf (q.completeSort a).orders s r ≠ .gt) ∧
      q.scroll provider (a.behind (q.cursorAt a keyOf last).reverse) keyOf =
        (.ok (q.windowOf a keyOf w (q.cursorAt a keyOf last).reverse results), q) := by
  have hbackward : (q.scrollSort a .backward).orders =
      (q.completeSort a).orders.map Order.reversed := rfl
  have hget : ∀ o ∈ (q.completeSort a).orders,
      (q.cursorAt a keyOf last).reverse.get? o.property = some (keyOf last o.property) :=
    fun o ho => get?_cursorAt ho
  obtain ⟨query, pss, rows, bs, ks, values, results, hdescribes, hvalues, hperm, hsorted, hscroll⟩ :=
    h.results hq hkeyed (.inr fun o ho => ⟨_, hget o ho⟩) (hanswers last hlast)
  refine ⟨results, hperm.trans (List.Perm.of_eq (List.filter_congr fun r hr => ?_)), ?_, hscroll⟩
  · obtain ⟨id, hid⟩ := List.exists_mem_of_ne_nil _ h.identified
    obtain ⟨o, ho, -⟩ := exists_order_of_id (a := a) hid
    have hswaps : db.Swaps keyOf (q.scrollSort a .backward).orders r last :=
      (forall_scrollSort (P := fun p => (db.compare (keyOf r p) (keyOf last p)).swap =
        db.compare (keyOf last p) (keyOf r p)) _).2 (hkeyed.swaps r hr last hlast)
    have hsome : (q.scrollSort a .backward).orders ≠ [] := by
      rw [hbackward]
      exact List.ne_nil_of_mem (List.mem_map_of_mem ho)
    have hselects := hdescribes.selects_behind hq.method.conditions hvalues
      (Cursor.isInitial_of_get? (hget o ho)) hsome
      ((forall_scrollSort (P := fun p => (q.cursorAt a keyOf last).reverse.get? p =
        some (keyOf last p)) _).2 hget)
      ((hkeyed.keys last hlast).scrollSort _) ((hkeyed.keys r hr).scrollSort _) hswaps
    rw [hselects, matchesRow_behind]
    change (_ && db.keyOrder keyOf (q.scrollSort a .backward).orders last r == .lt) = _
    rw [hbackward, Database.keyOrder_reversed]
  · refine hsorted.imp fun {r s} hrs => ?_
    change db.keyOrder keyOf (q.scrollSort a .backward).orders r s ≠ .gt at hrs
    rwa [hbackward, Database.keyOrder_reversed] at hrs

theorem content_windowOf_backward {cursor : Cursor} (hbackward : cursor.direction = .backward)
    {rows : List ρ} (hrows : rows.length ≤ PageRequest.maxRows) :
    (q.windowOf a keyOf w cursor rows).content = (rows.take w).reverse := by
  simp only [windowOf, Window.ofResult, Window.content_ofRows, hbackward]
  change (rows.take (beyondWindow w)).reverse.drop
    ((rows.take (beyondWindow w)).reverse.length - w) = _
  rw [List.length_reverse, ← List.reverse_take, take_beyondWindow hrows]

/-- The position of a row is the cursor at it, in the direction of the scroll. -/
theorem positionAt?_windowOf (cursor : Cursor) (rows : List ρ) (i : Nat) :
    (q.windowOf a keyOf w cursor rows).positionAt? i =
      ((q.windowOf a keyOf w cursor rows).content[i]?).map fun row =>
        .keyset { q.cursorAt a keyOf row with direction := cursor.direction } := by
  simp only [windowOf, Window.ofResult, Window.content_ofRows, Window.positionAt?_ofRows]
  rfl

/-- Scrolling back from a row gives the rows in front of it that the window has room for, in forward
order, and says whether there are more. -/
theorem scroll_back (hq : q.Reachable) (h : q.Scrollable a w) (hkeyed : q.Keyed a db keyOf table)
    (hanswers : q.AnswersBackward a provider held request db keyOf table) {rows : List ρ}
    (hperm : rows.Perm (table.filter (q.matchesRow a db)))
    (hsorted : rows.Pairwise (db.keyOrder keyOf (q.completeSort a).orders · · ≠ .gt)) {k : Nat}
    {row : ρ} (hrow : rows[k]? = some row) :
    ∃ window, q.scroll provider (a.behind (q.cursorAt a keyOf row).reverse) keyOf =
        (.ok window, q) ∧
      window.content = (rows.take k).drop (k - w) ∧ (window.hasNext = true ↔ w < k) ∧
      ∀ i, window.positionAt? i =
        (window.content[i]?).map fun r => .keyset (q.cursorAt a keyOf r).reverse := by
  obtain ⟨hk, rfl⟩ := List.getElem?_eq_some_iff.1 hrow
  have hsplit : rows = rows.take k ++ rows[k] :: rows.drop (k + 1) := by
    rw [List.getElem_cons_drop, List.take_append_drop]
  have hmem : rows[k] ∈ table := List.mem_of_mem_filter (hperm.mem_iff.1 (List.getElem_mem hk))
  obtain ⟨results, hresults, hresults', hscroll⟩ := h.before hq.setUp hkeyed hanswers hmem
  have hstrict := hkeyed.sorted hperm hsorted
  have hfront : results = (rows.take k).reverse :=
    hkeyed.eq_before (hsplit ▸ hperm) (hsplit ▸ hstrict) hresults hresults'
  have hlength : results.length = k := by
    rw [hfront, List.length_reverse, List.length_take, Nat.min_eq_left hk.le]
  have hsize : results.length ≤ PageRequest.maxRows := by
    rw [hresults.length_eq]
    exact (List.length_filter_le _ _).trans hkeyed.size
  have hbackward : (q.cursorAt a keyOf rows[k]).reverse.direction = .backward := rfl
  refine ⟨_, hscroll, ?_, ?_, fun i => ?_⟩
  · rw [content_windowOf_backward hbackward hsize, hfront, List.take_reverse, List.reverse_reverse,
      List.length_take, Nat.min_eq_left hk.le]
  · rw [hasNext_windowOf hsize, hlength, decide_eq_true_iff]
  · rw [positionAt?_windowOf, hbackward]
    rfl

/-! ### Users by name, backward -/

def dividedTable : List MemoryRow :=
  [[("user_id", .int 1), ("name", .text "a"), ("age", .int 7)],
    [("user_id", .int 2), ("name", .text "b"), ("age", .int 7)]]

/-- Nor does any scroll back succeed by an identifier whose name reads as two properties, though the
rows have keys and the first of them is in front of the second. -/
theorem divided_identifier_fails_backward : ∃ q,
    DerivedQuery.create "findTop1ByAgeOrderByName" "app.User" ⟨[scrolledUser "user_id"]⟩
      scrolledParameters = .ok q ∧
    q.returned = .domain ∧ Finds q.method ∧ q.entity.idAttributes ≠ [] ∧
    scrolledArguments.sort.orders = [] ∧ scrolledArguments.page = .unpaged ∧
    q.method.limit.or scrolledArguments.limit = some 1 ∧
    q.Keyed scrolledArguments recordDatabase MemoryRow.value dividedTable ∧
    dividedTable.filter (q.matchesRow scrolledArguments recordDatabase) = dividedTable ∧
    ∀ (σ : Type) (provider : Provider σ MemoryRow), ∀ row ∈ dividedTable,
      ∀ (window : Window MemoryRow) (q' : DerivedQuery),
        q.scroll provider
          (scrolledArguments.behind (q.cursorAt scrolledArguments MemoryRow.value row).reverse)
          MemoryRow.value ≠ (.ok window, q') := by
  have hsetUp : (scrolledQuery "user_id").SetUp := (create_setUp (create_scrolled (.inr rfl))).1
  have hunknown : (PropertyPath.ofSource ⟨[scrolledUser "user_id"]⟩ (scrolledUser "user_id")
      "user_id").toOption.map PropertyPath.toDotPath = none := by
    cbv
  have hkeyed : (scrolledQuery "user_id").Keyed scrolledArguments recordDatabase MemoryRow.value
      dividedTable := by
    refine ⟨fun r hr => ⟨fun o ho p hp => ?_, ?_⟩, ?_, by decide, by decide⟩
    · have horders : ((scrolledQuery "user_id").completeSort scrolledArguments).orders =
          [{ property := "name" }, { property := "user_id" }] := by
        decide
      rw [horders] at ho
      simp only [List.mem_cons, List.not_mem_nil, or_false] at ho
      rcases ho with rfl | rfl
      · have hname : (PropertyPath.ofSource ⟨[scrolledUser "user_id"]⟩ (scrolledUser "user_id")
            "name").toOption.map PropertyPath.toDotPath = some "name" := by
          cbv
        obtain ⟨p', hp', hpath⟩ := exists_of_toOption_map hname
        obtain rfl := Except.ok.inj (hp'.symm.trans hp)
        rw [hpath]
        rfl
      · have hp : PropertyPath.ofSource ⟨[scrolledUser "user_id"]⟩ (scrolledUser "user_id")
            "user_id" = .ok p := hp
        rw [hp] at hunknown
        cases hunknown
    · revert r
      decide
    · unfold Database.Swaps
      decide
  refine ⟨_, create_scrolled (.inr rfl), rfl, ⟨rfl, rfl, rfl⟩, by decide, rfl, rfl, rfl, hkeyed, rfl,
    ?_⟩
  intro σ provider row hrow window q' hscroll
  have hid : ({ property := "user_id", direction := .desc } : Order) ∈
      ((scrolledQuery "user_id").scrollSort scrolledArguments .backward).orders := by
    decide
  obtain ⟨-, p, hp⟩ := sortable_of_scroll hsetUp ⟨rfl, rfl, rfl⟩ (by decide) hscroll _ hid
  have hp : PropertyPath.ofSource ⟨[scrolledUser "user_id"]⟩ (scrolledUser "user_id")
      "user_id" = .ok p := hp
  rw [hp] at hunknown
  cases hunknown

def scrolledBefore : SelectQuery :=
  { entityName := "User", aliasName := "u"
    orders := [⟨.path ⟨.root, "name", "name"⟩, { property := "name", direction := .desc }⟩,
      ⟨.path ⟨.root, "id", "id"⟩, { property := "id", direction := .desc }⟩]
    predicate := some (.and
      (.nested (.compare (.path ⟨.root, "age", "age"⟩) "=" (.parameter 1)))
      (.nested (.or
        (.nested (.compare (.path ⟨.root, "name", "name"⟩) "<" (.parameter 2)))
        (.nested (.and
          (.compare (.path ⟨.root, "name", "name"⟩) "=" (.parameter 3))
          (.compare (.path ⟨.root, "id", "id"⟩) "<" (.parameter 4))))))) }

theorem createKeyset_scrolledBefore {cursor : Cursor} {id age : Int} {name : String}
    (hcursor : cursor = (scrolledQuery "id").cursorAt scrolledArguments MemoryRow.value
      (scrolledRow id name age)) :
    (((scrolledQuery "id").creator (some (scrolledArguments.behind cursor.reverse))
      false).createKeyset cursor.reverse scrolledArguments.sort).toOption.map (·.query) =
        some scrolledBefore := by
  obtain rfl : cursor = ⟨[("name", .text name), ("id", .int id)], .forward⟩ := hcursor
  cbv

theorem keyed_scrolled_reverse : (scrolledQuery "id").Keyed scrolledArguments recordDatabase
    MemoryRow.value scrolledTable.reverse where
  keys r hr := keyed_scrolled.keys r (List.mem_reverse.1 hr)
  swaps r hr s hs := keyed_scrolled.swaps r (List.mem_reverse.1 hr) s (List.mem_reverse.1 hs)
  distinct := by decide
  size := by decide

/-- The provider finds the rows in the order that the query asks for. -/
theorem answersBackward_scrolled : (scrolledQuery "id").AnswersBackward scrolledArguments
    (tableProvider recordDatabase scrolledTable.reverse [scrolledBefore]) TableQuery.held
    TableQuery.request recordDatabase MemoryRow.value scrolledTable.reverse := by
  have hanswers : (tableProvider recordDatabase scrolledTable.reverse [scrolledBefore]).Answers
      TableQuery.held TableQuery.request recordDatabase scrolledTable.reverse scrolledBefore := by
    refine tableProvider_answers (by simp) ?_ (by decide)
    intro q hq _
    exact List.mem_singleton.1 hq
  intro row hrow created hcreated
  obtain ⟨id, name, age, rfl⟩ : ∃ id name age, row = scrolledRow id name age := by
    simp only [List.mem_reverse, scrolledTable, List.mem_cons, List.not_mem_nil, or_false] at hrow
    rcases hrow with rfl | rfl | rfl | rfl <;> exact ⟨_, _, _, rfl⟩
  have hquery := createKeyset_scrolledBefore (Eq.refl
    ((scrolledQuery "id").cursorAt scrolledArguments MemoryRow.value (scrolledRow id name age)))
  rw [hcreated] at hquery
  have hquery : created.query = scrolledBefore := Option.some.inj hquery
  rwa [hquery]

/-- Of the users in front of the third one only the second fits into the window. -/
theorem scroll_back_users : ∃ window,
    (scrolledQuery "id").scroll
        (tableProvider recordDatabase scrolledTable.reverse [scrolledBefore])
        (scrolledArguments.behind ((scrolledQuery "id").cursorAt scrolledArguments MemoryRow.value
          (scrolledRow 3 "b" 7)).reverse) MemoryRow.value = (.ok window, scrolledQuery "id") ∧
      window.content = [scrolledRow 2 "a" 7] ∧ (window.hasNext = true ↔ 1 < 2) ∧
      ∀ i, window.positionAt? i = (window.content[i]?).map fun r =>
        .keyset ((scrolledQuery "id").cursorAt scrolledArguments MemoryRow.value r).reverse := by
  have hperm : [scrolledRow 1 "a" 7, scrolledRow 2 "a" 7, scrolledRow 3 "b" 7].Perm
      (scrolledTable.reverse.filter
        ((scrolledQuery "id").matchesRow scrolledArguments recordDatabase)) :=
    (List.reverse_perm _).symm
  exact scroll_back (.create (create_scrolled (.inl rfl))) scrollable_scrolled
    keyed_scrolled_reverse answersBackward_scrolled hperm (by decide) (k := 2) rfl

end DerivedQuery

end Jpql
