import Jpql.Derived.JoinPath
import Mathlib.Data.List.Induction

/-! Where joins lead. The joins of a query only ever start at the root or at earlier joins, so each
has a path from the root, which later joins do not change. The expression of a property path leads
along that path, whichever of its segments were joined. -/

namespace Jpql.Derived

/-- One path behind another; either may be empty. -/
def joined (before path : String) : String :=
  if before.isEmpty then path else if path.isEmpty then before else before ++ "." ++ path

theorem joined_intercalate {before names : List String} (hb : ∀ n ∈ before, n ≠ "")
    (hn : ∀ n ∈ names, n ≠ "") :
    joined (".".intercalate before) (".".intercalate names) =
      ".".intercalate (before ++ names) := by
  have hempty {ns : List String} (h : ∀ n ∈ ns, n ≠ "") :
      (".".intercalate ns).isEmpty = ns.isEmpty := by
    cases ns with
    | nil => rfl
    | cons n ns =>
      have hne : n ≠ "" := h n (by simp)
      cases ns with
      | nil => simpa using hne
      | cons m ns => simp [String.intercalate_cons_cons, String.append_eq_empty_iff]
  unfold joined
  rw [hempty hb, hempty hn]
  rcases before with _ | ⟨b, before⟩
  · simp
  rcases names with _ | ⟨n, names⟩
  · simp
  rw [String.intercalate_append_of_ne_nil (by simp) (by simp)]
  rfl

theorem intercalate_concat_ne_empty (names : List String) {n : String} (hn : n ≠ "") :
    ".".intercalate (names ++ [n]) ≠ "" := by
  by_cases hnames : names = []
  · simpa [hnames] using hn
  · rw [String.intercalate_append_of_ne_nil hnames (by simp)]
    simp [String.append_eq_empty_iff]

/-- Where an origin leads, given where the joins lead. -/
def originPath (paths : List String) : Origin → String
  | .root => ""
  | .join i => paths[i]?.getD ""

/-- Where each join leads. -/
def joinPaths (joins : List Join) : List String :=
  joins.foldl (fun paths j => paths ++ [joined (originPath paths j.source) j.path]) []

/-- An origin among the first `n` joins. -/
def Origin.Below (n : Nat) : Origin → Prop
  | .root => True
  | .join i => i < n

theorem Origin.Below.mono {n k : Nat} (h : n ≤ k) {o : Origin} (ho : o.Below n) : o.Below k := by
  cases o with
  | root => trivial
  | join i => exact Nat.lt_of_lt_of_le ho h

theorem joinPaths_concat (joins : List Join) (j : Join) :
    joinPaths (joins ++ [j]) =
      joinPaths joins ++ [joined (originPath (joinPaths joins) j.source) j.path] := by
  simp [joinPaths, List.foldl_append]

@[simp] theorem length_joinPaths (joins : List Join) :
    (joinPaths joins).length = joins.length := by
  induction joins using List.reverseRecOn with
  | nil => rfl
  | append_singleton joins j ih => simp [joinPaths_concat, ih]

/-- Where a join leads does not depend on the joins behind it. -/
theorem joinPaths_mono {joins joins' : List Join} (h : joins <+: joins') :
    joinPaths joins <+: joinPaths joins' := by
  obtain ⟨js, rfl⟩ := h
  induction js using List.reverseRecOn with
  | nil => simp
  | append_singleton js j ih =>
    rw [← List.append_assoc, joinPaths_concat]
    exact ih.trans (List.prefix_append _ _)

theorem originPath_mono {paths paths' : List String} (h : paths <+: paths') {o : Origin}
    (ho : o.Below paths.length) : originPath paths' o = originPath paths o := by
  cases o with
  | root => rfl
  | join i =>
    obtain ⟨rest, rfl⟩ := h
    have hi : i < paths.length := ho
    simp [originPath, List.getElem?_append_left hi]

/-- Every join starts at the root or at an earlier join. -/
def WellJoined (joins : List Join) : Prop :=
  ∀ (i : Nat) (j : Join), joins[i]? = some j → j.source.Below i

theorem wellJoined_nil : WellJoined [] := by
  intro i j h
  simp at h

theorem WellJoined.concat {joins : List Join} (h : WellJoined joins) {j : Join}
    (hj : j.source.Below joins.length) : WellJoined (joins ++ [j]) := by
  intro i j' hi
  rw [List.getElem?_append] at hi
  split at hi
  next => exact h i j' hi
  next hlt =>
    have hi' : i = joins.length := by
      rcases hk : i - joins.length with _ | k
      · omega
      · simp [hk] at hi
    subst hi'
    obtain rfl : j = j' := by simpa using hi
    exact hj

/-- A join leads along its path from where its source leads. -/
theorem originPath_join {joins : List Join} (h : WellJoined joins) {i : Nat} {j : Join}
    (hi : joins[i]? = some j) :
    originPath (joinPaths joins) (.join i) =
      joined (originPath (joinPaths joins) j.source) j.path := by
  induction joins using List.reverseRecOn with
  | nil => simp at hi
  | append_singleton joins k ih =>
    have hall : WellJoined joins := fun i j hi =>
      h i j (by rw [List.getElem?_append_left (List.getElem?_eq_some_iff.1 hi).1, hi])
    have hprefix : joinPaths joins <+: joinPaths (joins ++ [k]) :=
      joinPaths_mono (List.prefix_append _ _)
    have hsource : j.source.Below joins.length := by
      have hlt : i < joins.length + 1 := by simpa using (List.getElem?_eq_some_iff.1 hi).1
      exact (h i j hi).mono (by omega)
    have hstable : originPath (joinPaths (joins ++ [k])) j.source =
        originPath (joinPaths joins) j.source :=
      originPath_mono hprefix (by simpa using hsource)
    by_cases hlt : i < joins.length
    · rw [hstable, originPath_mono hprefix (o := .join i) (by simpa [Origin.Below] using hlt)]
      exact ih hall (by rwa [List.getElem?_append_left hlt] at hi)
    · have hlast : i = joins.length := by
        have := (List.getElem?_eq_some_iff.1 hi).1
        simp at this
        omega
      subst hlast
      obtain rfl : k = j := by simpa using hi
      rw [hstable, originPath, joinPaths_concat]
      simp

/-! ### Queries with more joins -/

namespace SelectQuery

/-- The second query is the first with further joins. -/
def Extends (q q' : SelectQuery) : Prop :=
  ∃ js n, q' = { q with joins := q.joins ++ js, numbered := n }

theorem Extends.refl (q : SelectQuery) : q.Extends q := ⟨[], q.numbered, by simp⟩

theorem Extends.trans {q q' q'' : SelectQuery} (h : q.Extends q') (h' : q'.Extends q'') :
    q.Extends q'' := by
  obtain ⟨js, n, rfl⟩ := h
  obtain ⟨js', n', rfl⟩ := h'
  exact ⟨js ++ js', n', by simp⟩

theorem Extends.joins_mono {q q' : SelectQuery} (h : q.Extends q') : q.joins <+: q'.joins := by
  obtain ⟨js, n, rfl⟩ := h
  exact List.prefix_append _ _

/-- The expression leads along the path. Its own part of the path is the last names of it, which are
joined by no join. -/
structure Leads (q : SelectQuery) (e : PathExpression) (p : PropertyPath) : Prop where
  origin : e.origin.Below q.joins.length
  dotPath : joined (originPath (joinPaths q.joins) e.origin) e.path = p.toDotPath
  path : ∃ names, names <:+ p.segments.map PathSegment.name ∧ e.path = ".".intercalate names
  name : e.name = p.leaf.name

/-- Further joins do not change where an expression leads. -/
theorem Leads.mono {q q' : SelectQuery} {e : PathExpression} {p : PropertyPath}
    (h : q.Leads e p) (hq : q.joins <+: q'.joins) : q'.Leads e p where
  origin := h.origin.mono hq.length_le
  dotPath := by
    rw [originPath_mono (joinPaths_mono hq) (by simpa using h.origin)]
    exact h.dotPath
  path := h.path
  name := h.name

theorem leads_implicitPath (q : SelectQuery) (p : PropertyPath) : q.Leads (implicitPath p) p where
  origin := trivial
  dotPath := by simp [implicitPath, originPath, joined]
  path := ⟨_, List.suffix_refl _, rfl⟩
  name := rfl

theorem push_spec (q : SelectQuery) (type : JoinType) (source : Origin) (path : String) :
    ∃ name n, q.push type source path =
      { q with joins := q.joins ++ [⟨type, source, path, name⟩], numbered := n } := by
  unfold push
  split
  next name _ => exact ⟨name, q.numbered, rfl⟩
  next => exact ⟨_, _, rfl⟩

theorem join_extends (q : SelectQuery) (type : JoinType) (source : Origin) (path : String) :
    q.Extends (q.join type source path).2 := by
  unfold join
  split
  next => exact .refl q
  next =>
    obtain ⟨name, n, hpush⟩ := q.push_spec type source path
    exact ⟨[⟨type, source, path, name⟩], n, hpush⟩

/-- A join leads along its path from its source. -/
theorem join_spec {q : SelectQuery} (hq : WellJoined q.joins) (type : JoinType) {source : Origin}
    (hsource : source.Below q.joins.length) (path : String) :
    let (o, q') := q.join type source path
    q.Extends q' ∧ WellJoined q'.joins ∧ o.Below q'.joins.length ∧
      originPath (joinPaths q'.joins) o = joined (originPath (joinPaths q.joins) source) path := by
  rcases hi : q.joinIndex? type source path with _ | i
  · obtain ⟨name, n, hpush⟩ := q.push_spec type source path
    have hwell : WellJoined (q.joins ++ [⟨type, source, path, name⟩]) := hq.concat hsource
    simp only [join, hi, hpush]
    refine ⟨⟨_, n, rfl⟩, hwell, by simp [Origin.Below], ?_⟩
    rw [originPath_join hwell (j := ⟨type, source, path, name⟩) (by simp),
      originPath_mono (joinPaths_mono (List.prefix_append _ _)) (by simpa using hsource)]
  · obtain ⟨hlt, hmatch, _⟩ := List.findIdx?_eq_some_iff_getElem.1 hi
    simp only [Bool.and_eq_true, beq_iff_eq] at hmatch
    simp only [join, hi]
    refine ⟨.refl q, hq, hlt, ?_⟩
    rw [originPath_join hq (List.getElem?_eq_getElem hlt), hmatch.1.2, hmatch.2]

end SelectQuery

/-! ### Following a path -/

theorem follow_extends (forSelection optimize : Bool) (segments : List PathSegment) (w : Walk) :
    w.query.Extends (follow forSelection optimize w segments).query := by
  induction segments generalizing w with
  | nil => exact .refl _
  | cons s rest ih =>
    unfold follow
    extract_lets pending last outer
    split
    next => exact ih { w with pending }
    next => exact (w.query.join_extends _ _ _).trans (ih _)

/-- The walk has come along the names: those up to its origin and those pending behind it. -/
structure Walk.Spells (w : Walk) (names : List String) : Prop where
  wellJoined : WellJoined w.query.joins
  origin : w.origin.Below w.query.joins.length
  split : ∃ before, names = before ++ w.pending ∧
    originPath (joinPaths w.query.joins) w.origin = ".".intercalate before

theorem follow_spells (forSelection optimize : Bool) {segments : List PathSegment} {w : Walk}
    {names : List String} (hw : w.Spells names)
    (hne : ∀ n ∈ names ++ segments.map PathSegment.name, n ≠ "") :
    (follow forSelection optimize w segments).Spells
        (names ++ segments.map PathSegment.name) ∧
      w.query.Extends (follow forSelection optimize w segments).query := by
  induction segments generalizing w names with
  | nil => simpa [follow] using ⟨hw, SelectQuery.Extends.refl _⟩
  | cons s rest ih =>
    obtain ⟨before, rfl, hbefore⟩ := hw.split
    have happend : before ++ w.pending ++ (s :: rest).map PathSegment.name =
        before ++ (w.pending ++ [s.name]) ++ rest.map PathSegment.name := by simp
    rw [happend] at hne ⊢
    unfold follow
    extract_lets pending last outer
    split
    next =>
      have hnext : Walk.Spells { w with pending } (before ++ pending) :=
        ⟨hw.wellJoined, hw.origin, before, rfl, hbefore⟩
      exact ih hnext hne
    next =>
      have hjoin := SelectQuery.join_spec hw.wellJoined (if outer then .left else .inner) hw.origin
        (".".intercalate pending)
      rcases hj : w.query.join (if outer then .left else .inner) w.origin (".".intercalate pending)
        with ⟨origin, query⟩
      rw [hj] at hjoin
      obtain ⟨hext, hwell, horigin, hpath⟩ := hjoin
      have hnext : Walk.Spells { query, origin, outer } (before ++ pending) := by
        refine ⟨hwell, horigin, before ++ pending, by simp, ?_⟩
        rw [hpath, hbefore, joined_intercalate]
        · exact fun n hn => hne n (by simp [hn])
        · exact fun n hn => hne n (List.mem_append_left _ (List.mem_append_right _ hn))
      obtain ⟨hspells, hrest⟩ := ih hnext hne
      exact ⟨hspells, hext.trans hrest⟩

/-- Following a path leads along it. -/
theorem resolvePath_leads {q : SelectQuery} (hq : WellJoined q.joins) {p : PropertyPath}
    (hp : ∀ s ∈ p.segments, s.name ≠ "") (forSelection optimize : Bool) :
    q.Extends (resolvePath q p forSelection optimize).2 ∧
      WellJoined (resolvePath q p forSelection optimize).2.joins ∧
      (resolvePath q p forSelection optimize).2.Leads (resolvePath q p forSelection optimize).1 p := by
  have hstart : Walk.Spells { query := q } [] := ⟨hq, trivial, [], rfl, rfl⟩
  have hnames : ∀ n ∈ [] ++ p.segments.map PathSegment.name, n ≠ "" := by simpa using hp
  obtain ⟨⟨hwell, horigin, before, hsplit, hbefore⟩, hext⟩ :=
    follow_spells forSelection optimize hstart hnames
  rw [List.nil_append] at hsplit
  refine ⟨hext, hwell, horigin, ?_, ⟨_, ⟨before, hsplit.symm⟩, rfl⟩, rfl⟩
  have hall : ∀ n ∈ before ++ (follow forSelection optimize { query := q } p.segments).pending,
      n ≠ "" := by
    rw [← hsplit]
    simpa using hp
  rw [resolvePath, hbefore, joined_intercalate (fun n hn => hall n (by simp [hn]))
    (fun n hn => hall n (by simp [hn])), ← hsplit]
  rfl

end Jpql.Derived
