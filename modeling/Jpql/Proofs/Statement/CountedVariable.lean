import Jpql.Proofs.Grammar.Spelling
import Jpql.Proofs.Statement.Counting

/-! What a derived count is of. Every branch of a parsed query selects something or has a root, so
there is always a path to count: the one the branch selects, or the alias of its first root, which a
root behind no select clause gets if it has none. A branch that selects anything but one path from a
root without an alias, or from no root, counts a variable that nothing declares. -/

namespace Jpql

/-! ### Parsed branches -/

/-- The branch has a select or a from clause. -/
def QuerySpec.HasClause (s : QuerySpec) : Prop := s.items = [] → s.roots ≠ []

namespace Grammar

open Jpql.Grammar.Parser

variable {r : Rules}

theorem querySpec_hasClause : Yields (querySpec r) QuerySpec.HasClause := by
  refine .of_bind fun ⟨selectWord, distinct, items⟩ => .of_bind fun ⟨fromWord, roots⟩ =>
    .iteOf (fun _ => .reject _ _) fun h => ?_
  have hclause : items = [] → roots ≠ [] := by simpa using h
  refine .of_bind fun _ => .of_bind fun ⟨_, _⟩ => .of_bind fun _ => .of_bind fun ⟨_, _⟩ =>
    .of_bind fun _ => ?_
  exact .ite (.of_bind fun _ => .pure hclause) (.pure hclause)

variable (hr : Yields r.select fun query => ∀ s ∈ query.branches, s.HasClause)

include hr

theorem queryTerm_hasClause :
    Yields (queryTerm r) fun term => ∀ s ∈ term.branches, s.HasClause := by
  refine .of_bind fun _ => .ite ?_ ?_
  · exact .of_bindOf hr fun nested h => .of_bind fun _ => .pure h
  · exact .of_bindOf querySpec_hasClause fun s h => .pure (List.forall_mem_singleton.2 h)

theorem setOperation_hasClause :
    Yields (setOperation r) fun operation => ∀ s ∈ operation.term.branches, s.HasClause :=
  .of_bind fun _ => .of_bind fun _ => .of_bindOf (queryTerm_hasClause hr) fun _ h => .pure h

theorem selectStatement_hasClause :
    Yields (selectStatement r) fun query => ∀ s ∈ query.branches, s.HasClause := by
  refine .of_bind fun ⟨withWords, ctes⟩ => .of_bindOf (queryTerm_hasClause hr) fun first hfirst =>
    .of_bindOf (.manyWhile (setOperation_hasClause hr)) fun operations hoperations => .pure ?_
  intro s hs
  rcases List.mem_append.1 hs with hs | hs
  · exact hfirst s hs
  · obtain ⟨operation, hmem, hs⟩ := mem_operationBranches.1 hs
    exact hoperations operation hmem s hs

omit hr

theorem rules_hasClause (n : Nat) :
    Yields (rules n).select fun query => ∀ s ∈ query.branches, s.HasClause := by
  induction n with
  | zero => exact .reject _ _
  | succ n ih => exact selectStatement_hasClause ih

theorem statement_hasClause (n : Nat) : Yields (statement (rules n)) fun st =>
    ∀ query, st = .select query → ∀ s ∈ query.branches, s.HasClause := by
  refine .of_bind fun _ => ?_
  extract_lets atItsEnd
  have hend {p : Parser Statement} {Q : Statement → Prop} (hp : Yields p Q) :
      Yields (p >>= atItsEnd) Q :=
    .of_bindOf hp fun st h => .of_bind fun _ => .ite (.pure h) (.reject _ _)
  refine .of_bind fun _ => .of_bind fun _ => .of_bind fun _ => .of_bind fun _ => .of_bind fun _ => ?_
  refine .ite (hend ?_) (.ite (hend ?_) (.ite (hend ?_) (hend (.reject _ _))))
  · exact .of_bind fun _ => .pure nofun
  · exact .of_bind fun _ => .pure nofun
  · refine .of_bindOf (selectStatement_hasClause (rules_hasClause n)) fun query h => .pure ?_
    rintro _ ⟨⟩
    exact h

/-- Every branch of a parsed query selects something or has a root. -/
theorem parse_hasClause {text : String} {d : Dialect} {query : SelectStatement}
    (h : parse text d = .ok (.select query)) : ∀ s ∈ query.branches, s.HasClause := by
  obtain ⟨m, hm⟩ := exists_parseTokens h
  rw [parseTokens] at hm
  rcases hs : statement (rules _) ⟨d, m, _⟩ (tokenize text).dropLast with e | ⟨st, rest⟩
  · rw [hs] at hm
    cases hm
  · rw [hs] at hm
    cases hm
    exact statement_hasClause _ hs query rfl

end Grammar

/-! ### The counted path -/

namespace QuerySpec

/-- The aliases that the roots and joins of a branch declare. -/
def declaredAliases (s : QuerySpec) : List String :=
  (s.roots.map FromRoot.aliasClause ++ (s.roots.flatMap FromRoot.joins).map Join.aliasClause).filterMap
    (·.map Alias.name)

/-- The branch selects a path and nothing else. -/
def SelectsPath (s : QuerySpec) (path : List String) : Prop :=
  ∃ aliasClause, s.items = [⟨.path path, aliasClause⟩]

/-- The branch counts a path, behind a word that leaves out what comes again. -/
def CountsPath (s : QuerySpec) (distinct : Option String) (path : List String) : Prop :=
  s.items =
    [⟨.function "count" [(distinct.map Fragment.word).toList ++ [Fragment.expr (.path path)]], none⟩]

/-- What `s'` counts is the path that `s` selects, or a variable that `s'` declares. -/
def CountsKnown (s s' : QuerySpec) : Prop :=
  ∃ path, s'.CountsPath s.distinct path ∧
    (s.SelectsPath path ∨ ∃ a ∈ s'.declaredAliases, path = [a])

theorem CountsPath.unique {s : QuerySpec} {distinct : Option String} {path path' : List String}
    (h : s.CountsPath distinct path) (h' : s.CountsPath distinct path') : path = path' := by
  have := h.symm.trans h'
  simpa using this

theorem mem_declared_of_primaryAlias {s : QuerySpec} {a : String} (h : s.primaryAlias? = some a) :
    a ∈ s.declaredAliases := by
  unfold primaryAlias? at h
  cases hroots : s.roots with
  | nil => simp [hroots] at h
  | cons root roots =>
    have hroot : root.aliasClause.map Alias.name = some a := by simpa [hroots] using h
    simp [declaredAliases, hroots, hroot]

theorem counted_of_path {s : QuerySpec} {path : List String} (h : s.SelectsPath path) :
    s.counted = (s.distinct.map Fragment.word).toList ++ [Fragment.expr (.path path)] := by
  obtain ⟨aliasClause, hitems⟩ := h
  rw [counted, hitems]

theorem counted_of_not_path {s : QuerySpec} (h : ∀ path, ¬ s.SelectsPath path) :
    s.counted = (s.distinct.map Fragment.word).toList ++
      [Fragment.expr (.path [s.primaryAlias?.getD syntheticAlias])] := by
  unfold counted
  split
  next path aliasClause hitems => exact absurd ⟨aliasClause, hitems⟩ (h path)
  next => rfl

/-- The alias that is counted is declared, unless the branch selects something from a root without
an alias or from no root. -/
theorem counted_mem_declared_iff {s : QuerySpec} (hs : s.HasClause) :
    s.unsorted.primaryAlias?.getD syntheticAlias ∈ s.unsorted.declaredAliases ↔
      s.items = [] ∨ s.primaryAlias?.isSome = true ∨ syntheticAlias ∈ s.declaredAliases := by
  by_cases hu : s.Unnamed
  · obtain ⟨source, joins, behind, -, hroots⟩ := s.keptIn_unsorted.named hu
    have halias : s.unsorted.primaryAlias? = some syntheticAlias := by
      rw [primaryAlias?, hroots]
      rfl
    rw [halias]
    exact iff_of_true (mem_declared_of_primaryAlias halias) (.inl hu.1)
  · have hroots := s.keptIn_unsorted.roots hu
    have halias : s.unsorted.primaryAlias? = s.primaryAlias? := by
      simp only [primaryAlias?, hroots]
    have hdeclared : s.unsorted.declaredAliases = s.declaredAliases := by
      simp only [declaredAliases, hroots]
    rw [halias, hdeclared]
    cases h : s.primaryAlias? with
    | some a => exact iff_of_true (mem_declared_of_primaryAlias h) (.inr (.inl rfl))
    | none =>
      have hitems : s.items ≠ [] := fun hitems => hu <| by
        obtain ⟨root, roots, hroots⟩ := List.exists_cons_of_ne_nil (hs hitems)
        simpa [Unnamed, hitems, hroots, primaryAlias?] using h
      simp [hitems]

theorem counting_of_not_selectsCount {s : QuerySpec} (h : ¬ s.SelectsCount) :
    s.counting none = s.unsorted.selectingCount s.unsorted.counted := by
  rw [counting_none, if_neg (mt selectsCount_iff.1 h)]

/-- The one path that is selected is counted. -/
theorem countsPath_of_selectsPath {s : QuerySpec} {path : List String} (h : s.SelectsPath path) :
    (s.counting none).CountsPath s.distinct path := by
  obtain ⟨aliasClause, hitems⟩ := h
  have hno : ¬ s.SelectsCount := by
    rintro ⟨name, arguments, a, hcount, -⟩
    rw [hitems] at hcount
    cases hcount
  have hpath : s.unsorted.SelectsPath path := ⟨aliasClause, s.items_giveAlias.trans hitems⟩
  rw [counting_of_not_selectsCount hno, counted_of_path hpath, ← s.distinct_giveAlias]
  rfl

/-- Anything else is counted by the alias of the first root. -/
theorem countsPath_of_not_selectsPath {s : QuerySpec} (h : ¬ s.SelectsCount)
    (hpath : ∀ path, ¬ s.SelectsPath path) : (s.counting none).CountsPath s.distinct
      [s.unsorted.primaryAlias?.getD syntheticAlias] := by
  have hpath' (path : List String) : ¬ s.unsorted.SelectsPath path := fun ⟨a, hitems⟩ =>
    hpath path ⟨a, s.items_giveAlias.symm.trans hitems⟩
  rw [counting_of_not_selectsCount h, counted_of_not_path hpath', ← s.distinct_giveAlias]
  rfl

theorem countsKnown_iff {s : QuerySpec} (hs : s.HasClause) (h : ¬ s.SelectsCount) :
    s.CountsKnown (s.counting none) ↔ (∃ path, s.SelectsPath path) ∨ s.items = [] ∨
      s.primaryAlias?.isSome = true ∨ syntheticAlias ∈ s.declaredAliases := by
  by_cases hpath : ∃ path, s.SelectsPath path
  · obtain ⟨path, hpath⟩ := hpath
    exact iff_of_true ⟨path, countsPath_of_selectsPath hpath, .inl hpath⟩ (.inl ⟨path, hpath⟩)
  · have hcounts := countsPath_of_not_selectsPath h (not_exists.1 hpath)
    have hdeclared : (s.counting none).declaredAliases = s.unsorted.declaredAliases := by
      rw [counting_of_not_selectsCount h]
      rfl
    rw [or_iff_right hpath, ← counted_mem_declared_iff hs, ← hdeclared]
    constructor
    · rintro ⟨path, hcounts', hselects | ⟨a, ha, rfl⟩⟩
      · exact absurd ⟨path, hselects⟩ hpath
      · cases hcounts.unique hcounts'
        exact ha
    · exact fun hmem => ⟨_, hcounts, .inr ⟨_, hmem, rfl⟩⟩

/-- What is not known to be counted is the alias that is made up. -/
theorem countsPath_of_not_countsKnown {s : QuerySpec} (hs : s.HasClause)
    (h : ¬ s.SelectsCount) (hk : ¬ s.CountsKnown (s.counting none)) :
    (s.counting none).CountsPath s.distinct [syntheticAlias] := by
  rw [countsKnown_iff hs h, not_or, not_or, not_or] at hk
  obtain ⟨hpath, hitems, hnone, -⟩ := hk
  have hcounts := countsPath_of_not_selectsPath h (not_exists.1 hpath)
  rw [Option.not_isSome_iff_eq_none] at hnone
  have halias : s.unsorted.primaryAlias? = none := by
    rw [unsorted, giveAlias_of_items hitems]
    exact hnone
  rwa [halias] at hcounts

end QuerySpec

/-- The branches of a query; modifying statements have none. -/
def Statement.branches : Statement → List QuerySpec
  | .select query => query.branches
  | _ => []

/-- A text that is parsed to branches is parsed to a query. -/
theorem exists_query {text : String} {d : Dialect} {β : Type} {f : QuerySpec → β} {b : β}
    {bs : List β} (h : (parse text d).toOption.map (·.branches.map f) = some (b :: bs)) :
    ∃ query, parse text d = .ok (.select query) ∧ query.branches.map f = b :: bs := by
  cases hp : parse text d with
  | error e => simp [hp, Except.toOption] at h
  | ok st =>
    have hst : st.branches.map f = b :: bs := by simpa [hp, Except.toOption] using h
    cases st with
    | select query => exact ⟨query, rfl, hst⟩
    | update s => cases hst
    | delete s => cases hst

/-- In a count query that is derived from a parsed query, a branch that did not select a count before
counts the path that it selected, or an alias that it declares. The exception is a branch that
selected anything else from a root without an alias, or from no root: it counts the alias that is made
up for such roots, and declares it only by chance. -/
theorem counted_known_iff {text : String} {d : Dialect} {query : SelectStatement}
    (h : parse text d = .ok (.select query)) :
    ∃ counted, (Statement.select query).counting none = .ok (.select counted) ∧
      query.Branchwise (fun s s' => ¬ s.SelectsCount →
        (s.CountsKnown s' ↔ (∃ path, s.SelectsPath path) ∨ s.items = [] ∨
          s.primaryAlias?.isSome = true ∨ syntheticAlias ∈ s.declaredAliases) ∧
        (¬ s.CountsKnown s' → s'.CountsPath s.distinct [syntheticAlias])) counted := by
  refine ⟨query.mapSpecs (·.counting none), rfl, SelectStatement.branchwise_mapSpecs ?_⟩
  intro s hmem hno
  have hs := Grammar.parse_hasClause h s hmem
  exact ⟨QuerySpec.countsKnown_iff hs hno, QuerySpec.countsPath_of_not_countsKnown hs hno⟩

theorem counted_known_iff_of_union :
    ∃ query, parse "from User union (select distinct u.name from User u) union select 1" .hql =
        .ok (.select query) ∧ query.branches.map (·.items.length) = [0, 1, 1] ∧
      ∃ counted, (Statement.select query).counting none = .ok (.select counted) ∧
        query.Branchwise (fun s s' => ¬ s.SelectsCount →
          (s.CountsKnown s' ↔ (∃ path, s.SelectsPath path) ∨ s.items = [] ∨
            s.primaryAlias?.isSome = true ∨ syntheticAlias ∈ s.declaredAliases) ∧
          (¬ s.CountsKnown s' → s'.CountsPath s.distinct [syntheticAlias])) counted := by
  have hparsed : (parse "from User union (select distinct u.name from User u) union select 1"
      .hql).toOption.map (·.branches.map (·.items.length)) = some [0, 1, 1] := by
    decide +kernel
  obtain ⟨query, h, hlengths⟩ := exists_query hparsed
  exact ⟨query, h, hlengths, counted_known_iff h⟩

/-- Two attributes of a root without an alias are counted by an alias that nothing declares. -/
theorem count_of_undeclared :
    ∃ query counted, parse "select name, age from User" .hql = .ok (.select query) ∧
      (Statement.select query).counting none = .ok (.select counted) ∧
      ¬ query.Branchwise (fun s s' => ¬ s.SelectsCount → s.CountsKnown s') counted := by
  have hparsed : (parse "select name, age from User" .hql).toOption.map (·.branches.map fun s =>
      (s.items.length, s.primaryAlias?, s.declaredAliases)) = some [(2, none, [])] := by
    decide +kernel
  obtain ⟨query, h, hbranches⟩ := exists_query hparsed
  obtain ⟨s, hs, hbranch⟩ := List.map_eq_singleton_iff.1 hbranches
  obtain ⟨hlength, hroot, hdeclared⟩ : s.items.length = 2 ∧ s.primaryAlias? = none ∧
      s.declaredAliases = [] := by simpa using hbranch
  have hmem : s ∈ query.branches := by
    rw [hs]
    exact List.mem_singleton_self s
  have hno : ¬ s.SelectsCount := by
    rintro ⟨name, arguments, a, hitems, -⟩
    simp [hitems] at hlength
  refine ⟨query, _, h, rfl, fun hall => ?_⟩
  have hknown := hall.of_mapSpecs s hmem hno
  rw [QuerySpec.countsKnown_iff (Grammar.parse_hasClause h s hmem) hno, hroot, hdeclared] at hknown
  obtain ⟨path, a, hitems⟩ | hitems | halias | hchance := hknown
  · simp [hitems] at hlength
  · simp [hitems] at hlength
  · cases halias
  · cases hchance

end Jpql
