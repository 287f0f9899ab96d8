import Jpql.Statement.Counting

/-! What a count query keeps. Counting goes into every branch of a statement, also inside
parentheses, and leaves all that holds the branches together. Inside a branch it touches the
selection, the order and, where nothing else names it, the first root; whatever it found there, the
branch that comes out selects a count in no order, and such a branch is counted by itself. -/

namespace Jpql

/-! ### Branches -/

mutual

/-- The branches of a statement, also inside parentheses. -/
def SelectStatement.branches : SelectStatement → List QuerySpec
  | ⟨_, _, first, operations⟩ => first.branches ++ operationBranches operations

def QueryTerm.branches : QueryTerm → List QuerySpec
  | .spec s => [s]
  | .nested s => s.branches

def operationBranches : List SetOperation → List QuerySpec
  | [] => []
  | ⟨_, term⟩ :: operations => term.branches ++ operationBranches operations

end

mutual

/-- Two statements with the same common table expressions, set operations and parentheses, whose
branches are related one by one. -/
inductive SelectStatement.Branchwise (R : QuerySpec → QuerySpec → Prop) :
    SelectStatement → SelectStatement → Prop
  | mk {withWords : String} {ctes : List Cte} {first first' : QueryTerm}
      {operations operations' : List SetOperation} :
      QueryTerm.Branchwise R first first' → OperationsBranchwise R operations operations' →
      SelectStatement.Branchwise R ⟨withWords, ctes, first, operations⟩
        ⟨withWords, ctes, first', operations'⟩

inductive QueryTerm.Branchwise (R : QuerySpec → QuerySpec → Prop) : QueryTerm → QueryTerm → Prop
  | spec {s s' : QuerySpec} : R s s' → QueryTerm.Branchwise R (.spec s) (.spec s')
  | nested {s s' : SelectStatement} : SelectStatement.Branchwise R s s' →
      QueryTerm.Branchwise R (.nested s) (.nested s')

inductive OperationsBranchwise (R : QuerySpec → QuerySpec → Prop) :
    List SetOperation → List SetOperation → Prop
  | nil : OperationsBranchwise R [] []
  | cons {words : String} {term term' : QueryTerm} {operations operations' : List SetOperation} :
      QueryTerm.Branchwise R term term' → OperationsBranchwise R operations operations' →
      OperationsBranchwise R (⟨words, term⟩ :: operations) (⟨words, term'⟩ :: operations')

end

theorem mem_operationBranches {s : QuerySpec} {operations : List SetOperation} :
    s ∈ operationBranches operations ↔ ∃ operation ∈ operations, s ∈ operation.term.branches := by
  induction operations with
  | nil => simp [operationBranches]
  | cons operation operations ih =>
    obtain ⟨words, term⟩ := operation
    simp [operationBranches, ih]

section Branches

variable {R : QuerySpec → QuerySpec → Prop} {f : QuerySpec → QuerySpec}

mutual

theorem SelectStatement.branchwise_mapSpecs : ∀ {query : SelectStatement},
    (∀ s ∈ query.branches, R s (f s)) → query.Branchwise R (query.mapSpecs f)
  | ⟨_, _, _, _⟩, h => .mk
    (QueryTerm.branchwise_mapSpecs fun s hs => h s (List.mem_append_left _ hs))
    (branchwise_mapOperations fun s hs => h s (List.mem_append_right _ hs))

theorem QueryTerm.branchwise_mapSpecs : ∀ {term : QueryTerm},
    (∀ s ∈ term.branches, R s (f s)) → term.Branchwise R (term.mapSpecs f)
  | .spec s, h => .spec (h s (List.mem_singleton_self s))
  | .nested _, h => .nested (SelectStatement.branchwise_mapSpecs h)

theorem branchwise_mapOperations : ∀ {operations : List SetOperation},
    (∀ s ∈ operationBranches operations, R s (f s)) →
      OperationsBranchwise R operations (mapOperations f operations)
  | [], _ => .nil
  | ⟨_, _⟩ :: _, h => .cons
    (QueryTerm.branchwise_mapSpecs fun s hs => h s (List.mem_append_left _ hs))
    (branchwise_mapOperations fun s hs => h s (List.mem_append_right _ hs))

end

mutual

theorem SelectStatement.Branchwise.of_mapSpecs : ∀ {query : SelectStatement},
    query.Branchwise R (query.mapSpecs f) → ∀ s ∈ query.branches, R s (f s)
  | ⟨_, _, _, _⟩, .mk hfirst hoperations, s, hs =>
    (List.mem_append.1 hs).elim (hfirst.of_mapSpecs s) (hoperations.of_mapOperations s)

theorem QueryTerm.Branchwise.of_mapSpecs : ∀ {term : QueryTerm},
    term.Branchwise R (term.mapSpecs f) → ∀ s ∈ term.branches, R s (f s)
  | .spec _, .spec h, _, hs => List.mem_singleton.1 hs ▸ h
  | .nested _, .nested h, s, hs => h.of_mapSpecs s hs

theorem OperationsBranchwise.of_mapOperations : ∀ {operations : List SetOperation},
    OperationsBranchwise R operations (mapOperations f operations) →
      ∀ s ∈ operationBranches operations, R s (f s)
  | [], _, _, hs => nomatch hs
  | ⟨_, _⟩ :: _, .cons hterm hoperations, s, hs =>
    (List.mem_append.1 hs).elim (hterm.of_mapSpecs s) (hoperations.of_mapOperations s)

end

variable (f g : QuerySpec → QuerySpec)

mutual

theorem SelectStatement.mapSpecs_mapSpecs : ∀ query : SelectStatement,
    (query.mapSpecs f).mapSpecs g = query.mapSpecs fun s => g (f s)
  | ⟨_, _, first, operations⟩ => by
    simp only [SelectStatement.mapSpecs, QueryTerm.mapSpecs_mapSpecs first,
      mapOperations_mapOperations operations]

theorem QueryTerm.mapSpecs_mapSpecs : ∀ term : QueryTerm,
    (term.mapSpecs f).mapSpecs g = term.mapSpecs fun s => g (f s)
  | .spec _ => rfl
  | .nested s => by simp only [QueryTerm.mapSpecs, SelectStatement.mapSpecs_mapSpecs s]

theorem mapOperations_mapOperations : ∀ operations : List SetOperation,
    mapOperations g (mapOperations f operations) = mapOperations (fun s => g (f s)) operations
  | [] => rfl
  | ⟨_, term⟩ :: operations => by
    simp only [mapOperations, QueryTerm.mapSpecs_mapSpecs term,
      mapOperations_mapOperations operations]

end

end Branches

/-! ### One branch -/

namespace QuerySpec

/-- The branch selects one call of the counting function. -/
def SelectsCount (s : QuerySpec) : Prop :=
  ∃ name arguments aliasClause, s.items = [⟨.function name arguments, aliasClause⟩] ∧
    eqIgnoringCase name "count" = true

/-- Nothing names the first root: there is no select clause, and the root has no alias. -/
def Unnamed (s : QuerySpec) : Prop :=
  s.items = [] ∧ ∃ root ∈ s.roots.head?, root.aliasClause = none

/-- The branch `s'` is `s` without its order, but for the select clause and the alias of a first
root that nothing names. -/
structure KeptIn (s s' : QuerySpec) : Prop where
  unordered : s'.orderWords = "" ∧ s'.orders = []
  fromWord : s'.fromWord = s.fromWord
  roots : ¬ s.Unnamed → s'.roots = s.roots
  named : s.Unnamed → ∃ source joins behind, s.roots = ⟨source, none, joins⟩ :: behind ∧
    s'.roots = ⟨source, some ⟨none, syntheticAlias⟩, joins⟩ :: behind
  filter : s'.filter = s.filter
  groups : s'.groupWords = s.groupWords ∧ s'.groups = s.groups
  groupFilter : s'.groupFilter = s.groupFilter
  paging : s'.paging = s.paging

/-- The branch `s'` counts what `s` selects, or a projection, and is `s` otherwise. -/
structure CountOf (projection : Option String) (s s' : QuerySpec) : Prop extends s.KeptIn s' where
  selects : s'.SelectsCount
  projected : ∀ p ∈ projection, s'.items = [⟨.function "count" [[.expr (.raw p)]], none⟩]
  /-- A count that is there already stays. -/
  again : projection = none → s.SelectsCount → s'.items = s.items ∧ s'.distinct = s.distinct

theorem selectsCount_iff {s : QuerySpec} : s.selectsCount = true ↔ s.SelectsCount := by
  constructor
  · intro h
    unfold selectsCount at h
    split at h
    next item hitems =>
      obtain ⟨e, aliasClause⟩ := item
      cases e with
      | function name arguments => exact ⟨name, arguments, aliasClause, hitems, h⟩
      | _ => cases h
    next => cases h
  · rintro ⟨name, arguments, aliasClause, hitems, hname⟩
    rw [selectsCount, hitems]
    exact hname

/-- The alias goes to the first root just where nothing names it. -/
theorem giveAlias_cases (s : QuerySpec) :
    (s.Unnamed ∧ ∃ source joins behind, s.roots = ⟨source, none, joins⟩ :: behind ∧
      s.giveAlias = { s with roots := ⟨source, some ⟨none, syntheticAlias⟩, joins⟩ :: behind }) ∨
    (¬ s.Unnamed ∧ s.giveAlias = s) := by
  obtain ⟨selectWord, distinct, items, fromWord, roots, _, _, _, _, _, _, _⟩ := s
  match items, roots with
  | item :: items, roots => exact .inr ⟨fun h => (nomatch h.1), rfl⟩
  | [], [] => exact .inr ⟨fun ⟨_, _, hroot, _⟩ => (nomatch hroot), rfl⟩
  | [], ⟨source, none, joins⟩ :: behind =>
    exact .inl ⟨⟨rfl, _, rfl, rfl⟩, source, joins, behind, rfl, rfl⟩
  | [], ⟨source, some a, joins⟩ :: behind =>
    refine .inr ⟨?_, rfl⟩
    rintro ⟨-, _, ⟨⟩, hnone⟩
    cases hnone

@[simp] theorem items_giveAlias (s : QuerySpec) : s.giveAlias.items = s.items := by
  obtain ⟨-, _, _, _, -, h⟩ | ⟨-, h⟩ := s.giveAlias_cases
  · rw [h]
  · rw [h]

@[simp] theorem distinct_giveAlias (s : QuerySpec) : s.giveAlias.distinct = s.distinct := by
  obtain ⟨-, _, _, _, -, h⟩ | ⟨-, h⟩ := s.giveAlias_cases
  · rw [h]
  · rw [h]

/-- A branch with a select clause keeps its roots. -/
theorem giveAlias_of_items {s : QuerySpec} (h : s.items ≠ []) : s.giveAlias = s := by
  obtain ⟨⟨hitems, -⟩, -⟩ | ⟨-, hs⟩ := s.giveAlias_cases
  · exact absurd hitems h
  · exact hs

/-- A branch that is ready for its count: the first root has its alias, and the order is gone. -/
def unsorted (s : QuerySpec) : QuerySpec := { s.giveAlias with orderWords := "", orders := [] }

def selectingCount (s : QuerySpec) (argument : List Fragment) : QuerySpec :=
  { s with
    selectWord := if s.items.isEmpty then "select" else s.selectWord
    distinct := none
    items := [⟨.function "count" [argument], none⟩] }

theorem counting_some (p : String) (s : QuerySpec) :
    s.counting (some p) = s.unsorted.selectingCount [.expr (.raw p)] := rfl

theorem counting_none (s : QuerySpec) : s.counting none =
    if s.selectsCount then s.unsorted else s.unsorted.selectingCount s.unsorted.counted := by
  have hselects : s.unsorted.selectsCount = s.selectsCount := by
    simp only [selectsCount, unsorted, items_giveAlias]
  rw [← hselects]
  rfl

theorem unsorted_of_selectsCount {s : QuerySpec} (h : s.SelectsCount) :
    s.unsorted = { s with orderWords := "", orders := [] } := by
  obtain ⟨name, arguments, aliasClause, hitems, -⟩ := h
  rw [unsorted, giveAlias_of_items (by rw [hitems]; exact List.cons_ne_nil _ _)]

theorem keptIn_unsorted (s : QuerySpec) : s.KeptIn s.unsorted := by
  obtain ⟨h, source, joins, behind, hroots, hs⟩ | ⟨h, hs⟩ := s.giveAlias_cases
  · rw [unsorted, hs]
    exact {
      unordered := ⟨rfl, rfl⟩, fromWord := rfl, filter := rfl
      groups := ⟨rfl, rfl⟩, groupFilter := rfl, paging := rfl
      roots := fun hn => absurd h hn
      named := fun _ => ⟨source, joins, behind, hroots, rfl⟩ }
  · rw [unsorted, hs]
    exact {
      unordered := ⟨rfl, rfl⟩, fromWord := rfl, filter := rfl
      groups := ⟨rfl, rfl⟩, groupFilter := rfl, paging := rfl
      roots := fun _ => rfl
      named := fun hu => absurd hu h }

/-- The select clause is of no account to what is kept. -/
theorem KeptIn.selectingCount {s s' : QuerySpec} (h : s.KeptIn s') (argument : List Fragment) :
    s.KeptIn (s'.selectingCount argument) :=
  { h with }

theorem selectsCount_selectingCount (s : QuerySpec) (argument : List Fragment) :
    (s.selectingCount argument).SelectsCount :=
  ⟨"count", [argument], none, rfl, by decide⟩

theorem countOf_counting (projection : Option String) (s : QuerySpec) :
    s.CountOf projection (s.counting projection) := by
  have hkept := s.keptIn_unsorted
  cases projection with
  | some p =>
    rw [counting_some]
    exact { hkept.selectingCount _ with
      selects := selectsCount_selectingCount _ _
      projected := by rintro _ ⟨⟩; rfl
      again := nofun }
  | none =>
    rw [counting_none]
    split
    next h =>
      -- A count that is selected is a select clause, so the first root stays without an alias.
      have hselects := selectsCount_iff.1 h
      rw [unsorted_of_selectsCount hselects] at hkept ⊢
      exact { hkept with selects := hselects, projected := nofun, again := fun _ _ => ⟨rfl, rfl⟩ }
    next h =>
      exact { hkept.selectingCount _ with
        selects := selectsCount_selectingCount _ _
        projected := nofun
        again := fun _ hs => absurd (selectsCount_iff.2 hs) h }

/-- A branch without an order that selects a count is counted by itself. -/
theorem counting_of_selectsCount {s : QuerySpec} (h : s.SelectsCount)
    (hwords : s.orderWords = "") (horders : s.orders = []) : s.counting none = s := by
  rw [counting_none, if_pos (selectsCount_iff.2 h), unsorted_of_selectsCount h]
  cases s
  cases hwords
  cases horders
  rfl

theorem counting_counting (projection : Option String) (s : QuerySpec) :
    (s.counting projection).counting none = s.counting projection :=
  have h := s.countOf_counting projection
  counting_of_selectsCount h.selects h.unordered.1 h.unordered.2

end QuerySpec

/-! ### Statements -/

/-- Counting a query keeps its shape and, in every branch, all but selection and order; counting the
count changes nothing. -/
theorem counting_keeps (query : SelectStatement) (projection : Option String) :
    ∃ counted, (Statement.select query).counting projection = .ok (.select counted) ∧
      query.Branchwise (QuerySpec.CountOf projection) counted ∧
      (Statement.select counted).counting none = .ok (.select counted) := by
  refine ⟨query.mapSpecs (·.counting projection), rfl, ?_, ?_⟩
  · exact SelectStatement.branchwise_mapSpecs fun s _ => s.countOf_counting projection
  · simp only [Statement.counting, SelectStatement.mapSpecs_mapSpecs, QuerySpec.counting_counting]

end Jpql
