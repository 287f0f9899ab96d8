import Jpql.Proofs.Derived.Database
import Jpql.Proofs.Provider
import Jpql.Provider.Memory

/-! Providers that answer from a table. A query returns the rows of the table that it selects, in its
order and within its bounds. A provider that knows some queries, and the records of a table in their
order, does so. -/

namespace Jpql

open Derived

variable {σ ρ : Type}

/-- What a created query asks for: the rows that a text stands for, within bounds. -/
structure Request where
  text : String
  firstResult : Option Nat := none
  maxResults : Option Nat := none

/-- The rows within the bounds. -/
def Request.cut (r : Request) (rows : List ρ) : List ρ :=
  let behind := rows.drop (r.firstResult.getD 0)
  behind.take (r.maxResults.getD behind.length)

/-- With the bounds of a call, a query asks for its rows within these bounds. -/
theorem PreparedQuery.request_restricted {provider : Provider σ ρ} {request : σ → Request}
    (hfirst : ∀ n s, request (provider.setFirstResult n s) =
      { request s with firstResult := some n })
    (hmax : ∀ n s, request (provider.setMaxResults n s) = { request s with maxResults := some n })
    {p : PreparedQuery} {s : σ} {text : String} (hs : request s = { text }) :
    request (p.restricted provider s) = ⟨text, p.firstResult, p.maxResults⟩ := by
  unfold restricted
  rcases p.firstResult with _ | first <;> rcases p.maxResults with _ | max <;>
    simp [hfirst, hmax, hs]

/-- The provider takes the text of a query and returns the rows of the table that the query selects,
in the order of the query and within the bounds. `held` is the value that a created query holds for
a parameter, and `request` what it asks for. -/
structure Provider.Answers (provider : Provider σ ρ) (held : σ → QueryParameter → Option Value)
    (request : σ → Request) (db : Database ρ) (table : List ρ) (q : SelectQuery) : Prop where
  takes : provider.Takes held q.render false (parametersOf q.predicate)
  create : ∀ s, provider.create q.render false false = .ok s → request s = { text := q.render }
  set : ∀ p v t s, request (provider.set p v t s).2 = request s
  setFirstResult : ∀ n s,
    request (provider.setFirstResult n s) = { request s with firstResult := some n }
  setMaxResults : ∀ n s,
    request (provider.setMaxResults n s) = { request s with maxResults := some n }
  resultList : ∀ s, (request s).text = q.render → ∃ rows : List ρ,
    rows.Perm (table.filter (q.selects db fun n => held s (.positional n))) ∧
      rows.Pairwise (q.compareRows db · · ≠ .gt) ∧
      provider.resultList s = .ok ((request s).cut rows)

/-! ### A provider that knows its queries -/

/-- A created query, one of those that are known, with the values and bounds set so far. -/
structure TableQuery (known : List SelectQuery) where
  query : SelectQuery
  mem : query ∈ known
  held : QueryParameter → Option Value := fun _ => none
  firstResult : Option Nat := none
  maxResults : Option Nat := none

namespace TableQuery

variable {known : List SelectQuery}

def create? (known : List SelectQuery) (text : String) : Option (TableQuery known) :=
  match h : known.find? (·.render == text) with
  | some q => some ⟨q, List.mem_of_find?_eq_some h, fun _ => none, none, none⟩
  | none => none

def request (s : TableQuery known) : Request :=
  ⟨s.query.render, s.firstResult, s.maxResults⟩

def parameters (s : TableQuery known) : List QueryParameter :=
  (parametersOf s.query.predicate).map .positional

def set (p : QueryParameter) (v : Value) (s : TableQuery known) :
    Except String Unit × TableQuery known :=
  if p ∈ s.parameters then
    (.ok (), { s with held := fun p' => if p' = p then some v else s.held p' })
  else (.error (MemoryQuery.notLocated p.label), s)

/-- The rows that the query selects, in its order. -/
def rows (db : Database ρ) (table : List ρ) (s : TableQuery known) : List ρ :=
  (table.filter (s.query.selects db fun n => s.held (.positional n))).mergeSort
    fun r r' => s.query.compareRows db r r' != .gt

end TableQuery

/-- The provider of known queries on a table. -/
def tableProvider (db : Database ρ) (table : List ρ) (known : List SelectQuery) :
    Provider (TableQuery known) ρ where
  create text _ _ :=
    match TableQuery.create? known text with
    | some s => .ok s
    | none => .error ("Unknown query " ++ text)
  parameters := TableQuery.parameters
  set p v _ s := s.set p v
  setFirstResult n s := { s with firstResult := some n }
  setMaxResults n s := { s with maxResults := some n }
  resultList s := .ok (s.request.cut (s.rows db table))

variable {db : Database ρ} {table : List ρ} {known : List SelectQuery} {q : SelectQuery}

theorem create?_known (hq : q ∈ known) (hdistinct : ∀ q' ∈ known, q'.render = q.render → q' = q) :
    TableQuery.create? known q.render = some ⟨q, hq, fun _ => none, none, none⟩ := by
  have hfound : known.find? (·.render == q.render) = some q := by
    cases hfind : known.find? (·.render == q.render) with
    | none => simpa using List.find?_eq_none.1 hfind q hq
    | some q' =>
      rw [hdistinct q' (List.mem_of_find?_eq_some hfind) (by simpa using List.find?_some hfind)]
  unfold TableQuery.create?
  split
  next q' h =>
    obtain rfl := Option.some.inj (hfound.symm.trans h)
    rfl
  next h =>
    rw [hfound] at h
    cases h

/-- A known query is answered from a table whose rows are in its order. -/
theorem tableProvider_answers (hq : q ∈ known)
    (hdistinct : ∀ q' ∈ known, q'.render = q.render → q' = q)
    (hsorted : table.Pairwise (q.compareRows db · · ≠ .gt)) :
    (tableProvider db table known).Answers TableQuery.held TableQuery.request db table q where
  takes := {
    create := by
      refine ⟨⟨q, hq, fun _ => none, none, none⟩, ?_, fun p => ?_⟩
      · simp only [tableProvider, create?_known hq hdistinct]
      · simp [tableProvider, TableQuery.parameters, eq_comm]
    set := by
      intro s p v t hp
      have hp : p ∈ s.parameters := hp
      refine ⟨{ s with held := fun p' => if p' = p then some v else s.held p' }, ?_, rfl,
        if_pos rfl, fun p' hne => if_neg hne⟩
      simp only [tableProvider, TableQuery.set, if_pos hp]
    setFirstResult := fun _ _ _ => rfl
    setMaxResults := fun _ _ _ => rfl }
  create := by
    intro s h
    simp only [tableProvider, create?_known hq hdistinct] at h
    rw [← Except.ok.inj h]
    rfl
  set := by
    intro p v t s
    change (s.set p v).2.request = s.request
    unfold TableQuery.set
    split <;> rfl
  setFirstResult := fun _ _ => rfl
  setMaxResults := fun _ _ => rfl
  resultList := by
    intro s hs
    have hsame : s.query = q := hdistinct s.query s.mem hs
    refine ⟨s.rows db table, ?_, ?_, rfl⟩
    · rw [← hsame]
      exact List.mergeSort_perm _ _
    · have hall : (table.filter (s.query.selects db fun n => s.held (.positional n))).Pairwise
          fun r r' => (s.query.compareRows db r r' != .gt) = true := by
        rw [hsame]
        exact (hsorted.filter _).imp fun h => by simpa using h
      rw [TableQuery.rows, List.mergeSort_of_pairwise hall, ← hsame]
      exact hall.imp fun h => by simpa using h

/-! ### Records -/

/-- Numbers and texts are compared with their kind only. -/
def Value.compare : Value → Value → Ordering
  | .int a, .int b => Ord.compare a b
  | .text s, .text t => Ord.compare s t
  | _, _ => .eq

/-- Whether two values compare as an operator says. -/
def Value.holds (operator : String) (v w : Value) : Bool :=
  match operator with
  | "=" => v.compare w == .eq
  | "<" => v.compare w == .lt
  | ">" => v.compare w == .gt
  | _ => false

/-- The database of rows that list their properties, with comparisons as its conditions. -/
def recordDatabase : Database MemoryRow where
  value row
    | .path e => row.value e.path
    | _ => .null
  holds row values
    | .compare (.path e) operator (.parameter n) =>
      (values n).any fun v => Value.holds operator (row.value e.path) v
    | _ => false
  compare := Value.compare
  holds_congr := by
    intro row values values' p h
    split
    next e operator n =>
      rw [h n (by simp [Predicate.parameters, Expression.parameters])]
    next => rfl
  holds_compare := by
    intro row values path operator n v o hv _ _ hoperator
    simp only [property, hv, Option.any_some]
    simp only [List.mem_cons, Prod.mk.injEq, List.not_mem_nil, or_false] at hoperator
    rcases hoperator with ⟨rfl, rfl⟩ | ⟨rfl, rfl⟩ | ⟨rfl, rfl⟩ <;> rfl

end Jpql
