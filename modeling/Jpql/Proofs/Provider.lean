import Jpql.Provider.Memory

/-! What is expected of a provider when values are bound: a created query declares its parameters,
takes any value for them, and holds each value until another is set for the same parameter. The
provider without a database does so. -/

namespace Jpql

variable {σ ρ : Type}

/-- The provider takes the text and any value for each parameter, which are the positions in
`declared`. `held` is the value that a query holds for a parameter. -/
structure Provider.Takes (provider : Provider σ ρ) (held : σ → QueryParameter → Option Value)
    (query : String) (tuple : Bool) (declared : List Nat) : Prop where
  create : ∃ s, provider.create query false tuple = .ok s ∧
    ∀ p, p ∈ provider.parameters s ↔ ∃ n ∈ declared, p = .positional n
  set : ∀ s p v t, p ∈ provider.parameters s → ∃ s', provider.set p v t s = (.ok (), s') ∧
    provider.parameters s' = provider.parameters s ∧ held s' p = some v ∧
    ∀ p', p' ≠ p → held s' p' = held s p'
  setFirstResult : ∀ n s p, held (provider.setFirstResult n s) p = held s p
  setMaxResults : ∀ n s p, held (provider.setMaxResults n s) p = held s p

/-- The value that a query without a database holds for a parameter. -/
def MemoryQuery.held (q : MemoryQuery) (p : QueryParameter) : Option Value :=
  (q.bound.find? (·.1 == p)).map (·.2.1)

namespace MemoryQuery

theorem set_declared {q : MemoryQuery} {p : QueryParameter} (hp : p ∈ q.parameters) (v : Value)
    (t : Option TemporalType) :
    ∃ q', q.set p v t = (.ok (), q') ∧ q'.parameters = q.parameters ∧ q'.held p = some v ∧
      ∀ p', p' ≠ p → q'.held p' = q.held p' := by
  refine ⟨{ q with bound := (p, v, t) :: q.bound.filter (·.1 != p) }, by rw [set, if_pos hp], rfl,
    by simp [held], fun p' hne => ?_⟩
  have hfilter : (q.bound.filter (·.1 != p)).find? (·.1 == p') = q.bound.find? (·.1 == p') := by
    rw [List.find?_filter]
    congr 1
    funext entry
    by_cases h : entry.1 = p'
    · simp [h, hne]
    · simp [h]
  have hhead : (p == p') = false := by simpa using hne.symm
  simp only [held, List.find?_cons, hhead, hfilter]

end MemoryQuery

theorem memoryProvider_takes (rows : List MemoryRow) {query : String} (tuple : Bool)
    {declared : List Nat} (hforbidden : MemoryQuery.mentions "Forbidden" query = false)
    (hparameters : ∀ p, p ∈ MemoryQuery.parametersOf query ↔ ∃ n ∈ declared, p = .positional n) :
    (memoryProvider rows).Takes MemoryQuery.held query tuple declared where
  create := by
    refine ⟨{ text := query, parameters := MemoryQuery.parametersOf query, rows }, ?_, hparameters⟩
    simp [memoryProvider, MemoryQuery.create, hforbidden]
  set s p v t hp := MemoryQuery.set_declared hp v t
  setFirstResult _ _ _ := rfl
  setMaxResults _ _ _ := rfl

end Jpql
