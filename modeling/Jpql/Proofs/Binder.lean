import Jpql.Binder
import Jpql.Proofs.Provider
import Mathlib.Data.List.Forall2

/-! Strict binding of positional parameters. If the query declares every position that is to be
set, and none is to be set twice, binding succeeds and the query then holds each value. -/

namespace Jpql

variable {σ ρ : Type}

/-- The value that binding with these arguments sets for a binding: its own, or the argument of the
parameter that it stands for. -/
def ParameterBinding.boundValue (ps : MethodParameters) (a : Arguments) (b : ParameterBinding) :
    Value :=
  b.prepare <| match b.origin with
    | .synthetic v _ => v
    | .argument i =>
      match ParameterSetter.parameterOf? ps i with
      | .ok (some (_, k)) => (a.value? k).getD .null
      | _ => .null
    | .expression _ => .null

/-- Binding with these arguments sets the positions to the values, in order. -/
inductive Assigns (a : Arguments) : List ParameterSetter → List (Nat × Value) → Prop
  | nil : Assigns a [] []
  | noop {setters : List ParameterSetter} {assignments : List (Nat × Value)}
      (h : Assigns a setters assignments) : Assigns a (.noop :: setters) assignments
  | bind {b : ParameterBinding} {source : ValueSource} {temporal : Option TemporalType} {n : Nat}
      {v : Value} {setters : List ParameterSetter} {assignments : List (Nat × Value)}
      (hn : b.identifier = .indexed n) (hv : ParameterSetter.rawValue none a source = .ok v)
      (h : Assigns a setters assignments) :
      Assigns a (.bind b source temporal :: setters) ((n, b.prepare v) :: assignments)

/-! ### Runs -/

variable {provider : Provider σ ρ} {held : σ → QueryParameter → Option Value} {query : String}
  {tuple : Bool} {declared : List Nat} {a : Arguments}

theorem target?_eq {parameters : List QueryParameter} {handling : ErrorHandling}
    {b : ParameterBinding} {n : Nat} (hn : b.identifier = .indexed n)
    (hdeclared : .positional n ∈ parameters) :
    ParameterSetter.target? parameters handling b = some (.positional n) := by
  simp [ParameterSetter.target?, ParameterBinding.name?, ParameterBinding.position?, hn,
    BindingIdentifier.name?, BindingIdentifier.position?, hdeclared]

/-- One setter sets its position and leaves all others as they are. -/
theorem run_bind (hp : provider.Takes held query tuple declared) {b : ParameterBinding}
    {source : ValueSource} {n : Nat} {v : Value} (hn : b.identifier = .indexed n)
    (hv : ParameterSetter.rawValue none a source = .ok v) {s : σ}
    (hdeclared : .positional n ∈ provider.parameters s) (handling : ErrorHandling)
    (temporal : Option TemporalType) :
    ∃ s', ParameterSetter.run provider none a handling (.bind b source temporal) s = (.ok (), s') ∧
      provider.parameters s' = provider.parameters s ∧
      held s' (.positional n) = some (b.prepare v) ∧
      ∀ p, p ≠ .positional n → held s' p = held s p := by
  obtain ⟨s', hset, hspec⟩ := hp.set s (.positional n) (b.prepare v) temporal hdeclared
  refine ⟨s', ?_, hspec⟩
  simp only [ParameterSetter.run, hv, target?_eq hn hdeclared, hset, ParameterSetter.outcome]

/-- Running all setters sets all positions. -/
theorem bindAll_assigns (hp : provider.Takes held query tuple declared) {setters : List ParameterSetter}
    {assignments : List (Nat × Value)} (h : Assigns a setters assignments) {s : σ}
    (hdeclared : ∀ x ∈ assignments, .positional x.1 ∈ provider.parameters s)
    (hdistinct : (assignments.map Prod.fst).Nodup) (handling : ErrorHandling) :
    ∃ s', ParameterBinder.bindAll provider none a handling setters s = (.ok (), s') ∧
      (∀ x ∈ assignments, held s' (.positional x.1) = some x.2) ∧
      ∀ p, (∀ x ∈ assignments, p ≠ .positional x.1) → held s' p = held s p := by
  induction h generalizing s with
  | nil => exact ⟨s, rfl, by simp, fun _ _ => rfl⟩
  | noop _ ih => exact ih hdeclared hdistinct
  | @bind b source temporal n v setters assignments hn hv _ ih =>
    obtain ⟨hfirst, hrest⟩ := List.forall_mem_cons.1 hdeclared
    obtain ⟨hfresh, hdistinct⟩ := List.nodup_cons.1 hdistinct
    obtain ⟨t, hrun, hsame, hset, hframe⟩ := run_bind hp hn hv hfirst handling temporal
    rw [← hsame] at hrest
    obtain ⟨s', hall, hsets, hkeeps⟩ := ih hrest hdistinct
    refine ⟨s', ?_, List.forall_mem_cons.2 ⟨?_, hsets⟩, fun p hp => ?_⟩
    · rw [ParameterBinder.bindAll, hrun]
      exact hall
    · -- No later setter sets this position again.
      rw [← hset]
      refine hkeeps _ fun x hx hsame => hfresh ?_
      rw [QueryParameter.positional.inj hsame]
      exact List.mem_map_of_mem hx
    · obtain ⟨hne, hp⟩ := List.forall_mem_cons.1 hp
      rw [hkeeps p hp, hframe p hne]

/-- What a query keeps whatever is set, it keeps when a setter runs. -/
theorem run_keeps {κ : Type} {kept : σ → κ}
    (hset : ∀ p v t s, kept (provider.set p v t s).2 = kept s) (evaluator : Option Evaluator)
    (handling : ErrorHandling) (setter : ParameterSetter) (s : σ) :
    kept (setter.run provider evaluator a handling s).2 = kept s := by
  unfold ParameterSetter.run
  split
  · rfl
  · split
    · rfl
    · split
      · rfl
      · exact hset _ _ _ _

theorem bindAll_keeps {κ : Type} {kept : σ → κ}
    (hset : ∀ p v t s, kept (provider.set p v t s).2 = kept s) (evaluator : Option Evaluator)
    (handling : ErrorHandling) (setters : List ParameterSetter) (s : σ) :
    kept (ParameterBinder.bindAll provider evaluator a handling setters s).2 = kept s := by
  induction setters generalizing s with
  | nil => rfl
  | cons setter setters ih =>
    have hrun := run_keeps (a := a) hset evaluator handling setter s
    unfold ParameterBinder.bindAll
    split
    next t ht =>
      rw [ht] at hrun
      exact (ih t).trans hrun
    next t ht =>
      rw [ht] at hrun
      exact hrun

/-! ### Setters -/

/-- The binding takes the argument of a parameter that there is, or a value of its own. -/
inductive TakesValue (ps : MethodParameters) (b : ParameterBinding) : Prop
  | argument {i : BindingIdentifier} {p : MethodParameter} {k : Nat} (ho : b.origin = .argument i)
      (hp : ParameterSetter.parameterOf? ps i = .ok (some (p, k)))
  | synthetic {v : Value} {source : String} (ho : b.origin = .synthetic v source)

variable {ps : MethodParameters}

/-- What binding sets for bindings from position `k + 1` on. -/
def assignments (ps : MethodParameters) (a : Arguments) (k : Nat) (bs : List ParameterBinding) :
    List (Nat × Value) :=
  ((bs.zipIdx k).filter (!·.1.isNullTest)).map fun x => (x.2 + 1, x.1.boundValue ps a)

theorem assignments_cons (a : Arguments) (k : Nat) (b : ParameterBinding)
    (bs : List ParameterBinding) :
    assignments ps a k (b :: bs) =
      if b.isNullTest then assignments ps a (k + 1) bs
      else (k + 1, b.boundValue ps a) :: assignments ps a (k + 1) bs := by
  cases hnull : b.isNullTest <;> simp [assignments, hnull]

theorem mem_assignments {k i : Nat} {b : ParameterBinding} {bs : List ParameterBinding}
    (hi : bs[i]? = some b) (hb : b.isNullTest = false) :
    (k + i + 1, b.boundValue ps a) ∈ assignments ps a k bs := by
  refine List.mem_map.2 ⟨(b, k + i), List.mem_filter.2 ⟨?_, by simp [hb]⟩, rfl⟩
  rw [List.mem_zipIdx_iff_le_and_getElem?_sub]
  exact ⟨by omega, by simpa using hi⟩

theorem setter_assigns {k : Nat} {b : ParameterBinding} {setter : ParameterSetter}
    (hb : TakesValue ps b) (hn : b.identifier = .indexed (k + 1))
    (h : ParameterSetter.of ps b = .ok setter) {setters : List ParameterSetter}
    {assigned : List (Nat × Value)} (hrest : Assigns a setters assigned) :
    Assigns a (setter :: setters)
      (if b.isNullTest then assigned else (k + 1, b.boundValue ps a) :: assigned) := by
  unfold ParameterSetter.of at h
  split at h
  next hnull =>
    obtain rfl := Except.ok.inj h
    rw [if_pos hnull]
    exact .noop hrest
  next hnull =>
    rw [if_neg hnull]
    cases hb with
    | @argument i p j ho hp =>
      simp only [ho, hp, bind, Except.bind] at h
      obtain rfl := Except.ok.inj h
      have hv : ParameterSetter.rawValue none a (.argument j) = .ok ((a.value? j).getD .null) := rfl
      simp only [ParameterBinding.boundValue, ho, hp]
      exact .bind hn hv hrest
    | synthetic ho =>
      simp only [ho] at h
      obtain rfl := Except.ok.inj h
      rw [ParameterBinding.boundValue, ho]
      exact .bind hn rfl hrest

theorem setters_assign {k : Nat} {bs : List ParameterBinding} {setters : List ParameterSetter}
    (hb : ∀ i b, bs[i]? = some b → TakesValue ps b ∧ b.identifier = .indexed (k + i + 1))
    (h : bs.mapM (ParameterSetter.of ps) = .ok setters) :
    Assigns a setters (assignments ps a k bs) := by
  induction bs generalizing k setters with
  | nil =>
    obtain rfl := Except.ok.inj h
    exact .nil
  | cons b bs ih =>
    rw [List.mapM_cons] at h
    rcases hsetter : ParameterSetter.of ps b with e | setter
    · rw [hsetter] at h
      cases h
    rcases hrest : bs.mapM (ParameterSetter.of ps) with e | rest
    · rw [hsetter, hrest] at h
      cases h
    rw [hsetter, hrest] at h
    obtain rfl := Except.ok.inj h
    obtain ⟨htakes, hn⟩ := hb 0 b rfl
    have htail : Assigns a rest (assignments ps a (k + 1) bs) := by
      refine ih (fun i b hi => ?_) hrest
      have hsame : k + 1 + i = k + (i + 1) := by omega
      rw [hsame]
      exact hb (i + 1) b hi
    rw [assignments_cons]
    exact setter_assigns htakes hn hsetter htail

end Jpql
