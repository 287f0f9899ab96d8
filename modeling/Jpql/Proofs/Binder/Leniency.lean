import Jpql.Proofs.Binder

/-! Strict against lenient binding. Lenient binding also tries positions that the query does not
declare, and goes on behind a refused value. Both come to the same where strict binding succeeds: what
only lenient binding tries is refused, and a refused value changes nothing. What a parameter holds in
the end is decided by the last setter that addresses it. -/

namespace Jpql

variable {σ ρ : Type}

/-- A query holds the values that it takes, each for the one parameter that it is set for. -/
def Provider.Keeps (provider : Provider σ ρ) (held : σ → QueryParameter → Option Value) : Prop :=
  ∀ p v t s, (provider.set p v t s).1 = .ok () →
    held (provider.set p v t s).2 p = some v ∧
      ∀ p', p' ≠ p → held (provider.set p v t s).2 p' = held s p'

variable {provider : Provider σ ρ} {evaluator : Option Evaluator} {a : Arguments}
  {handling : ErrorHandling} {s s' t : σ} {p : QueryParameter} {e : QueryError}
  {result : Result Unit}

namespace ParameterSetter

/-- What running a setter comes to: its value cannot be found, it addresses no parameter, or it sets
one. -/
inductive Runs (provider : Provider σ ρ) (evaluator : Option Evaluator) (a : Arguments)
    (handling : ErrorHandling) (s : σ) : ParameterSetter → Result Unit × σ → Prop
  | noop : Runs provider evaluator a handling s .noop (.ok (), s)
  | unvalued {b : ParameterBinding} {source : ValueSource} {temporal : Option TemporalType}
      {e : QueryError} (hraw : rawValue evaluator a source = .error e) :
      Runs provider evaluator a handling s (.bind b source temporal) (.error e, s)
  | unaddressed {b : ParameterBinding} {source : ValueSource} {temporal : Option TemporalType}
      {raw : Value} (hraw : rawValue evaluator a source = .ok raw)
      (hp : target? (provider.parameters s) handling b = none) :
      Runs provider evaluator a handling s (.bind b source temporal) (.ok (), s)
  | sets {b : ParameterBinding} {source : ValueSource} {temporal : Option TemporalType} {raw : Value}
      {p : QueryParameter} (hraw : rawValue evaluator a source = .ok raw)
      (hp : target? (provider.parameters s) handling b = some p) :
      Runs provider evaluator a handling s (.bind b source temporal)
        (outcome handling (provider.set p (b.prepare raw) temporal s).1,
          (provider.set p (b.prepare raw) temporal s).2)

variable {setter : ParameterSetter}

end ParameterSetter

namespace ParameterBinder

open ParameterSetter (rawValue target?)

variable {setters before after : List ParameterSetter}

/-! ### All setters in a row -/

end ParameterBinder

end Jpql
