import Jpql.Proofs.Derived.Keyset

/-! Predicates under the logic of SQL. A comparison with null is neither true nor false, and what is
unknown never counts as true. A reading of an adapter says what its expressions and predicates mean
for rows, in the states that building them goes through. -/

namespace Jpql

/-- The truth values of SQL. -/
inductive Truth where
  | false | unknown | true
  deriving DecidableEq, Repr

namespace Truth

def ofBool (b : Bool) : Truth := if b then .true else .false

def and : Truth → Truth → Truth
  | .false, _ | _, .false => .false
  | .true, .true => .true
  | _, _ => .unknown

def or : Truth → Truth → Truth
  | .true, _ | _, .true => .true
  | .false, .false => .false
  | _, _ => .unknown

def all (ts : List Truth) : Truth := ts.foldl and .true

def any (ts : List Truth) : Truth := ts.foldl or .false

/-- A comparison of two values, which is unknown where one of them is null. -/
def compared (order : Value → Value → Ordering) (w v : Value) (o : Ordering) : Truth :=
  if w.isNull || v.isNull then .unknown else ofBool (order w v == o)

/-- An equality with a value, which is a null test where that value is null. -/
def equal (order : Value → Value → Ordering) (w v : Value) : Truth :=
  if v.isNull then ofBool w.isNull else compared order w v .eq

@[simp] theorem ofBool_eq_true {b : Bool} : ofBool b = .true ↔ b = Bool.true := by
  cases b with
  | true => simp [ofBool]
  | false => simp [ofBool]

@[simp] theorem and_eq_true {a b : Truth} : a.and b = .true ↔ a = .true ∧ b = .true := by
  cases a <;> cases b <;> decide

@[simp] theorem or_eq_true {a b : Truth} : a.or b = .true ↔ a = .true ∨ b = .true := by
  cases a <;> cases b <;> decide

@[simp] theorem true_and (t : Truth) : Truth.true.and t = t := by cases t <;> rfl

@[simp] theorem false_or (t : Truth) : Truth.false.or t = t := by cases t <;> rfl

theorem foldl_and_eq_true {t : Truth} {ts : List Truth} :
    ts.foldl and t = .true ↔ t = .true ∧ ∀ u ∈ ts, u = .true := by
  induction ts generalizing t with
  | nil => simp
  | cons u ts ih => rw [List.foldl_cons, ih, and_eq_true, List.forall_mem_cons, and_assoc]

theorem foldl_or_eq_true {t : Truth} {ts : List Truth} :
    ts.foldl or t = .true ↔ t = .true ∨ ∃ u ∈ ts, u = .true := by
  induction ts generalizing t with
  | nil => simp
  | cons u ts ih => rw [List.foldl_cons, ih, or_eq_true, List.exists_mem_cons_iff, or_assoc]

theorem all_eq_true {ts : List Truth} : all ts = .true ↔ ∀ t ∈ ts, t = .true := by
  simp [all, foldl_and_eq_true]

theorem any_eq_true {ts : List Truth} : any ts = .true ↔ ∃ t ∈ ts, t = .true := by
  simp [any, foldl_or_eq_true]

end Truth

/-! ### Readings -/

/-- What the expressions and predicates of an adapter mean for rows of type `ρ` under the logic of
SQL. They have a meaning in the state in which they were built, and keep it in later ones. -/
structure Reading {σ ε π : Type} (a : PredicateAdapter σ ε π) (ρ : Type) where
  order : Value → Value → Ordering
  /-- The value of a sort property in a row. -/
  keyOf : ρ → String → Value
  Valid : σ → Prop
  Later : σ → σ → Prop
  value : σ → ε → ρ → Option Value
  truth : σ → π → ρ → Option Truth
  refl (s : σ) : Later s s
  trans {s t u : σ} : Later s t → Later t u → Later s u
  truth_later {s t : σ} {p : π} {row : ρ} {b : Truth} : Later s t → truth s p row = some b →
    truth t p row = some b
  expression {s t : σ} {property : String} {e : ε} : Valid s →
    a.expression property s = .ok (e, t) → Valid t ∧ Later s t ∧
      ∀ row, value t e row = some (keyOf row property)
  compare {s t : σ} {o : Order} {e : ε} {v : Value} {p : π} : Valid s → a.compare o e v s = (p, t) →
    Valid t ∧ Later s t ∧ ∀ row w, value s e row = some w →
      truth t p row = some (.compared order w v (if o.isAscending then .gt else .lt))
  equal {s t : σ} {e : ε} {v : Value} {p : π} : Valid s → a.equal e v s = (p, t) →
    Valid t ∧ Later s t ∧ ∀ row w, value s e row = some w →
      truth t p row = some (.equal order w v)
  and {s t : σ} {ps : List π} {p : π} : Valid s → ps ≠ [] → a.and ps s = (p, t) →
    Valid t ∧ Later s t ∧ ∀ row ts, ps.map (truth s · row) = ts.map some →
      truth t p row = some (.all ts)
  or {s t : σ} {ps : List π} {p : π} : Valid s → ps ≠ [] → a.or ps s = (p, t) →
    Valid t ∧ Later s t ∧ ∀ row ts, ps.map (truth s · row) = ts.map some →
      truth t p row = some (.any ts)

/-! ### Drafts -/

namespace Derived

/-- The order that an operator asks for. -/
def orderingOf? (operator : String) : Option Ordering :=
  match operator with
  | "=" => some .eq
  | "<" => some .lt
  | ">" => some .gt
  | _ => none

/-- The truth of a predicate, given the values of expressions. -/
def Predicate.truth? (order : Value → Value → Ordering) (value : Expression → Option Value) :
    Predicate → Option Truth
  | .compare left operator right => do
    return .compared order (← value left) (← value right) (← orderingOf? operator)
  | .is tested "NULL" => do return .ofBool (← value tested).isNull
  | .and left right => do return (← left.truth? order value).and (← right.truth? order value)
  | .or left right => do return (← left.truth? order value).or (← right.truth? order value)
  | .nested inner => inner.truth? order value
  | _ => none

namespace Predicate

variable {order : Value → Value → Ordering} {value value' : Expression → Option Value}

/-- Further values do not change what is true. -/
theorem truth?_mono (h : ∀ e v, value e = some v → value' e = some v) {p : Predicate} {b : Truth}
    (hp : p.truth? order value = some b) : p.truth? order value' = some b := by
  induction p generalizing b with
  | compare left operator right =>
    simp only [truth?, Option.bind_eq_bind, Option.bind_eq_some_iff] at hp ⊢
    obtain ⟨w, hw, v, hv, o, ho, hb⟩ := hp
    exact ⟨w, h _ _ hw, v, h _ _ hv, o, ho, hb⟩
  | is tested test =>
    unfold truth? at hp ⊢
    split at hp
    next heq => cases heq
    next e heq =>
      obtain ⟨rfl, rfl⟩ := is.inj heq
      simp only [Option.bind_eq_bind, Option.bind_eq_some_iff] at hp ⊢
      obtain ⟨w, hw, hb⟩ := hp
      exact ⟨w, h _ _ hw, hb⟩
    all_goals first | cases hp | contradiction
  | and left right ihl ihr =>
    simp only [truth?, Option.bind_eq_bind, Option.bind_eq_some_iff] at hp ⊢
    obtain ⟨b, hb, b', hb', hand⟩ := hp
    exact ⟨b, ihl hb, b', ihr hb', hand⟩
  | or left right ihl ihr =>
    simp only [truth?, Option.bind_eq_bind, Option.bind_eq_some_iff] at hp ⊢
    obtain ⟨b, hb, b', hb', hor⟩ := hp
    exact ⟨b, ihl hb, b', ihr hb', hor⟩
  | nested inner ih => exact ih hp
  | _ => cases hp

theorem truth?_parenthesized (p : Predicate) :
    p.parenthesized.truth? order value = p.truth? order value := by
  cases p <;> rfl

/-- Predicates with an operator between them that stands for a connective. -/
theorem truth?_joinPredicates {op : Predicate → Predicate → Predicate} {f : Truth → Truth → Truth}
    {unit : Truth} (hop : ∀ p q, (op p q).truth? order value =
      do return f (← p.truth? order value) (← q.truth? order value))
    (hunit : ∀ b, f unit b = b) {ps : List Predicate} {bs : List Truth} (hne : ps ≠ [])
    (h : ps.map (·.truth? order value) = bs.map some) (default : Predicate) :
    ((joinPredicates op ps).getD default).truth? order value = some (bs.foldl f unit) := by
  have hfold {ps : List Predicate} : ∀ {p : Predicate} {b : Truth} {bs : List Truth},
      p.truth? order value = some b → ps.map (·.truth? order value) = bs.map some →
        (ps.foldl op p).truth? order value = some (bs.foldl f b) := by
    induction ps with
    | nil =>
      intro p b bs hp h
      obtain rfl := List.map_eq_nil_iff.1 h.symm
      exact hp
    | cons q ps ih =>
      intro p b bs hp h
      obtain ⟨b', bs, rfl, hq, hps⟩ := List.map_eq_cons_iff.1 h.symm
      have hq : q.truth? order value = some b' := hq.symm
      rw [List.foldl_cons, List.foldl_cons]
      refine ih ?_ hps.symm
      rw [hop, hp, hq]
      rfl
  obtain ⟨p, ps, rfl⟩ := List.exists_cons_of_ne_nil hne
  obtain ⟨b, bs, rfl, hp, hps⟩ := List.map_eq_cons_iff.1 h.symm
  rw [List.foldl_cons, hunit]
  exact hfold hp.symm hps.symm

end Predicate

instance (n : Nat) (o : Origin) : Decidable (o.Below n) :=
  match o with
  | .root => .isTrue trivial
  | .join i => inferInstanceAs (Decidable (i < n))

namespace KeysetDraft

variable {ρ : Type}

/-- The value that the draft binds at a position. -/
def boundAt? (d : KeysetDraft) (position : Nat) : Option Value :=
  match (d.bindings.find? (·.identifier == .indexed position)).map ParameterBinding.origin with
  | some (.synthetic v _) => some v
  | _ => none

/-- The value of an expression for a row, given the properties of the row. -/
def valueOf (value : ρ → String → Value) (d : KeysetDraft) (e : Expression) (row : ρ) :
    Option Value :=
  match e with
  | .path p =>
    if p.origin.Below d.query.joins.length then
      some (value row (joined (originPath (joinPaths d.query.joins) p.origin) p.path))
    else none
  | .parameter position => d.boundAt? position
  | .literal _ | .function .. => none

/-- The joins lead from the root, and all positions up to the last are taken. -/
structure Valid (d : KeysetDraft) : Prop where
  joined : WellJoined d.query.joins
  numbered : ∀ b ∈ d.bindings, ∀ n > d.position, b.identifier ≠ .indexed n

/-- The second draft adds joins and bindings to the first. -/
structure Later (d d' : KeysetDraft) : Prop where
  joins : d.query.joins <+: d'.query.joins
  bindings : d.bindings <+: d'.bindings

variable {d d' : KeysetDraft} {value : ρ → String → Value} {row : ρ} {v : Value}

theorem Later.refl (d : KeysetDraft) : d.Later d := ⟨List.prefix_rfl, List.prefix_rfl⟩

theorem Later.trans {d'' : KeysetDraft} (h : d.Later d') (h' : d'.Later d'') : d.Later d'' :=
  ⟨h.joins.trans h'.joins, h.bindings.trans h'.bindings⟩

theorem Later.boundAt? (h : d.Later d') {position : Nat} (hv : d.boundAt? position = some v) :
    d'.boundAt? position = some v := by
  obtain ⟨bs, hbs⟩ := h.bindings
  unfold KeysetDraft.boundAt? at hv ⊢
  rcases hfound : d.bindings.find? (·.identifier == .indexed position) with _ | b
  · rw [hfound] at hv
    cases hv
  · rw [hfound] at hv
    rw [← hbs, List.find?_append, hfound]
    exact hv

theorem Later.valueOf (h : d.Later d') {e : Expression} (hv : d.valueOf value e row = some v) :
    d'.valueOf value e row = some v := by
  cases e with
  | path p =>
    simp only [KeysetDraft.valueOf, Option.ite_none_right_eq_some] at hv ⊢
    obtain ⟨hbelow, hv⟩ := hv
    refine ⟨hbelow.mono h.joins.length_le, ?_⟩
    rwa [originPath_mono (joinPaths_mono h.joins) (by simpa using hbelow)]
  | parameter position => exact h.boundAt? hv
  | literal | function => cases hv

theorem bindValue_valid (hd : d.Valid) (e : Expression) (v : Value) :
    (bindValue e v d).2.Valid := by
  refine ⟨hd.joined, fun b hb n hn => ?_⟩
  have hn : d.position + 1 < n := hn
  rcases List.mem_append.1 hb with hb | hb
  · exact hd.numbered b hb n (Nat.lt_of_succ_lt hn)
  · rw [List.mem_singleton.1 hb, Ne, BindingIdentifier.indexed.injEq]
    exact Nat.ne_of_lt hn

theorem bindValue_later (d : KeysetDraft) (e : Expression) (v : Value) :
    d.Later (bindValue e v d).2 := ⟨List.prefix_rfl, List.prefix_append _ _⟩

/-- Binding a value makes it that of the parameter. -/
theorem valueOf_bindValue (hd : d.Valid) (e : Expression) (v : Value) :
    (bindValue e v d).2.valueOf value (bindValue e v d).1 row = some v := by
  have hfresh : d.bindings.find? (·.identifier == .indexed (d.position + 1)) = none := by
    rw [List.find?_eq_none]
    intro b hb
    simpa using hd.numbered b hb (d.position + 1) (Nat.lt_succ_self _)
  change KeysetDraft.boundAt? ⟨_, _, d.bindings ++ [_]⟩ (d.position + 1) = some v
  simp [KeysetDraft.boundAt?, List.find?_append, hfresh]

/-- A comparison with a value that is bound for it. -/
theorem truth?_compare_bindValue (hd : d.Valid) {order : Value → Value → Ordering} {e : Expression}
    {w : Value} (hw : d.valueOf value e row = some w) (v : Value) {operator : String} {o : Ordering}
    (ho : orderingOf? operator = some o) :
    (Predicate.compare e operator (bindValue e v d).1).truth? order
      ((bindValue e v d).2.valueOf value · row) = some (.compared order w v o) := by
  simp [Predicate.truth?, (bindValue_later d e v).valueOf hw, valueOf_bindValue hd, ho]

theorem truth?_and {order : Value → Value → Ordering} {value : Expression → Option Value}
    {ps : List Predicate} {bs : List Truth} (hne : ps ≠ [])
    (h : ps.map (·.truth? order value) = bs.map some) :
    (and ps).truth? order value = some (.all bs) :=
  Predicate.truth?_joinPredicates (fun _ _ => rfl) Truth.true_and hne h _

theorem truth?_or {order : Value → Value → Ordering} {value : Expression → Option Value}
    {ps : List Predicate} {bs : List Truth} (hne : ps ≠ [])
    (h : ps.map (·.truth? order value) = bs.map some) :
    (or ps).truth? order value = some (.any bs) := by
  refine Predicate.truth?_joinPredicates (fun _ _ => rfl) Truth.false_or (by simpa using hne) ?_ _
  rw [← h, List.map_map]
  exact List.map_congr_left fun p _ => Predicate.truth?_parenthesized p

/-- The meaning of what the adapter of a draft builds, for rows whose properties have the values
that `value` says. -/
def reading (m : Metamodel) (entity : ManagedType) (options : Options)
    (order : Value → Value → Ordering) (value : ρ → String → Value) :
    Reading (adapter m entity options) ρ where
  order := order
  keyOf row property :=
    match PropertyPath.ofSource m entity property with
    | .ok p => value row p.toDotPath
    | .error _ => .null
  Valid := Valid
  Later := Later
  value := valueOf value
  truth d p row := p.truth? order (d.valueOf value · row)
  refl := Later.refl
  trans := Later.trans
  truth_later h := Predicate.truth?_mono fun _ _ => h.valueOf
  expression := by
    intro d d' property e hd h
    obtain ⟨p, path, hp, rfl, hleads, hgrows, hbs, hposition⟩ := keysetExpression_ok hd.joined h
    obtain ⟨hextends, hjoined⟩ := hgrows.spec hd.joined
    refine ⟨⟨hjoined, ?_⟩, ⟨hextends.joins_mono, by rw [hbs]⟩, fun row => ?_⟩
    · rw [hbs, hposition]
      exact hd.numbered
    · rw [hp, valueOf, if_pos hleads.origin, hleads.dotPath]
  compare := by
    intro d d' o e v p hd h
    obtain ⟨rfl, rfl⟩ := Prod.mk.inj h
    refine ⟨bindValue_valid hd e v, bindValue_later d e v,
      fun row w hw => truth?_compare_bindValue hd hw v ?_⟩
    cases o.isAscending with
    | true => rfl
    | false => rfl
  equal := by
    intro d d' e v p hd h
    change equal e v d = (p, d') at h
    unfold equal at h
    unfold Truth.equal
    cases hnull : v.isNull with
    | true =>
      rw [hnull] at h
      obtain ⟨rfl, rfl⟩ := Prod.mk.inj h
      exact ⟨hd, .refl d, fun row w hw => by simp [Predicate.truth?, hw]⟩
    | false =>
      rw [hnull] at h
      obtain ⟨rfl, rfl⟩ := Prod.mk.inj h
      exact ⟨bindValue_valid hd e v, bindValue_later d e v,
        fun row w hw => truth?_compare_bindValue hd hw v rfl⟩
  and := by
    intro d d' ps p hd hne h
    obtain ⟨rfl, rfl⟩ := Prod.mk.inj h
    exact ⟨hd, .refl d, fun row bs hbs => truth?_and hne hbs⟩
  or := by
    intro d d' ps p hd hne h
    obtain ⟨rfl, rfl⟩ := Prod.mk.inj h
    exact ⟨hd, .refl d, fun row bs hbs => truth?_or hne hbs⟩

end KeysetDraft

end Derived

end Jpql
