import Jpql.Proofs.Binder
import Jpql.Proofs.Derived.Numbering
import Jpql.Proofs.Derived.Prepared

/-! What binding a prepared call sets. The binding of an operand takes the argument of the parameter at
its own position, or the first one of the same name; that of a comparison with the cursor takes the
value of the cursor, and null tests take nothing. -/

namespace Jpql

open Derived MethodName
open Step (result_bind_ok result_pure_ok)

namespace Derived

theorem BindsAll.getElem? {source : OperandSource} {k i : Nat} {parts : List Part} {b : ParameterBinding}
    {bs : List ParameterBinding} (h : BindsAll source k parts bs) (hi : bs[i]? = some b) :
    ∃ part, parts[i]? = some part ∧ Binds source part (k + i) b := by
  induction parts generalizing k i bs with
  | nil =>
    cases h
    simp at hi
  | cons part parts ih =>
    obtain _ | ⟨hb, hrest⟩ := h
    rcases i with _ | i
    · obtain rfl := Option.some.inj hi
      exact ⟨part, rfl, hb⟩
    · obtain ⟨part', hpart, hbinds⟩ := ih hrest hi
      refine ⟨part', hpart, ?_⟩
      rwa [Nat.add_assoc, Nat.add_comm 1] at hbinds

theorem CursorAtoms.synthetic {m : Metamodel} {entity : ManagedType} {cursor : Cursor} {k : Nat}
    {query : SelectQuery} {comparisons : List (Order × Bool)} {ps : List Predicate}
    {ks : List ParameterBinding}
    (h : CursorAtoms m entity cursor query k comparisons ps ks) :
    ∀ b ∈ ks, ∃ v source, b.origin = .synthetic v source := by
  induction h with
  | nil k => simp
  | null _ _ _ _ ih => exact ih
  | value _ _ _ _ _ ih => exact List.forall_mem_cons.2 ⟨⟨_, _, rfl⟩, ih⟩

theorem CursorAtoms.isNullTest {m : Metamodel} {entity : ManagedType} {cursor : Cursor} {k : Nat}
    {query : SelectQuery} {comparisons : List (Order × Bool)} {ps : List Predicate}
    {ks : List ParameterBinding}
    (h : CursorAtoms m entity cursor query k comparisons ps ks) : ∀ b ∈ ks, b.isNullTest = false := by
  induction h with
  | nil k => simp
  | null _ _ _ _ ih => exact ih
  | value _ _ _ _ _ ih => exact List.forall_mem_cons.2 ⟨rfl, ih⟩

theorem map_fst_assignments (ps : MethodParameters) (a : Arguments) {k : Nat}
    {bs : List ParameterBinding} (h : Numbered k bs) :
    (assignments ps a k bs).map Prod.fst = boundPositions bs := by
  induction h with
  | nil k => rfl
  | cons hb _ ih =>
    rw [assignments_cons, boundPositions_cons hb]
    split
    · exact ih
    · rw [List.map_cons, ih]
      rfl

end Derived

/-- The index of the argument that the bindable parameter with index `k` stands for; a name stands
for the first parameter that has it. -/
def MethodParameters.argumentIndex (ps : MethodParameters) (k : Nat) : Nat :=
  match (ps.bindableAt? k).bind (·.name) with
  | some name => ps.bindable.findIdx (·.name == some name)
  | none => k

/-- With distinct names each parameter stands for its own argument. -/
theorem MethodParameters.argumentIndex_eq {ps : MethodParameters}
    (hnames : (ps.bindable.filterMap (·.name)).Nodup) (k : Nat) : ps.argumentIndex k = k := by
  unfold argumentIndex
  split
  next name hname =>
    obtain ⟨p, hp, hname⟩ := Option.bind_eq_some_iff.1 hname
    obtain ⟨hlt, hget⟩ := List.getElem?_eq_some_iff.1 (show ps.bindable[k]? = some p from hp)
    rw [List.findIdx_eq hlt]
    refine ⟨by simp [hget, hname], fun j hj => ?_⟩
    -- A parameter of the same name before this one would break that names are distinct.
    have hdistinct := List.pairwise_iff_getElem.1 (List.pairwise_filterMap.1 hnames) j k
      (by omega) hlt hj
    rw [hget] at hdistinct
    simpa using fun hsame => hdistinct name hsame name hname rfl
  next => rfl

namespace Derived

/-- The parameter that the binding of an operand stands for. -/
theorem parameterOf?_binds {source : OperandSource} {part : Part} {k : Nat} {b : ParameterBinding}
    (h : Binds source part k b) : ∃ i p, b.origin = .argument i ∧
      ParameterSetter.parameterOf? source.parameters i =
        .ok (some (p, source.parameters.argumentIndex k)) := by
  obtain ⟨p, hp, rfl⟩ := h
  have hk : source.parameters.bindable[k]? = some p := hp
  obtain ⟨hlt, hget⟩ := List.getElem?_eq_some_iff.1 hk
  rcases hname : p.name with _ | name
  · have hindex : source.parameters.argumentIndex k = k := by
      rw [MethodParameters.argumentIndex, hp, Option.bind_some, hname]
    refine ⟨.indexed (k + 1), p, by simp only [bindingOf, hname], ?_⟩
    have hcount : ¬ source.parameters.bindable.length < k + 1 := by omega
    simp [ParameterSetter.parameterOf?, hcount, hk, hindex]
  · have hindex : source.parameters.argumentIndex k =
        source.parameters.bindable.findIdx (·.name == some name) := by
      rw [MethodParameters.argumentIndex, hp, Option.bind_some, hname]
    have hfound : source.parameters.bindable.findIdx (·.name == some name) <
        source.parameters.bindable.length :=
      List.findIdx_lt_length_of_exists ⟨p, List.mem_of_getElem? hk, by simp [hname]⟩
    refine ⟨.namedAndIndexed name (k + 1), source.parameters.bindable.get ⟨_, hfound⟩,
      by simp only [bindingOf, hname], ?_⟩
    rw [hindex]
    change Except.ok _ = _
    congr 1
    rw [List.find?_eq_some_iff_getElem]
    have hzip : source.parameters.bindable.findIdx (·.name == some name) <
        source.parameters.bindable.zipIdx.length := by rwa [List.length_zipIdx]
    refine ⟨?_, _, hzip, by simp, fun j hj => ?_⟩
    · simpa using @List.findIdx_getElem _ _ _ hfound
    · simpa using List.not_of_lt_findIdx hj

theorem Binds.takesValue {source : OperandSource} {part : Part} {k : Nat} {b : ParameterBinding}
    (h : Binds source part k b) : TakesValue source.parameters b := by
  obtain ⟨i, p, ho, hp⟩ := parameterOf?_binds h
  exact .argument ho hp

theorem BindsAll.takesValue {source : OperandSource} {k : Nat} {parts : List Part}
    {bs : List ParameterBinding} (h : BindsAll source k parts bs) :
    ∀ b ∈ bs, TakesValue source.parameters b := by
  intro b hb
  obtain ⟨i, hi⟩ := List.mem_iff_getElem?.1 hb
  obtain ⟨part, -, hbinds⟩ := h.getElem? hi
  exact hbinds.takesValue

theorem evaluator_of {ps : MethodParameters} {bs : List ParameterBinding} {binder : ParameterBinder}
    (h : ParameterBinder.of ps bs = .ok binder) : binder.evaluator = none := by
  obtain ⟨setters, -, h⟩ := result_bind_ok.1 h
  rw [← Except.ok.inj h]

section Binder

variable {σ ρ : Type} {provider : Provider σ ρ} {ps : MethodParameters}
  {bs : List ParameterBinding} {binder : ParameterBinder}

/-- Binding leaves alone whatever no single value changes. -/
theorem binder_keeps {κ : Type} {kept : σ → κ}
    (hset : ∀ p v t s, kept (provider.set p v t s).2 = kept s)
    (h : ParameterBinder.of ps bs = .ok binder) (a : Arguments) (s : σ) :
    kept (binder.bind provider a .strict s).2 = kept s := by
  rw [ParameterBinder.bind, evaluator_of h]
  exact bindAll_keeps hset _ .strict _ s

/-- Binding a created query succeeds if it declares all positions that are bound, and every binding
that is no null test then sets its position. -/
theorem binder_binds (h : ParameterBinder.of ps bs = .ok binder) (hnumbered : Numbered 0 bs)
    (hvalues : ∀ b ∈ bs, TakesValue ps b) (a : Arguments)
    {held : σ → QueryParameter → Option Value} {text : String} {tuple : Bool} {declared : List Nat}
    (htakes : provider.Takes held text tuple declared)
    (hdeclared : ∀ n ∈ boundPositions bs, n ∈ declared) :
    ∃ s s', provider.create text false tuple = .ok s ∧
      binder.bind provider a .strict s = (.ok (), s') ∧
      ∀ k b, bs[k]? = some b → b.isNullTest = false →
        held s' (.positional (k + 1)) = some (b.boundValue ps a) := by
  obtain ⟨s, hcreate, hparameters⟩ := htakes.create
  obtain ⟨setters, hsetters, hbinder⟩ := result_bind_ok.1 h
  have hassigns : Assigns a setters (assignments ps a 0 bs) := by
    refine setters_assign (fun i b hi => ⟨hvalues b (List.mem_of_getElem? hi), ?_⟩) hsetters
    simpa using hnumbered.getElem? hi
  have hfirsts := map_fst_assignments ps a hnumbered
  have hdistinct : ((assignments ps a 0 bs).map Prod.fst).Nodup := by
    rw [hfirsts]
    exact hnumbered.ascending.imp fun hlt => Nat.ne_of_lt hlt
  have hall : ∀ x ∈ assignments ps a 0 bs, .positional x.1 ∈ provider.parameters s := by
    intro x hx
    refine (hparameters _).2 ⟨x.1, hdeclared _ ?_, rfl⟩
    rw [← hfirsts]
    exact List.mem_map_of_mem hx
  obtain ⟨s', hbind, hsets, -⟩ := bindAll_assigns htakes hassigns hall hdistinct .strict
  refine ⟨s, s', hcreate, ?_, fun k b hk hb => ?_⟩
  · rw [← result_pure_ok.1 hbinder]
    exact hbind
  · have hmem := @mem_assignments a ps 0 k b bs hk hb
    rw [Nat.zero_add] at hmem
    exact hsets _ hmem

end Binder

end Derived

/-- The query with the bounds of the call, once all values are bound. -/
def PreparedQuery.restricted {σ ρ : Type} (p : PreparedQuery) (provider : Provider σ ρ) (s : σ) :
    σ :=
  let begun := match p.firstResult with
    | some n => provider.setFirstResult n s
    | none => s
  match p.maxResults with
  | some n => provider.setMaxResults n begun
  | none => begun

theorem PreparedQuery.create_eq {σ ρ : Type} {p : PreparedQuery} {provider : Provider σ ρ}
    {a : Arguments} {s s' : σ}
    (hcreate : provider.create p.rendered.query false p.rendered.tuple = .ok s)
    (hbind : p.rendered.binder.bind provider a .strict s = (.ok (), s')) :
    p.create provider a = .ok (p.restricted provider s') := by
  simp only [create, hcreate, bind, Except.bind, Except.mapError, hbind]
  rfl

namespace DerivedQuery

variable {q : DerivedQuery} {a : Arguments} {p : PreparedQuery} {query : SelectQuery}
  {pss rows : List (List Predicate)} {bs ks : List ParameterBinding} {sort : Sorting}

/-- How the operand of a condition is prepared. -/
def operandOf (q : DerivedQuery) (part : Part) (p : MethodParameter) : Operand :=
  { operator := part.operator
    valueType := OperandSource.typeFor (p.valueType?.getD .string) (expected part)
    ignoreCase := part.ignoreCase == .always
    noWildcards := part.property.isCollection
    escape := q.options.escape }

theorem boundValue_of_binds {part : Part} {k : Nat} {b : ParameterBinding}
    (h : Binds (q.creator (some a) false).source part k b) (hnull : b.isNullTest = false) :
    ∃ p, q.parameters.bindableAt? k = some p ∧ b.boundValue q.parameters a =
      (q.operandOf part p).prepare ((a.value? (q.parameters.argumentIndex k)).getD .null) := by
  have htest := h.isNullTest
  obtain ⟨i, p', ho, hindex⟩ := parameterOf?_binds h
  obtain ⟨p, hp, rfl⟩ := h
  refine ⟨p, hp, ?_⟩
  rw [hnull] at htest
  have hplain : ((part.operator == .simpleProperty || part.operator == .negatingSimpleProperty) &&
      (q.creator (some a) false).source.isNullAt k) = false := by
    rw [eq_comm, Bool.or_eq_false_iff] at htest
    exact htest.1
  have hparameters : (q.creator (some a) false).source.parameters = q.parameters := rfl
  rw [hparameters] at hindex
  simp only [ParameterBinding.boundValue, ho, hindex]
  simp only [bindingOf, ParameterBinding.prepare, BindingKind.prepare, hplain]
  rfl

theorem Describes.numbered (h : Describes q a sort query pss rows bs ks) : Numbered 0 (bs ++ ks) :=
  h.operands.numbered.append (by simpa using h.cursor.numbered)

/-- The parameters that a predicate mentions are those that are bound. -/
theorem Describes.parameters (h : Describes q a sort query pss rows bs ks) :
    parametersOf query.predicate = boundPositions (bs ++ ks) := by
  rw [h.predicate, parametersOf_together, parametersOf_alternatives, parametersOf_cursorPredicate,
    h.conditions.parameters h.operands, h.cursor.parameters, boundPositions_append]

/-- Binding a prepared query sets the operands of the conditions and the values of the cursor. -/
theorem Prepares.bind_ok (h : Prepares q a p query pss rows bs ks) {σ ρ : Type}
    {provider : Provider σ ρ} {held : σ → QueryParameter → Option Value} {declared : List Nat}
    (htakes : provider.Takes held p.rendered.query p.rendered.tuple declared)
    (hdeclared : ∀ n ∈ boundPositions (bs ++ ks), n ∈ declared) :
    ∃ s s', provider.create p.rendered.query false p.rendered.tuple = .ok s ∧
      p.rendered.binder.bind provider a .strict s = (.ok (), s') ∧
      ∀ k b, (bs ++ ks)[k]? = some b → b.isNullTest = false →
        held s' (.positional (k + 1)) = some (b.boundValue q.parameters a) := by
  refine binder_binds h.binder h.describes.numbered (fun b hb => ?_) a htakes hdeclared
  rcases List.mem_append.1 hb with hb | hb
  · exact h.describes.operands.takesValue b hb
  · obtain ⟨v, source, ho⟩ := h.describes.cursor.synthetic b hb
    exact .synthetic ho

end DerivedQuery

end Jpql
