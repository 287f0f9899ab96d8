import Jpql.Derived.Condition
import Jpql.Proofs.Derived.JoinPath
import Jpql.Proofs.MethodName
import Mathlib.Data.List.Forall2

/-! What the conditions of a method name become. A condition becomes a predicate on an expression
that leads along its property; it takes as many bindings as its operator has arguments, at the next
positions, and compares with the parameters at these positions. All conditions of a name thus take
the bindable parameters in order. -/

namespace Jpql.Derived

open MethodName
open Step (bind_ok ite_bind_ok pure_ok get_ok set_ok lift_ok throw_ok mapM_ok Runs)

/-! ### Queries that grow -/

/-- The second query is the first after following paths of attributes. -/
inductive Grows (m : Metamodel) (q : SelectQuery) : SelectQuery → Prop
  | refl : Grows m q q
  | follow {q' : SelectQuery} {p : PropertyPath} (h : Grows m q q')
      (hp : ∀ s ∈ p.segments, PropertyPath.IsAttribute m s) (forSelection optimize : Bool) :
      Grows m q (resolvePath q' p forSelection optimize).2

variable {m : Metamodel}

theorem Grows.trans {q q' q'' : SelectQuery} (h : Grows m q q') (h' : Grows m q' q'') :
    Grows m q q'' := by
  induction h' with
  | refl => exact h
  | follow _ hp forSelection optimize ih => exact .follow ih hp forSelection optimize

theorem Grows.spec {q q' : SelectQuery} (h : Grows m q q') (hq : WellJoined q.joins) :
    q.Extends q' ∧ WellJoined q'.joins := by
  induction h with
  | refl => exact ⟨.refl q, hq⟩
  | follow _ hp forSelection optimize ih =>
    obtain ⟨hext, hwell, _⟩ := resolvePath_leads ih.2 (fun s hs => (hp s hs).1) forSelection optimize
    exact ⟨ih.1.trans hext, hwell⟩

/-! ### The predicate of a condition -/

/-- What the operator of a condition expects of its operands. -/
def expected (part : Part) : Expected :=
  match part.operator with
  | .in | .notIn => .collection
  | .like | .notLike => .text
  | .startingWith | .endingWith | .containing | .notContaining =>
    if part.property.isCollection then .declared else .text
  | _ => .declared

/-- An expression as a condition compares it, which may ignore case. -/
def folded (options : Options) (part : Part) (e : Expression) : Expression :=
  if part.ignoreCase != .never && part.property.leafType.isString then
    .function options.caseTemplate.function e
  else e

/-- The predicate on an expression whose operands have the positions behind `k`. An equality with
null is a null test. -/
def predicateOn? (options : Options) (source : OperandSource) (part : Part) (e : PathExpression)
    (k : Nat) : Option Predicate :=
  let path := Expression.path e
  let operand := Expression.parameter (k + 1)
  let same := folded options part
  match part.operator with
  | .between => some (.between path operand (.parameter (k + 2)))
  | .after | .greaterThan => some (.compare path ">" operand)
  | .greaterThanEqual => some (.compare path ">=" operand)
  | .before | .lessThan => some (.compare path "<" operand)
  | .lessThanEqual => some (.compare path "<=" operand)
  | .isNull => some (.is path "NULL")
  | .isNotNull => some (.is path "NOT NULL")
  | .in => some (.inList (same path) false operand)
  | .notIn => some (.inList (same path) true operand)
  | .startingWith | .endingWith | .containing =>
    some (if part.property.isCollection then .memberOf operand false path
      else .like (same path) false (same operand) source.escape.value)
  | .notContaining =>
    some (if part.property.isCollection then .memberOf operand true path
      else .like (same path) true (same operand) source.escape.value)
  | .like => some (.like (same path) false (same operand) source.escape.value)
  | .notLike => some (.like (same path) true (same operand) source.escape.value)
  | .true => some (.compare path "=" (.literal "TRUE"))
  | .false => some (.compare path "=" (.literal "FALSE"))
  | .simpleProperty =>
    some (if source.isNullAt k then .is path "NULL" else .compare (same path) "=" (same operand))
  | .negatingSimpleProperty =>
    some (if source.isNullAt k then .is path "NOT NULL"
      else .compare (same path) "!=" (same operand))
  | .isEmpty => some (.is path "EMPTY")
  | .isNotEmpty => some (.is path "NOT EMPTY")
  | .near | .within | .regex | .exists => none

theorem predicateOn?_equality {options : Options} {source : OperandSource} {part : Part}
    {e : PathExpression} {k : Nat}
    (h : part.operator = .simpleProperty ∨ part.operator = .negatingSimpleProperty) :
    predicateOn? options source part e k = some (if source.isNullAt k then
        .is (.path e) (if part.operator == .negatingSimpleProperty then "NOT NULL" else "NULL")
      else .compare (folded options part (.path e))
        (if part.operator == .negatingSimpleProperty then "!=" else "=")
        (folded options part (.parameter (k + 1)))) := by
  rcases h with h | h <;> simp [predicateOn?, h]

/-! ### Single steps -/

theorem ignoringCase_ok {options : Options} {part : Part} {e e' : Expression}
    (h : ignoringCase options part e = .ok e') : e' = folded options part e := by
  unfold ignoringCase at h
  unfold folded
  extract_lets property same at h
  cases hcase : part.ignoreCase with
  | never =>
    simp only [hcase] at h
    cases h
    rfl
  | always =>
    simp only [hcase] at h
    split at h
    next hs =>
      obtain rfl : same = e' := by injection h
      simp only [property] at hs
      simp [hs, same]
    next => cases h
  | whenPossible =>
    simp only [hcase] at h
    cases h
    simp [property, same]

/-- The binding of the operand of a condition that consumes a parameter. -/
def bindingOf (source : OperandSource) (part : Part) (k : Nat) (p : MethodParameter) :
    ParameterBinding :=
  let isEquality := part.operator == .simpleProperty || part.operator == .negatingSimpleProperty
  { identifier := .indexed (k + 1)
    origin := .argument (match p.name with
      | some name => .namedAndIndexed name (k + 1)
      | none => .indexed (k + 1))
    kind := .operand {
      operator := if isEquality && source.isNullAt k then .isNull else part.operator
      valueType := OperandSource.typeFor (p.valueType?.getD .string) (expected part)
      ignoreCase := part.ignoreCase == .always
      noWildcards := part.property.isCollection
      escape := source.escape } }

/-- The binding at position `k`, counted from zero, is the one of the operand there. -/
def Binds (source : OperandSource) (part : Part) (k : Nat) (b : ParameterBinding) : Prop :=
  ∃ p, source.parameters.bindableAt? k = some p ∧ b = bindingOf source part k p

theorem bindingAt_ok {source : OperandSource} {part : Part} {k : Nat} {b : ParameterBinding}
    (h : source.bindingAt part (expected part) k = .ok b) : Binds source part k b := by
  unfold OperandSource.bindingAt at h
  split at h
  next => cases h
  next p hp =>
    cases h
    exact ⟨p, hp, rfl⟩

variable {source : OperandSource} {part : Part} {d d' : Draft}

theorem drawBinding_ok {b : ParameterBinding}
    (h : drawBinding source part (expected part) d = .ok (b, d')) :
    Binds source part d.bindings.length b ∧ d' = { d with bindings := d.bindings ++ [b] } := by
  unfold drawBinding at h
  simp only [bind_ok, get_ok, set_ok, lift_ok, pure_ok] at h
  obtain ⟨_, _, ⟨rfl, rfl⟩, _, _, ⟨hb, rfl⟩, _, _, rfl, rfl, rfl⟩ := h
  exact ⟨bindingAt_ok hb, rfl⟩

theorem placeholder_ok {b : ParameterBinding} {k : Nat} (hb : Binds source part k b)
    {e : Expression} (h : placeholder b d = .ok (e, d')) : e = .parameter (k + 1) ∧ d' = d := by
  obtain ⟨p, _, rfl⟩ := hb
  unfold placeholder at h
  simp only [bind_ok, lift_ok, pure_ok] at h
  obtain ⟨_, _, ⟨hposition, rfl⟩, rfl, rfl⟩ := h
  cases hposition
  exact ⟨rfl, rfl⟩

theorem drawOperand_ok {e : Expression}
    (h : drawOperand source part (expected part) d = .ok (e, d')) :
    e = .parameter (d.bindings.length + 1) ∧ ∃ b, Binds source part d.bindings.length b ∧
      d' = { d with bindings := d.bindings ++ [b] } := by
  unfold drawOperand at h
  obtain ⟨b, d₁, hb, h⟩ := bind_ok.1 h
  obtain ⟨hbinds, rfl⟩ := drawBinding_ok hb
  obtain ⟨rfl, rfl⟩ := placeholder_ok hbinds h
  exact ⟨rfl, b, hbinds, rfl⟩

theorem resolve_ok {options : Options} {p : PropertyPath} {forSelection : Bool} {e : Expression}
    (h : resolve options p forSelection d = .ok (e, d')) :
    e = .path (resolvePath d.query p forSelection options.useForeignKey).1 ∧
      d' = { d with query := (resolvePath d.query p forSelection options.useForeignKey).2 } := by
  unfold resolve at h
  simp only [bind_ok, get_ok, set_ok, pure_ok] at h
  obtain ⟨_, _, ⟨rfl, rfl⟩, _, _, rfl, rfl, rfl⟩ := h
  exact ⟨rfl, rfl⟩

/-- The path that a condition compares; building it draws no operand. -/
theorem conditionPath_ok {options : Options} {direct : Bool} {path : Expression}
    (h : (if direct then pure (.path (implicitPath part.property))
      else resolve options part.property false : Build Expression) d = .ok (path, d')) :
    ∃ e, path = .path e ∧ d'.bindings = d.bindings := by
  split at h
  next =>
    obtain ⟨rfl, rfl⟩ := pure_ok.1 h
    exact ⟨_, rfl, rfl⟩
  next =>
    obtain ⟨rfl, rfl⟩ := resolve_ok h
    exact ⟨_, rfl, rfl⟩

theorem comparison_ok {path : Expression} {operator : String} {p : Predicate}
    (hexpected : expected part = .declared)
    (h : comparison source part path operator d = .ok (p, d')) :
    p = .compare path operator (.parameter (d.bindings.length + 1)) ∧
      ∃ b, Binds source part d.bindings.length b ∧
        d' = { d with bindings := d.bindings ++ [b] } := by
  unfold comparison at h
  rw [← hexpected] at h
  obtain ⟨e, d₁, he, h⟩ := bind_ok.1 h
  obtain ⟨rfl, hb⟩ := drawOperand_ok he
  obtain ⟨rfl, rfl⟩ := pure_ok.1 h
  exact ⟨rfl, hb⟩

theorem pattern_ok {options : Options} {same : Expression} {p : Predicate}
    (hexpected : expected part = .text) (h : pattern options source part same d = .ok (p, d')) :
    p = .like same (part.operator == .notLike || part.operator == .notContaining)
        (folded options part (.parameter (d.bindings.length + 1))) source.escape.value ∧
      ∃ b, Binds source part d.bindings.length b ∧
        d' = { d with bindings := d.bindings ++ [b] } := by
  unfold pattern at h
  rw [← hexpected] at h
  obtain ⟨e, d₁, he, h⟩ := bind_ok.1 h
  obtain ⟨rfl, hb⟩ := drawOperand_ok he
  obtain ⟨operand, d₂, hoperand, h⟩ := bind_ok.1 h
  obtain ⟨hfold, rfl⟩ := lift_ok.1 hoperand
  obtain rfl := ignoringCase_ok hfold
  obtain ⟨rfl, rfl⟩ := pure_ok.1 h
  exact ⟨rfl, hb⟩

/-- A binding is a null test if an equality consumes a null. -/
theorem Binds.isNullTest {k : Nat} {b : ParameterBinding} (h : Binds source part k b) :
    b.isNullTest = ((part.operator == .simpleProperty || part.operator == .negatingSimpleProperty) &&
      source.isNullAt k || part.operator == .isNull) := by
  obtain ⟨p, _, rfl⟩ := h
  simp only [ParameterBinding.isNullTest, bindingOf, Operand.isNullTest]
  split <;> simp_all

theorem equality_ok {options : Options} {path same : Expression} {p : Predicate}
    (hoperator : part.operator = .simpleProperty ∨ part.operator = .negatingSimpleProperty)
    (h : equality options source part path same d = .ok (p, d')) :
    p = (if source.isNullAt d.bindings.length then
          .is path (if part.operator == .negatingSimpleProperty then "NOT NULL" else "NULL")
        else .compare same (if part.operator == .negatingSimpleProperty then "!=" else "=")
          (folded options part (.parameter (d.bindings.length + 1)))) ∧
      ∃ b, Binds source part d.bindings.length b ∧
        d' = { d with bindings := d.bindings ++ [b] } := by
  have hexpected : expected part = .declared := by
    unfold expected
    rcases hoperator with hop | hop <;> rw [hop]
  unfold equality at h
  rw [← hexpected] at h
  obtain ⟨b, d₁, hb, h⟩ := bind_ok.1 h
  obtain ⟨hbinds, rfl⟩ := drawBinding_ok hb
  have htest : b.isNullTest = source.isNullAt d.bindings.length := by
    rw [hbinds.isNullTest]
    rcases hoperator with hop | hop <;> simp [hop]
  simp only [htest] at h
  split at h
  next hnull =>
    obtain ⟨rfl, rfl⟩ := pure_ok.1 h
    exact ⟨by rw [if_pos hnull], b, hbinds, rfl⟩
  next hnull =>
    obtain ⟨operand, d₂, hoperand, h⟩ := bind_ok.1 h
    obtain ⟨rfl, rfl⟩ := placeholder_ok hbinds hoperand
    obtain ⟨compared, d₃, hcompared, h⟩ := bind_ok.1 h
    obtain ⟨hfold, rfl⟩ := lift_ok.1 hcompared
    obtain rfl := ignoringCase_ok hfold
    obtain ⟨rfl, rfl⟩ := pure_ok.1 h
    exact ⟨by rw [if_neg hnull], b, hbinds, rfl⟩

/-! ### A whole condition -/

/-- The bindings of operands from position `k` on, each given by the condition that consumes it. -/
def BindsAll (source : OperandSource) (k : Nat) (parts : List Part) (bs : List ParameterBinding) :
    Prop :=
  List.Forall₂ (fun x b => Binds source x.1 x.2 b) (parts.zipIdx k) bs

theorem BindsAll.append {k : Nat} {parts parts' : List Part} {bs bs' : List ParameterBinding}
    (h : BindsAll source k parts bs) (h' : BindsAll source (k + parts.length) parts' bs') :
    BindsAll source k (parts ++ parts') (bs ++ bs') := by
  rw [BindsAll, List.zipIdx_append, Nat.add_comm]
  rw [BindsAll, Nat.add_comm] at h'
  exact List.rel_append h h'

theorem BindsAll.exists_append {k : Nat} {parts parts' : List Part} {bs : List ParameterBinding}
    (h : BindsAll source k (parts ++ parts') bs) :
    ∃ bs₁ bs₂, bs = bs₁ ++ bs₂ ∧ BindsAll source k parts bs₁ ∧
      BindsAll source (k + parts.length) parts' bs₂ := by
  induction parts generalizing k bs with
  | nil => exact ⟨[], bs, rfl, .nil, h⟩
  | cons part parts ih =>
    obtain _ | ⟨hb, hrest⟩ := h
    obtain ⟨bs₁, bs₂, rfl, h₁, h₂⟩ := ih hrest
    refine ⟨_ :: bs₁, bs₂, rfl, .cons hb h₁, ?_⟩
    rwa [List.length_cons, Nat.add_comm parts.length, ← Nat.add_assoc]

theorem BindsAll.length_eq {k : Nat} {parts : List Part} {bs : List ParameterBinding}
    (h : BindsAll source k parts bs) : bs.length = parts.length := by
  simpa using (List.Forall₂.length_eq h).symm

/-- What building a condition does to a draft. -/
structure Drafts (m : Metamodel) (options : Options) (source : OperandSource) (part : Part)
    (d : Draft) (p : Predicate) (d' : Draft) : Prop where
  grows : Grows m d.query d'.query
  predicate : ∃ e, d'.query.Leads e part.property ∧
    predicateOn? options source part e d.bindings.length = some p
  bindings : ∃ bs, d'.bindings = d.bindings ++ bs ∧
    BindsAll source d.bindings.length (List.replicate part.arguments part) bs

theorem condition_drafts {options : Options} {p : Predicate}
    (hm : ∀ s ∈ part.property.segments, PropertyPath.IsAttribute m s)
    (hd : WellJoined d.query.joins) (h : condition options source part d = .ok (p, d')) :
    Drafts m options source part d p d' := by
  unfold condition at h
  obtain ⟨path, d₁, hpath, h⟩ := ite_bind_ok.1 h
  have hleads : d₁.bindings = d.bindings ∧ Grows m d.query d₁.query ∧
      ∃ e, path = .path e ∧ d₁.query.Leads e part.property := by
    split at hpath
    next =>
      obtain ⟨rfl, rfl⟩ := pure_ok.1 hpath
      exact ⟨rfl, .refl, _, rfl, SelectQuery.leads_implicitPath _ _⟩
    next =>
      obtain ⟨rfl, rfl⟩ := resolve_ok hpath
      exact ⟨rfl, .follow .refl hm _ _, _, rfl,
        (resolvePath_leads hd (fun s hs => (hm s hs).1) _ _).2.2⟩
  obtain ⟨hbindings, hgrows, e, rfl, hleads⟩ := hleads
  obtain ⟨same, d₂, hsame, h⟩ := bind_ok.1 h
  obtain ⟨hfold, rfl⟩ := lift_ok.1 hsame
  obtain rfl := ignoringCase_ok hfold
  have drawn {bs : List ParameterBinding} {k : Nat} (hk : part.operator.arguments = k)
      (hd' : d' = { d₁ with bindings := d₁.bindings ++ bs })
      (hpredicate : predicateOn? options source part e d₁.bindings.length = some p)
      (hbs : BindsAll source d₁.bindings.length (List.replicate k part) bs) :
      Drafts m options source part d p d' := by
    subst hd' hk
    rw [hbindings] at hpredicate hbs
    exact ⟨hgrows, ⟨e, hleads, hpredicate⟩, bs, by rw [hbindings], hbs⟩
  have none (hk : part.operator.arguments = 0) (hd' : d₁ = d')
      (hpredicate : predicateOn? options source part e d₁.bindings.length = some p) :
      Drafts m options source part d p d' := by
    subst hd'
    exact drawn hk (by simp) hpredicate .nil
  have one {b : ParameterBinding} (hk : part.operator.arguments = 1)
      (hb : Binds source part d₁.bindings.length b)
      (hd' : d' = { d₁ with bindings := d₁.bindings ++ [b] })
      (hpredicate : predicateOn? options source part e d₁.bindings.length = some p) :
      Drafts m options source part d p d' := drawn hk hd' hpredicate (.cons hb .nil)
  have member (hcollection : part.property.isCollection = true) {negated : Bool}
      (hk : part.operator.arguments = 1) (hexpected : expected part = .declared)
      (h : (do
        let value ← drawOperand source part .declared
        return Predicate.memberOf value negated (.path e) : Build Predicate) d₁ = .ok (p, d'))
      (hpredicate : predicateOn? options source part e d₁.bindings.length =
        some (.memberOf (.parameter (d₁.bindings.length + 1)) negated (.path e))) :
      Drafts m options source part d p d' := by
    rw [← hexpected] at h
    obtain ⟨value, d₂, hvalue, h⟩ := bind_ok.1 h
    obtain ⟨rfl, b, hb, rfl⟩ := drawOperand_ok hvalue
    obtain ⟨rfl, rfl⟩ := pure_ok.1 h
    exact one hk hb rfl hpredicate
  cases hop : part.operator with
  | between =>
    simp only [hop] at h
    have hexpected : expected part = .declared := by rw [expected, hop]
    rw [← hexpected] at h
    obtain ⟨lower, d₂, hlower, h⟩ := bind_ok.1 h
    obtain ⟨rfl, b, hb, rfl⟩ := drawOperand_ok hlower
    obtain ⟨upper, d₃, hupper, h⟩ := bind_ok.1 h
    obtain ⟨rfl, b', hb', rfl⟩ := drawOperand_ok hupper
    obtain ⟨rfl, rfl⟩ := pure_ok.1 h
    refine @drawn [b, b'] 2 (by rw [hop]; rfl) (by simp) ?_ ?_
    · simp [predicateOn?, hop]
    · exact .cons hb (.cons (by simpa using hb') .nil)
  | after | greaterThan | greaterThanEqual | before | lessThan | lessThanEqual =>
    simp only [hop] at h
    obtain ⟨rfl, b, hb, hd'⟩ := comparison_ok (by rw [expected, hop]) h
    exact one (by rw [hop]; rfl) hb hd' (by simp only [predicateOn?, hop])
  | isNull | isNotNull | true | false =>
    simp only [hop] at h
    obtain ⟨rfl, hd'⟩ := pure_ok.1 h
    exact none (by rw [hop]; rfl) hd' (by simp only [predicateOn?, hop])
  | «in» | notIn =>
    simp only [hop] at h
    have hexpected : expected part = .collection := by rw [expected, hop]
    rw [← hexpected] at h
    obtain ⟨values, d₂, hvalues, h⟩ := bind_ok.1 h
    obtain ⟨rfl, b, hb, hd'⟩ := drawOperand_ok hvalues
    obtain ⟨rfl, rfl⟩ := pure_ok.1 h
    exact one (by rw [hop]; rfl) hb hd' (by simp only [predicateOn?, hop]; rfl)
  | startingWith | endingWith | containing | notContaining =>
    simp only [hop] at h
    split at h
    next hc =>
      have hexpected : expected part = .declared := by simp [expected, hop, hc]
      exact member hc (by rw [hop]; rfl) hexpected h (by simp [predicateOn?, hop, hc])
    next hc =>
      obtain ⟨rfl, b, hb, hd'⟩ := pattern_ok (by simp [expected, hop, hc]) h
      exact one (by rw [hop]; rfl) hb hd' (by simp [predicateOn?, hop, hc])
  | like | notLike =>
    simp only [hop] at h
    obtain ⟨rfl, b, hb, hd'⟩ := pattern_ok (by simp [expected, hop]) h
    exact one (by rw [hop]; rfl) hb hd' (by simp [predicateOn?, hop])
  | simpleProperty | negatingSimpleProperty =>
    simp only [hop] at h
    obtain ⟨rfl, b, hb, hd'⟩ := equality_ok (by simp [hop]) h
    exact one (by rw [hop]; rfl) hb hd' (by simp [predicateOn?, hop])
  | isEmpty | isNotEmpty =>
    simp only [hop] at h
    split at h
    next =>
      obtain ⟨rfl, hd'⟩ := pure_ok.1 h
      exact none (by rw [hop]; rfl) hd' (by simp [predicateOn?, hop])
    next => exact (throw_ok.1 h).elim
  | near | within | regex | «exists» =>
    simp only [hop] at h
    exact (throw_ok.1 h).elim

/-! ### All conditions -/

/-- The predicates of conditions that consume the operands behind `k`, on expressions in `q`. -/
inductive Conditions (options : Options) (source : OperandSource) (q : SelectQuery) :
    Nat → List Part → List Predicate → Prop
  | nil (k : Nat) : Conditions options source q k [] []
  | cons {k : Nat} {part : Part} {e : PathExpression} {p : Predicate} {parts : List Part}
      {ps : List Predicate} (hleads : q.Leads e part.property)
      (hp : predicateOn? options source part e k = some p)
      (hps : Conditions options source q (k + part.arguments) parts ps) :
      Conditions options source q k (part :: parts) (p :: ps)

variable {options : Options}

theorem Conditions.mono {q q' : SelectQuery} {k : Nat} {parts : List Part} {ps : List Predicate}
    (h : Conditions options source q k parts ps) (hq : q.joins <+: q'.joins) :
    Conditions options source q' k parts ps := by
  induction h with
  | nil k => exact .nil k
  | cons hleads hp _ ih => exact .cons (hleads.mono hq) hp ih

/-- The conditions that consume operands, each as often as it does. -/
def operandsOf (parts : List Part) : List Part := parts.flatMap fun p => List.replicate p.arguments p

@[simp] theorem operandsOf_nil : operandsOf [] = [] := rfl

@[simp] theorem operandsOf_cons (part : Part) (parts : List Part) :
    operandsOf (part :: parts) = List.replicate part.arguments part ++ operandsOf parts := rfl

@[simp] theorem operandsOf_append (parts parts' : List Part) :
    operandsOf (parts ++ parts') = operandsOf parts ++ operandsOf parts' := List.flatMap_append

theorem Conditions.append {q : SelectQuery} {k : Nat} {parts parts' : List Part}
    {ps ps' : List Predicate} (h : Conditions options source q k parts ps)
    (h' : Conditions options source q (k + (operandsOf parts).length) parts' ps') :
    Conditions options source q k (parts ++ parts') (ps ++ ps') := by
  induction h with
  | nil k => simpa using h'
  | cons hleads hp _ ih =>
    refine .cons hleads hp (ih ?_)
    simpa [Nat.add_assoc] using h'

theorem Conditions.length_eq {q : SelectQuery} {k : Nat} {parts : List Part} {ps : List Predicate}
    (h : Conditions options source q k parts ps) : ps.length = parts.length := by
  induction h with
  | nil k => rfl
  | cons _ _ _ ih => simp [ih]

/-- What building conditions does to a draft. -/
structure DraftsAll (m : Metamodel) (options : Options) (source : OperandSource)
    (parts : List Part) (d : Draft) (ps : List Predicate) (d' : Draft) : Prop where
  grows : Grows m d.query d'.query
  conditions : Conditions options source d'.query d.bindings.length parts ps
  bindings : ∃ bs, d'.bindings = d.bindings ++ bs ∧
    BindsAll source d.bindings.length (operandsOf parts) bs

theorem DraftsAll.append {parts parts' : List Part} {d d' d'' : Draft} {ps ps' : List Predicate}
    (hd : WellJoined d.query.joins) (h : DraftsAll m options source parts d ps d')
    (h' : DraftsAll m options source parts' d' ps' d'') :
    DraftsAll m options source (parts ++ parts') d (ps ++ ps') d'' := by
  obtain ⟨bs, hbs, hall⟩ := h.bindings
  obtain ⟨bs', hbs', hall'⟩ := h'.bindings
  have hlength : d'.bindings.length = d.bindings.length + (operandsOf parts).length := by
    rw [hbs, List.length_append, hall.length_eq]
  have hwell := (h.grows.spec hd).2
  refine ⟨h.grows.trans h'.grows, ?_, bs ++ bs', by rw [hbs', hbs, List.append_assoc], ?_⟩
  · exact (h.conditions.mono (h'.grows.spec hwell).1.joins_mono).append (hlength ▸ h'.conditions)
  · rw [operandsOf_append]
    exact hall.append (hlength ▸ hall')

theorem Drafts.all {d d' : Draft} {p : Predicate} (h : Drafts m options source part d p d') :
    DraftsAll m options source [part] d [p] d' := by
  obtain ⟨e, hleads, hp⟩ := h.predicate
  exact ⟨h.grows, .cons hleads hp (.nil _), by simpa using h.bindings⟩

theorem conditions_draft {parts : List Part} {ps : List Predicate} {d d' : Draft}
    (hm : OnAttributes m parts) (hd : WellJoined d.query.joins)
    (h : Runs (condition options source) d parts ps d') :
    DraftsAll m options source parts d ps d' := by
  induction h with
  | nil d => exact ⟨.refl, .nil _, [], by simp, .nil⟩
  | cons hstep _ ih =>
    have hfirst := condition_drafts (hm _ (by simp)) hd hstep
    have hrest := ih (fun part hp => hm part (by simp [hp])) (hfirst.grows.spec hd).2
    exact hfirst.all.append hd hrest

theorem alternatives_draft {alternatives : List (List Part)} {os : List (Option Predicate)}
    {d d' : Draft} (hm : OnAttributes m alternatives.flatten) (hd : WellJoined d.query.joins)
    (h : Runs (conjunction options source) d alternatives os d') :
    ∃ pss : List (List Predicate), os = pss.map (joinPredicates .and) ∧
      pss.map List.length = alternatives.map List.length ∧
      DraftsAll m options source alternatives.flatten d pss.flatten d' := by
  induction h with
  | nil d => exact ⟨[], rfl, rfl, .refl, .nil _, [], by simp, .nil⟩
  | @cons d d₁ d' parts alternatives o os hstep _ ih =>
    unfold conjunction at hstep
    obtain ⟨ps, d₂, hps, hpure⟩ := bind_ok.1 hstep
    obtain ⟨rfl, rfl⟩ := pure_ok.1 hpure
    have hfirst := conditions_draft (fun part hp => hm part (by simp [hp])) hd (mapM_ok.1 hps)
    obtain ⟨pss, rfl, hlengths, hrest⟩ :=
      ih (fun part hp => hm part (by rw [List.flatten_cons]; exact List.mem_append_right _ hp))
        (hfirst.grows.spec hd).2
    refine ⟨ps :: pss, rfl, ?_, hfirst.append hd hrest⟩
    rw [List.map_cons, List.map_cons, hlengths, hfirst.conditions.length_eq]

/-- The predicate of a method name: alternatives, each of the predicates of its conditions. -/
theorem disjunction_drafts {alternatives : List (List Part)} {o : Option Predicate} {d d' : Draft}
    (hm : OnAttributes m alternatives.flatten) (hd : WellJoined d.query.joins)
    (h : disjunction options source alternatives d = .ok (o, d')) :
    ∃ pss : List (List Predicate),
      o = joinPredicates .or ((pss.map (joinPredicates .and)).filterMap id) ∧
      pss.map List.length = alternatives.map List.length ∧
      DraftsAll m options source alternatives.flatten d pss.flatten d' := by
  unfold disjunction at h
  obtain ⟨os, d₁, hos, h⟩ := bind_ok.1 h
  obtain ⟨rfl, rfl⟩ := pure_ok.1 h
  obtain ⟨pss, rfl, hlengths, hall⟩ := alternatives_draft hm hd (mapM_ok.1 hos)
  exact ⟨pss, rfl, hlengths, hall⟩

end Jpql.Derived
