import Jpql.Proofs.Derived.Meaning
import Mathlib.Data.List.Flatten

/-! A database as queries see it, and the rows that a method name selects. A prepared query selects
a row if the conditions of the method name select it and it lies behind the cursor. -/

namespace Jpql

open Derived MethodName

/-- The rows are of type `ρ`; expressions and predicates are on properties of the root entity, and
predicates have no connectives. -/
structure Database (ρ : Type) where
  value : ρ → Expression → Value
  /-- Whether a condition holds for a row, given the values of parameters. -/
  holds : ρ → (Nat → Option Value) → Predicate → Bool
  compare : Value → Value → Ordering
  holds_congr : ∀ (row : ρ) (values values' : Nat → Option Value) (p : Predicate),
    (∀ n ∈ p.parameters, values n = values' n) → holds row values p = holds row values' p
  /-- Values that are not null are compared as the operator says. -/
  holds_compare : ∀ (row : ρ) (values : Nat → Option Value) (path operator : String) (n : Nat)
    (v : Value) (o : Ordering), values n = some v → v.isNull = false →
    (value row (property path)).isNull = false →
    (operator, o) ∈ [("=", Ordering.eq), ("<", Ordering.lt), (">", Ordering.gt)] →
    holds row values (.compare (property path) operator (.parameter n)) =
      (compare (value row (property path)) v == o)

variable {ρ : Type}

/-- The first of several comparisons that tells two rows apart. -/
def lexicographic : List (ρ → ρ → Ordering) → ρ → ρ → Ordering
  | [], _, _ => .eq
  | c :: cs, r, s => (c r s).then (lexicographic cs r s)

/-- A comparison of keys in a direction. -/
def Direction.compare (d : Direction) (compare : Value → Value → Ordering) (v w : Value) :
    Ordering :=
  match d with
  | .asc => compare v w
  | .desc => compare w v

/-- How the values of sort keys order two rows. -/
def Database.keyOrder (db : Database ρ) (keyOf : ρ → String → Value) (orders : List Order) :
    ρ → ρ → Ordering :=
  lexicographic <| orders.map fun o r s =>
    o.direction.compare db.compare (keyOf r o.property) (keyOf s o.property)

namespace Derived.SelectQuery

/-- Whether a query selects a row, given the values of its parameters. -/
def selects (q : SelectQuery) (db : Database ρ) (values : Nat → Option Value) (row : ρ) : Bool :=
  holdsOrNone (fun p => db.holds row values (p.rooted (joinPaths q.joins))) q.predicate

/-- How a query orders two rows. -/
def compareRows (q : SelectQuery) (db : Database ρ) : ρ → ρ → Ordering :=
  lexicographic <| q.orders.map fun item r s =>
    let e := item.expression.rooted (joinPaths q.joins)
    item.order.direction.compare db.compare (db.value r e) (db.value s e)

end Derived.SelectQuery

namespace DerivedQuery

/-! ### The conditions of a method name -/

/-- What the parameter at a position stands for: the argument that the operand there takes. -/
def valueAt (q : DerivedQuery) (a : Arguments) (n : Nat) : Option Value :=
  match (operands q.method)[n - 1]?, q.parameters.bindableAt? (n - 1) with
  | some part, some p => some ((q.operandOf part p).prepare
      ((a.value? (q.parameters.argumentIndex (n - 1))).getD .null))
  | _, _ => none

/-- Whether a row fulfils a condition that consumes the arguments from index `k` on. -/
def fulfils (q : DerivedQuery) (a : Arguments) (db : Database ρ) (row : ρ) (k : Nat)
    (part : Part) : Bool :=
  (predicateOn? q.options (q.creator (some a) false).source part (implicitPath part.property) k).any
    fun p => db.holds row (q.valueAt a) (p.rooted [])

/-- Which conditions a row fulfils. -/
def facts (q : DerivedQuery) (a : Arguments) (db : Database ρ) (row : ρ) (k : Nat) :
    List Part → List Bool
  | [] => []
  | part :: parts => q.fulfils a db row k part :: facts q a db row (k + part.arguments) parts

/-- Which conditions of each alternative a row fulfils. -/
def factsOf (q : DerivedQuery) (a : Arguments) (db : Database ρ) (row : ρ) (k : Nat) :
    List (List Part) → List (List Bool)
  | [] => []
  | parts :: alternatives =>
    q.facts a db row k parts :: factsOf q a db row (k + (operandsOf parts).length) alternatives

/-- Whether the method name selects a row: it has no conditions, or the row fulfils all conditions
of an alternative. -/
def matchesRow (q : DerivedQuery) (a : Arguments) (db : Database ρ) (row : ρ) : Bool :=
  q.method.alternatives.isEmpty || anyHolds (q.factsOf a db row 0 q.method.alternatives)

variable {q : DerivedQuery} {a : Arguments} {db : Database ρ} {row : ρ} {query : SelectQuery}

theorem facts_append (k : Nat) (parts parts' : List Part) :
    q.facts a db row k (parts ++ parts') =
      q.facts a db row k parts ++ q.facts a db row (k + (operandsOf parts).length) parts' := by
  induction parts generalizing k with
  | nil => simp [facts]
  | cons part parts ih => simp [facts, ih, Nat.add_assoc]

theorem flatten_factsOf (k : Nat) (alternatives : List (List Part)) :
    (q.factsOf a db row k alternatives).flatten = q.facts a db row k alternatives.flatten := by
  induction alternatives generalizing k with
  | nil => rfl
  | cons parts alternatives ih => rw [factsOf, List.flatten_cons, ih, List.flatten_cons, facts_append]

theorem length_facts (k : Nat) (parts : List Part) :
    (q.facts a db row k parts).length = parts.length := by
  induction parts generalizing k with
  | nil => rfl
  | cons part parts ih => simp [facts, ih]

theorem length_factsOf (k : Nat) (alternatives : List (List Part)) :
    (q.factsOf a db row k alternatives).map List.length = alternatives.map List.length := by
  induction alternatives generalizing k with
  | nil => rfl
  | cons parts alternatives ih => simp [factsOf, ih, length_facts]

/-- The predicates of conditions hold for the rows that fulfil the conditions. -/
theorem holds_conditions {values : Nat → Option Value} {k : Nat} {parts : List Part}
    {ps : List Predicate} {bs : List ParameterBinding}
    (h : Conditions q.options (q.creator (some a) false).source query k parts ps)
    (hbs : BindsAll (q.creator (some a) false).source k (operandsOf parts) bs)
    (hvalues : ∀ n ∈ boundPositions bs, values n = q.valueAt a n) :
    ps.map (fun p => db.holds row values (p.rooted (joinPaths query.joins))) =
      q.facts a db row k parts := by
  induction h generalizing bs with
  | nil k => rfl
  | @cons k part e p parts ps hleads hp _ ih =>
    obtain ⟨own, rest, rfl, hown, hrest⟩ := hbs.exists_append
    rw [List.length_replicate] at hrest
    rw [boundPositions_append] at hvalues
    have hsame : db.holds row values (p.rooted (joinPaths query.joins)) =
        db.holds row (q.valueAt a) (p.rooted (joinPaths query.joins)) := by
      refine db.holds_congr _ _ _ _ fun n hn => hvalues n (List.mem_append_left _ ?_)
      rwa [parameters_rooted, parameters_predicateOn? hp hown] at hn
    have hfulfils : q.fulfils a db row k part =
        db.holds row (q.valueAt a) (p.rooted (joinPaths query.joins)) := by
      have hrooted := rooted_predicateOn? hleads hp
      obtain ⟨p', hp', hsame⟩ := Option.map_eq_some_iff.1 hrooted
      rw [fulfils, hp', ← hsame]
      rfl
    rw [List.map_cons, facts, hsame, hfulfils,
      ih hrest fun n hn => hvalues n (List.mem_append_right _ hn)]

/-- What the parameters of conditions are bound to are the arguments that the operands take. -/
theorem valueAt_eq {bs : List ParameterBinding} {values : Nat → Option Value}
    (h : BindsAll (q.creator (some a) false).source 0 (operands q.method) bs)
    (hvalues : ∀ k b, bs[k]? = some b → b.isNullTest = false →
      values (k + 1) = some (b.boundValue q.parameters a)) :
    ∀ n ∈ boundPositions bs, values n = q.valueAt a n := by
  intro n hn
  obtain ⟨b, hb, hnull, hposition⟩ := mem_boundPositions.1 hn
  obtain ⟨i, hi⟩ := List.mem_iff_getElem?.1 hb
  obtain ⟨part, hpart, hbinds⟩ := h.getElem? hi
  rw [Nat.zero_add] at hbinds
  obtain rfl : i + 1 = n := by
    rw [ParameterBinding.position?, hbinds.identifier] at hposition
    exact Option.some.inj hposition
  obtain ⟨p, hp, hbound⟩ := boundValue_of_binds hbinds hnull
  rw [hvalues i b hi hnull, hbound, valueAt, Nat.add_sub_cancel, hpart, hp]

end DerivedQuery

end Jpql
