import Jpql.Proofs.Derived.Bound
import Jpql.Proofs.Derived.Unmarked
import Mathlib

/-! Text, bindings and binder of a derived query agree. The markers of the text ascend, they are the
positions that are bound, and binding sets each to the argument that its condition consumes or to
the value of the cursor that its comparison is about. -/

namespace Jpql

open Derived MethodName
open Step (result_bind_ok result_pure_ok)
open Rendering (renderInto spaceEnded)
open Text (Closed markersIn)

namespace Derived

/-! ### Single conditions and comparisons -/

/-- The index of the first argument that a condition consumes. -/
def firstArgument (parts : List Part) (i : Nat) : Nat := (operandsOf (parts.take i)).length

variable {options : Options} {source : OperandSource} {query : SelectQuery}

theorem Conditions.getElem? {k i : Nat} {parts : List Part} {ps : List Predicate} {p : Predicate}
    {bs : List ParameterBinding} (h : Conditions options source query k parts ps)
    (hbs : BindsAll source k (operandsOf parts) bs) (hi : ps[i]? = some p) :
    ∃ part e before own after, parts[i]? = some part ∧ query.Leads e part.property ∧
      predicateOn? options source part e (k + firstArgument parts i) = some p ∧
      bs = before ++ own ++ after ∧ before.length = firstArgument parts i ∧
      BindsAll source (k + firstArgument parts i) (List.replicate part.arguments part) own := by
  induction h generalizing i bs with
  | nil k => simp at hi
  | @cons k part e p' parts ps hleads hp _ ih =>
    obtain ⟨own, rest, rfl, hown, hrest⟩ := hbs.exists_append
    rcases i with _ | i
    · obtain rfl := Option.some.inj hi
      exact ⟨part, e, [], own, rest, rfl, hleads, hp, by simp, rfl, hown⟩
    · rw [List.length_replicate] at hrest
      obtain ⟨part', e', before, own', after, hpart, hleads', hp', rfl, hlength, hown'⟩ :=
        ih hrest hi
      have hfirst : firstArgument (part :: parts) (i + 1) =
          part.arguments + firstArgument parts i := by simp [firstArgument]
      refine ⟨part', e', own ++ before, own', after, hpart, hleads', ?_, by simp, ?_, ?_⟩
      · rwa [hfirst, ← Nat.add_assoc]
      · rw [List.length_append, hown.length_eq, List.length_replicate, hlength, hfirst]
      · rwa [hfirst, ← Nat.add_assoc]

theorem CursorAtoms.getElem? {m : Metamodel} {entity : ManagedType} {cursor : Cursor} {k j : Nat}
    {comparisons : List (Order × Bool)} {ps : List Predicate} {p : Predicate}
    {ks : List ParameterBinding} (h : CursorAtoms m entity cursor query k comparisons ps ks)
    (hj : ps[j]? = some p) :
    ∃ o isEqual path e v, comparisons[j]? = some (o, isEqual) ∧
      PropertyPath.ofSource m entity o.property = .ok path ∧ query.Leads e path ∧
      cursor.get? o.property = some v ∧
      (v = .null ∧ p = .is (.path e) "NULL" ∨
        ∃ i, ks[i]? = some ⟨.indexed (k + i + 1), .synthetic v e.name, .basic⟩ ∧
          p = .compare (.path e) (cursorOperator o isEqual) (.parameter (k + i + 1))) := by
  induction h generalizing j with
  | nil k => simp at hj
  | @null k o path e comparisons ps ks hv hpath he _ ih =>
    rcases j with _ | j
    · obtain rfl := Option.some.inj hj
      exact ⟨o, true, path, e, .null, rfl, hpath, he, hv, .inl ⟨rfl, rfl⟩⟩
    · exact ih hj
  | @value k o isEqual v path e comparisons ps ks hv hnull hpath he _ ih =>
    rcases j with _ | j
    · obtain rfl := Option.some.inj hj
      exact ⟨o, isEqual, path, e, v, rfl, hpath, he, hv, .inr ⟨0, rfl, rfl⟩⟩
    · obtain ⟨o', isEqual', path', e', v', hat, hpath', he', hv', hp⟩ := ih hj
      refine ⟨o', isEqual', path', e', v', hat, hpath', he', hv', hp.imp_right ?_⟩
      rintro ⟨i, hi, rfl⟩
      have hposition : k + 1 + i + 1 = k + (i + 1) + 1 := by omega
      rw [hposition] at hi ⊢
      exact ⟨i + 1, hi, rfl⟩

end Derived

namespace DerivedQuery

/-- The marker `n` stands in the condition that consumes the argument with index `n - 1`, and is set
to that argument as the condition prepares it. -/
def SetsArgument (q : DerivedQuery) (a : Arguments) (atoms : List Predicate) (n : Nat)
    (value : Option Value) : Prop :=
  ∃ (i k : Nat) (part : Part) (atom : Predicate), n = k + 1 ∧ q.method.parts[i]? = some part ∧
    atoms[i]? = some atom ∧ n ∈ atom.parameters ∧ firstArgument q.method.parts i ≤ k ∧
    k < firstArgument q.method.parts i + part.arguments ∧
    ∃ p v, q.parameters.bindableAt? k = some p ∧ a.value? k = some v ∧
      value = some ((q.operandOf part p).prepare v)

/-- The marker `n` stands in a comparison with the cursor, and is set to the cursor's value of the
property that is compared. -/
def SetsKey (q : DerivedQuery) (a : Arguments) (sort : Sorting) (query : SelectQuery)
    (atoms : List Predicate) (n : Nat) (value : Option Value) : Prop :=
  ∃ (j : Nat) (o : Order) (isEqual : Bool) (path : PropertyPath) (e : PathExpression),
    (Derived.rowsOf a.cursor sort).flatten[j]? = some (o, isEqual) ∧
    PropertyPath.ofSource q.metamodel q.entity o.property = .ok path ∧ query.Leads e path ∧
    atoms[j]? = some (.compare (.path e) (cursorOperator o isEqual) (.parameter n)) ∧
    ∃ v, a.cursor.get? o.property = some v ∧ value = some v

/-- Text, bindings and binder of a prepared call agree. -/
structure Agrees (q : DerivedQuery) (a : Arguments) (p : PreparedQuery) (query : SelectQuery)
    (pss rows : List (List Predicate)) (bs ks : List ParameterBinding) : Prop where
  prepares : Prepares q a p query pss rows bs ks
  /-- Each marker stands in the text once, behind those with smaller numbers. -/
  ascending : (markersIn p.rendered.query).Pairwise (· < ·)
  positions : ∀ n, n ∈ markersIn p.rendered.query ↔
    ∃ b ∈ p.rendered.bindings, b.isNullTest = false ∧ b.position? = some n
  /-- An equality reads as a null test exactly when it consumes a null. -/
  nullTests : ∀ i part atom, q.method.parts[i]? = some part → pss.flatten[i]? = some atom →
    part.operator = .simpleProperty ∨ part.operator = .negatingSimpleProperty →
    ∃ e, query.Leads e part.property ∧ ∀ before, before ≠ "" → Closed before.toList →
      (renderInto before (query.predicateRendering atom) =
          spaceEnded (before ++ query.pathText e) ++
            (if part.operator == .negatingSimpleProperty then "IS NOT NULL" else "IS NULL") ↔
        a.value? (firstArgument q.method.parts i) = some .null)
  /-- Creating the query succeeds and sets every marker. -/
  binds : ∀ {σ ρ : Type} (provider : Provider σ ρ) (held : σ → QueryParameter → Option Value),
    provider.Takes held p.rendered.query p.rendered.tuple (markersIn p.rendered.query) →
    ∃ s, p.create provider a = .ok s ∧
      ∀ n ∈ markersIn p.rendered.query,
        SetsArgument q a pss.flatten n (held s (.positional n)) ∨
          SetsKey q a p.sort query rows.flatten n (held s (.positional n))

variable {q : DerivedQuery} {a : Arguments} {p : PreparedQuery} {query : SelectQuery}
  {pss rows : List (List Predicate)} {bs ks : List ParameterBinding} {sort : Sorting}

/-! ### Markers -/

theorem Describes.sortsOn (h : Describes q a sort query pss rows bs ks) :
    ∀ item ∈ query.orders, ∃ o, SortsOn (q.creator (some a) false) query o item := by
  intro item hitem
  have horders := h.orders
  split at horders
  · simp [horders] at hitem
  · obtain ⟨hlength, hall⟩ := List.forall₂_iff_get.1 horders
    obtain ⟨i, hi, rfl⟩ := List.mem_iff_getElem.1 hitem
    exact ⟨_, hall i (hlength ▸ hi) hi⟩

theorem Describes.unmarked (h : Describes q a sort query pss rows bs ks)
    (hm : q.metamodel.Unmarked) (hentity : q.entity ∈ q.metamodel.types)
    (hparts : OnAttributes q.metamodel q.method.parts) : query.Unmarked where
  entityName := by
    rw [h.entityName]
    exact hm.entityNames _ hentity
  aliasName := by
    rw [h.aliasName]
    rcases hinitial : initial? q.entity.simpleName.toList with _ | name
    · decide
    · exact (isAlias_of_initial? hinitial).unmarked
  selection := h.selection.unmarked hm
  joins := h.joined.unmarked hm
  predicate p hp := by
    rw [h.predicate] at hp
    exact unmarked_together
      (fun _ hp => unmarked_alternatives (h.conditions.unmarked hm hparts) hp)
      (fun _ hp => unmarked_cursorPredicate (h.cursor.unmarked hm) hp) hp
  orders item hitem := by
    obtain ⟨o, hsorts⟩ := h.sortsOn item hitem
    exact hsorts.unmarked hm

/-- The markers of the text are the positions that are bound. -/
theorem Prepares.markersIn_query (h : Prepares q a p query pss rows bs ks)
    (hunmarked : query.Unmarked) : markersIn p.rendered.query = boundPositions (bs ++ ks) := by
  have hpredicate := h.describes.parameters
  have horders : query.orders.flatMap (·.expression.parameters) = [] := by
    refine List.flatMap_eq_nil_iff.2 fun item hitem => ?_
    obtain ⟨o, hsorts⟩ := h.describes.sortsOn item hitem
    exact hsorts.parameters
  rw [h.text, query.markersIn_render hunmarked, horders, List.append_nil]
  exact hpredicate

theorem Prepares.positions (h : Prepares q a p query pss rows bs ks) (hunmarked : query.Unmarked)
    (n : Nat) : n ∈ markersIn p.rendered.query ↔
      ∃ b ∈ p.rendered.bindings, b.isNullTest = false ∧ b.position? = some n := by
  rw [h.markersIn_query hunmarked, h.bindings]
  exact mem_boundPositions

/-! ### Null tests -/

theorem renderInto_is (query : SelectQuery) (e : PathExpression) (test : String) {before : String}
    (h : before ≠ "") : renderInto before (query.predicateRendering (.is (.path e) test)) =
      spaceEnded (before ++ query.pathText e) ++ "IS " ++ test := by
  have hfirst : (Rendering.text (query.pathText e)).toTokens ≠ [] := by simp [Rendering.text]
  have hnext : ∀ s ∈ [Rendering.word "IS", Rendering.word test], s.toTokens ≠ [] := by
    simp [Rendering.word]
  have hbefore : renderInto before (Rendering.text (query.pathText e)) ≠ "" :=
    Rendering.renderInto_ne_empty h _
  have hspace : ∀ s : String, spaceEnded (s ++ "IS") = s ++ "IS " := by
    intro s
    have hlast : Rendering.endsWithSpace (s ++ "IS") = false := by
      simp [Rendering.endsWithSpace]
    rw [spaceEnded, hlast, String.append_assoc]
    rfl
  change renderInto before (Rendering.spaced [Rendering.text (query.pathText e),
    Rendering.word "IS", Rendering.word test]) = _
  rw [Rendering.renderInto_spaced hfirst hnext hbefore]
  simp [hspace]

theorem isNullAt_iff {k : Nat} :
    (q.creator (some a) false).source.isNullAt k = true ↔ a.value? k = some .null := by
  change (a.value? k).any (·.isNull) = true ↔ _
  rcases a.value? k with _ | v
  · simp
  · cases v <;> simp [Value.isNull]

theorem Describes.nullTests (h : Describes q a sort query pss rows bs ks) (hq : query.Unmarked)
    (hm : q.metamodel.Unmarked) (hparts : OnAttributes q.metamodel q.method.parts) {i : Nat}
    {part : Part} {atom : Predicate} (hpart : q.method.parts[i]? = some part)
    (hatom : pss.flatten[i]? = some atom)
    (hequality : part.operator = .simpleProperty ∨ part.operator = .negatingSimpleProperty) :
    ∃ e, query.Leads e part.property ∧ ∀ before, before ≠ "" → Closed before.toList →
      (renderInto before (query.predicateRendering atom) =
          spaceEnded (before ++ query.pathText e) ++
            (if part.operator == .negatingSimpleProperty then "IS NOT NULL" else "IS NULL") ↔
        a.value? (firstArgument q.method.parts i) = some .null) := by
  obtain ⟨part', e, _, _, _, hpart', hleads, hp, -⟩ := h.conditions.getElem? h.operands hatom
  obtain rfl : part = part' := Option.some.inj (hpart.symm.trans hpart')
  refine ⟨e, hleads, fun before hne hclosed => ?_⟩
  have hpath := (hleads.unmarked hm (hparts part (List.mem_of_getElem? hpart))).1
  rw [← isNullAt_iff, ← Nat.zero_add (firstArgument _ _)]
  rw [predicateOn?_equality hequality] at hp
  obtain rfl := Option.some.inj hp
  split
  next hnull =>
    refine ⟨fun _ => hnull, fun _ => ?_⟩
    rw [renderInto_is query e _ hne, String.append_assoc]
    split <;> rfl
  next hnull =>
    -- The text has a marker, which a null test has not.
    refine ⟨fun htext => ?_, fun h => absurd h hnull⟩
    have hmarkers := congrArg markersIn htext
    have hcompare : (Predicate.compare (folded q.options part (.path e))
        (if part.operator == .negatingSimpleProperty then "!=" else "=")
        (folded q.options part (.parameter (0 + firstArgument q.method.parts i + 1)))).Unmarked :=
      ⟨unmarked_folded hpath, by split <;> decide, unmarked_folded trivial⟩
    have htest : markersIn (if part.operator == .negatingSimpleProperty then "IS NOT NULL"
        else "IS NULL") = [] := by
      split <;> decide
    rw [(SelectQuery.marks_predicate hq hcompare).adds before hne hclosed,
      Text.markersIn_append (.inl (Rendering.closed_spaceEnded _)), htest,
      Rendering.markersIn_spaceEnded, Text.markersIn_append (.inl hclosed),
      SelectQuery.markersIn_pathText hq hpath] at hmarkers
    simp [Predicate.parameters, Expression.parameters] at hmarkers

/-! ### Agreement -/

theorem Prepares.setsArgument (h : Prepares q a p query pss rows bs ks)
    (hnames : (q.parameters.bindable.filterMap (·.name)).Nodup)
    (hvalues : a.values.length = q.parameters.bindable.length) {value : Nat → Option Value}
    (hsets : ∀ k b, (bs ++ ks)[k]? = some b → b.isNullTest = false →
      value (k + 1) = some (b.boundValue q.parameters a))
    {n : Nat} (hn : n ∈ pss.flatten.flatMap Predicate.parameters) :
    SetsArgument q a pss.flatten n (value n) := by
  obtain ⟨atom, hatom, hn⟩ := List.mem_flatMap.1 hn
  obtain ⟨i, hi⟩ := List.mem_iff_getElem?.1 hatom
  obtain ⟨part, e, before, own, after, hpart, -, hp, rfl, hbefore, hown⟩ :=
    h.describes.conditions.getElem? h.describes.operands hi
  rw [Nat.zero_add] at hown
  have hbound := hn
  rw [parameters_predicateOn? hp (by rwa [Nat.zero_add])] at hbound
  obtain ⟨b, hb, hnull, hposition⟩ := mem_boundPositions.1 hbound
  obtain ⟨j, hj⟩ := List.mem_iff_getElem?.1 hb
  obtain ⟨part', hpart', hbinds⟩ := hown.getElem? hj
  obtain ⟨hlt, rfl⟩ : j < part.arguments ∧ part = part' := by
    simpa [List.getElem?_replicate] using hpart'
  have hat : (before ++ own ++ after ++ ks)[firstArgument q.method.parts i + j]? = some b := by
    have hj' := (List.getElem?_eq_some_iff.1 hj).1
    rw [List.append_assoc, List.append_assoc, List.getElem?_append_right (by omega), hbefore,
      Nat.add_sub_cancel_left, List.getElem?_append_left hj', hj]
  obtain rfl : firstArgument q.method.parts i + j + 1 = n := by
    rw [ParameterBinding.position?, hbinds.identifier] at hposition
    exact Option.some.inj hposition
  obtain ⟨param, hparam, hprepared⟩ := boundValue_of_binds hbinds hnull
  obtain ⟨v, hv⟩ : ∃ v, a.value? (firstArgument q.method.parts i + j) = some v := by
    have hlt := (List.getElem?_eq_some_iff.1 hparam).1
    rw [Arguments.value?, List.getElem?_eq_getElem (by rw [hvalues]; exact hlt)]
    exact ⟨_, rfl⟩
  refine ⟨i, _, part, atom, rfl, hpart, hi, hn, by omega, by omega, param, v, hparam, hv, ?_⟩
  rw [hsets _ _ hat hnull, hprepared, MethodParameters.argumentIndex_eq hnames, hv]
  rfl

theorem Prepares.setsKey (h : Prepares q a p query pss rows bs ks) {value : Nat → Option Value}
    (hsets : ∀ k b, (bs ++ ks)[k]? = some b → b.isNullTest = false →
      value (k + 1) = some (b.boundValue q.parameters a))
    {n : Nat} (hn : n ∈ rows.flatten.flatMap Predicate.parameters) :
    SetsKey q a p.sort query rows.flatten n (value n) := by
  obtain ⟨atom, hatom, hn⟩ := List.mem_flatMap.1 hn
  obtain ⟨j, hj⟩ := List.mem_iff_getElem?.1 hatom
  obtain ⟨o, isEqual, path, e, v, hcomparison, hpath, hleads, hv, hnull | ⟨i, hi, hp⟩⟩ :=
    h.describes.cursor.getElem? hj
  · obtain ⟨-, rfl⟩ := hnull
    simp [Predicate.parameters, Expression.parameters] at hn
  · subst hp
    obtain rfl : n = bs.length + i + 1 := by
      simpa [Predicate.parameters, Expression.parameters] using hn
    refine ⟨j, o, isEqual, path, e, hcomparison, hpath, hleads, hj, v, hv, ?_⟩
    have hat : (bs ++ ks)[bs.length + i]? = some ⟨.indexed (bs.length + i + 1),
        .synthetic v e.name, .basic⟩ := by
      rw [List.getElem?_append_right (by omega), Nat.add_sub_cancel_left, hi]
    exact hsets _ _ hat rfl

/-- The bounds of a call leave the values that were set as they are. -/
theorem held_restricted {σ ρ : Type} {provider : Provider σ ρ}
    {held : σ → QueryParameter → Option Value} {text : String} {tuple : Bool} {declared : List Nat}
    (htakes : provider.Takes held text tuple declared) (p : PreparedQuery) (s : σ)
    (x : QueryParameter) : held (p.restricted provider s) x = held s x := by
  unfold PreparedQuery.restricted
  extract_lets begun
  have hbegun : held begun x = held s x := by
    simp only [begun]
    split
    · exact htakes.setFirstResult _ _ _
    · rfl
  rw [← hbegun]
  split
  · exact htakes.setMaxResults _ _ _
  · rfl

/-- Whatever a derived query prepares agrees with its method name. -/
theorem prepared_agrees {name entityName : String} {m : Metamodel} {ps : MethodParameters}
    (hq : DerivedQuery.create name entityName m ps = .ok q) (hm : m.Unmarked)
    (hnames : (ps.bindable.filterMap (·.name)).Nodup) (calls : List Call)
    (hvalues : a.values.length = ps.bindable.length)
    (hsort : ∀ o ∈ a.sort.orders, o.rawExpression = false)
    (hp : ((q.afterAll calls).prepare a).1 = .ok p) :
    ∃ query pss rows bs ks, Agrees q a p query pss rows bs ks := by
  obtain ⟨hsetUp, hconsistent, hreturned, rfl, rfl⟩ := create_setUp hq
  obtain ⟨query, pss, rows, bs, ks, h⟩ :=
    hsetUp.prepare hconsistent hreturned calls hsort hp
  have hunmarked := h.describes.unmarked hm hsetUp.entity hsetUp.method.onAttributes
  have hmarkers := h.markersIn_query hunmarked
  refine ⟨query, pss, rows, bs, ks, h, ?_, h.positions hunmarked, ?_, ?_⟩
  · rw [hmarkers]
    exact h.describes.numbered.ascending
  · intro i part atom hpart hatom hequality
    exact h.describes.nullTests hunmarked hm hsetUp.method.onAttributes hpart hatom hequality
  · intro σ ρ provider held htakes
    have hdeclared : ∀ n ∈ boundPositions (bs ++ ks), n ∈ markersIn p.rendered.query := by
      rw [hmarkers]
      exact fun _ hn => hn
    obtain ⟨s, s', hcreate, hbind, hsets⟩ := h.bind_ok htakes hdeclared
    refine ⟨p.restricted provider s', PreparedQuery.create_eq hcreate hbind, fun n hn => ?_⟩
    rw [held_restricted htakes]
    rw [hmarkers, boundPositions_append, List.mem_append,
      ← h.describes.conditions.parameters h.describes.operands,
      ← h.describes.cursor.parameters] at hn
    rcases hn with hn | hn
    · exact .inl (@Prepares.setsArgument _ _ _ _ _ _ _ _ h hnames hvalues
        (fun n => held s' (.positional n)) hsets n hn)
    · exact .inr (@Prepares.setsKey _ _ _ _ _ _ _ _ h (fun n => held s' (.positional n)) hsets n hn)

/-! ### A name that reads as a marker -/

def sampleUser (entityName : String) : ManagedType :=
  { name := "app.User", entityName, isEntity := true
    attributes := [.id "id" .long, .basic "name" .string, .basic "age" .integer] }

def sampleParameters : MethodParameters :=
  ⟨"findByNameAndAge",
    [⟨0, some "name", .bindable .string, none⟩, ⟨1, some "age", .bindable .integer, none⟩]⟩

def sampleMethod : MethodName :=
  { alternatives := [[
      { source := "Name", operator := .simpleProperty
        property := ⟨[⟨"app.User", .basic "name" .string⟩], by simp⟩ },
      { source := "Age", operator := .simpleProperty
        property := ⟨[⟨"app.User", .basic "age" .integer⟩], by simp⟩ }]] }

def sampleQuery (entityName : String) : DerivedQuery :=
  { method := sampleMethod, entity := sampleUser entityName
    metamodel := ⟨[sampleUser entityName]⟩, parameters := sampleParameters }

/-- The arguments of `findByNameAndAge(null, 7)`. -/
def sampleArguments : Arguments := { values := [(none, .null), (none, .int 7)] }

theorem create_sample (entityName : String) :
    DerivedQuery.create "findByNameAndAge" "app.User" ⟨[sampleUser entityName]⟩ sampleParameters =
      .ok (sampleQuery entityName) := by
  have hentity : Metamodel.entity? ⟨[sampleUser entityName]⟩ "app.User" =
      some (sampleUser entityName) := rfl
  have hparse : MethodName.parse ⟨[sampleUser entityName]⟩ (sampleUser entityName)
      "findByNameAndAge" = .ok sampleMethod := by cbv
  simp only [DerivedQuery.create, hentity, hparse, bind, Except.bind]
  rfl

/-- With an entity named `User?2` the marker `?2` stands in the text twice. -/
theorem marked_name_repeats : ∃ q p,
    DerivedQuery.create "findByNameAndAge" "app.User" ⟨[sampleUser "User?2"]⟩ sampleParameters =
      .ok q ∧
    (sampleParameters.bindable.filterMap (·.name)).Nodup ∧
    sampleArguments.values.length = sampleParameters.bindable.length ∧
    (∀ o ∈ sampleArguments.sort.orders, o.rawExpression = false) ∧
    (q.prepare sampleArguments).1 = .ok p ∧
    p.rendered.query = "SELECT u FROM User?2 u WHERE u.name IS NULL AND u.age = ?2" ∧
    ¬ (markersIn p.rendered.query).Pairwise (· < ·) := by
  have htext : ((sampleQuery "User?2").prepare sampleArguments).1.toOption.map
      (·.rendered.query) = some "SELECT u FROM User?2 u WHERE u.name IS NULL AND u.age = ?2" := by
    decide
  obtain ⟨p, hp, hquery⟩ := Step.exists_of_toOption_map htext
  refine ⟨_, p, create_sample _, by decide, rfl, by decide, hp, hquery, ?_⟩
  rw [hquery]
  decide

theorem prepared_agrees_on_null_name : ∃ p,
    ((sampleQuery "User").prepare sampleArguments).1 = .ok p ∧
    p.rendered.query = "SELECT u FROM User u WHERE u.name IS NULL AND u.age = ?2" ∧
    (∃ query pss rows bs ks, Agrees (sampleQuery "User") sampleArguments p query pss rows bs ks) ∧
    (memoryProvider []).Takes MemoryQuery.held p.rendered.query p.rendered.tuple
      (markersIn p.rendered.query) := by
  have htext : ((sampleQuery "User").prepare sampleArguments).1.toOption.map
      (·.rendered.query) = some "SELECT u FROM User u WHERE u.name IS NULL AND u.age = ?2" := by
    decide
  obtain ⟨p, hp, hquery⟩ := Step.exists_of_toOption_map htext
  have hunmarked : Metamodel.Unmarked ⟨[sampleUser "User"]⟩ := ⟨by decide, by decide⟩
  refine ⟨p, hp, hquery, prepared_agrees (create_sample "User") hunmarked (by decide) [] rfl
    (by decide) hp, ?_⟩
  have hparameters : MemoryQuery.parametersOf p.rendered.query = [.positional 2] := by
    rw [hquery]
    cbv
  have hmarkers : markersIn p.rendered.query = [2] := by
    rw [hquery]
    cbv
  refine memoryProvider_takes [] _ ?_ (by simp [hparameters, hmarkers])
  rw [hquery]
  cbv

end DerivedQuery

end Jpql
