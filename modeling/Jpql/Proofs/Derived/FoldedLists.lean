import Jpql.Derived
import Jpql.Proofs.Derived.Condition

/-! Lists of texts whose case is ignored. A condition passes its path through the case function in
either mode, but elements are folded only where the condition itself says so, and then always to
upper case. -/

namespace Jpql

open Derived MethodName
open Step (bind_ok ite_bind_ok pure_ok lift_ok exists_of_toOption_map result_bind_ok)

/-- A text passed through a function; other values stay. -/
def Value.mapText (f : String → String) : Value → Value
  | .text s => .text (f s)
  | v => v

/-- The elements that an argument of a list operator is bound as. -/
def Value.BoundAs (v : Value) (items : List Value) : Prop :=
  v.isNull = false ∧ Operand.toCollection v = .list items

theorem Operand.upper_eq : upper = Value.mapText Text.toUpper := by
  funext v
  cases v <;> rfl

theorem Value.boundAs_text (s : String) : (Value.text s).BoundAs [.text s] := ⟨rfl, rfl⟩

namespace Derived

theorem typeFor_collection (declared : ValueType) :
    (OperandSource.typeFor declared .collection).isString = false ∧
      (OperandSource.typeFor declared .collection).isCollectionLike = true := by
  unfold OperandSource.typeFor
  cases declared <;> exact ⟨rfl, rfl⟩

variable {options : Options} {source : OperandSource} {part : Part} {d d' : Draft} {p : Predicate}

theorem expected_list (hop : part.operator = .in ∨ part.operator = .notIn) :
    expected part = .collection := by
  rcases hop with hop | hop <;> rw [expected, hop]

/-- Elements are folded if the condition itself ignores case, and always to upper case. -/
theorem Binds.prepare_list (hop : part.operator = .in ∨ part.operator = .notIn) {k : Nat}
    {b : ParameterBinding} (h : Binds source part k b) {v : Value} {items : List Value}
    (hv : v.BoundAs items) :
    b.prepare v = .list (if part.ignoreCase = .always then items.map (Value.mapText Text.toUpper)
      else items) := by
  obtain ⟨parameter, -, rfl⟩ := h
  obtain ⟨hnull, hitems⟩ := hv
  obtain ⟨hstring, hcollection⟩ := typeFor_collection (parameter.valueType?.getD .string)
  simp only [ParameterBinding.prepare, bindingOf, BindingKind.prepare, Operand.prepare, hnull,
    expected_list hop, hstring, hcollection, hitems, Bool.false_and, Bool.false_eq_true, if_false,
    if_true, Operand.upper_eq, beq_iff_eq]

theorem folded_text {e : Expression} (hstring : part.property.leafType.isString = true) :
    folded options part e =
      if part.ignoreCase = .never then e else .function options.caseTemplate.function e := by
  unfold folded
  cases part.ignoreCase <;> simp [hstring]

/-- What a list condition becomes. -/
theorem condition_inList (hop : part.operator = .in ∨ part.operator = .notIn)
    (h : condition options source part d = .ok (p, d')) :
    ∃ e b, p = .inList (folded options part (.path e)) (part.operator == .notIn)
        (.parameter (d.bindings.length + 1)) ∧
      Binds source part d.bindings.length b ∧ d'.bindings = d.bindings ++ [b] := by
  unfold condition at h
  obtain ⟨path, d₁, hpath, h⟩ := ite_bind_ok.1 h
  obtain ⟨e, rfl, hbindings⟩ := conditionPath_ok hpath
  obtain ⟨same, d₂, hsame, h⟩ := bind_ok.1 h
  obtain ⟨hfold, rfl⟩ := lift_ok.1 hsame
  obtain rfl := ignoringCase_ok hfold
  have hdraw : (do
      let values ← drawOperand source part .collection
      return Predicate.inList (folded options part (.path e)) (part.operator == .notIn) values :
        Build Predicate) d₁ = .ok (p, d') := by
    rcases hop with hop | hop <;> simpa only [hop] using h
  rw [← expected_list hop] at hdraw
  obtain ⟨values, d₃, hvalues, hdraw⟩ := bind_ok.1 hdraw
  obtain ⟨rfl, b, hb, rfl⟩ := drawOperand_ok hvalues
  obtain ⟨rfl, rfl⟩ := pure_ok.1 hdraw
  rw [hbindings] at hb ⊢
  exact ⟨e, b, rfl, hb, rfl⟩

/-- What folds texts to upper case in one mode only is the case function just in that mode, and if
that is the function to upper case. -/
theorem folds_iff {apply : CaseTemplate → String → String} (hupper : apply .upper = Text.toUpper)
    (hlower : apply .lower "A" = "a") {mode : IgnoreCase} {template : CaseTemplate} :
    (∀ t, (if mode = .always then apply .upper t else t) = apply template t) ↔
      mode = .always ∧ template = .upper := by
  constructor
  · intro hsame
    cases template with
    | upper =>
      refine ⟨?_, rfl⟩
      by_contra hmode
      have hlowerA := hsame "a"
      rw [if_neg hmode, hupper] at hlowerA
      exact absurd hlowerA (by decide)
    | lower =>
      have hupperA := hsame "A"
      have hstays : apply .upper "A" = "A" := by
        rw [hupper]
        decide
      rw [hstays, ite_self, hlower] at hupperA
      exact absurd hupperA (by decide)
  · rintro ⟨rfl, rfl⟩ t
    rfl

/-- A list condition that ignores case wraps its path in the case function. What is bound are the
elements passed through `apply`, the function as the database applies it, just if the condition
itself ignores case and the function is the one to upper case; then a value satisfies the condition
if an element equals it up to case. -/
theorem inList_folds_iff {apply : CaseTemplate → String → String}
    (hupper : apply .upper = Text.toUpper) (hlower : apply .lower "A" = "a")
    (hop : part.operator = .in ∨ part.operator = .notIn)
    (hstring : part.property.leafType.isString = true)
    (h : condition options source part d = .ok (p, d')) :
    ∃ (e : PathExpression) (b : ParameterBinding),
      p = .inList (if part.ignoreCase = .never then .path e
          else .function options.caseTemplate.function (.path e)) (part.operator == .notIn)
        (.parameter (d.bindings.length + 1)) ∧
      d'.bindings = d.bindings ++ [b] ∧ b.position? = some (d.bindings.length + 1) ∧
      (∀ v items, Value.BoundAs v items → b.prepare v = .list (if part.ignoreCase = .always
        then items.map (Value.mapText (apply .upper)) else items)) ∧
      ((part.ignoreCase ≠ .never → ∀ v items, Value.BoundAs v items →
          b.prepare v = .list (items.map (Value.mapText (apply options.caseTemplate)))) ↔
        part.ignoreCase = .never ∨
          part.ignoreCase = .always ∧ options.caseTemplate = .upper) ∧
      (part.ignoreCase = .always → options.caseTemplate = .upper →
        ∀ v items, Value.BoundAs v items → ∃ bound : List Value, b.prepare v = .list bound ∧
          ∀ s, .text (apply options.caseTemplate s) ∈ bound ↔
            ∃ t, .text t ∈ items ∧ apply options.caseTemplate t = apply options.caseTemplate s) := by
  obtain ⟨e, b, rfl, hb, hbindings⟩ := condition_inList hop h
  have hprepare (v : Value) (items : List Value) (hv : v.BoundAs items) :
      b.prepare v = .list (if part.ignoreCase = .always
        then items.map (Value.mapText (apply .upper)) else items) :=
    hupper ▸ hb.prepare_list hop hv
  refine ⟨e, b, by rw [folded_text hstring], hbindings, ?_, hprepare, ⟨fun hsame => ?_, ?_⟩, ?_⟩
  · obtain ⟨parameter, -, rfl⟩ := hb
    rfl
  · refine or_iff_not_imp_left.2 fun hcase => (folds_iff hupper hlower).1 fun t => ?_
    have hbound := hprepare _ _ (Value.boundAs_text t)
    rw [hsame hcase _ _ (Value.boundAs_text t)] at hbound
    by_cases halways : part.ignoreCase = .always <;>
      simpa [halways, Value.mapText] using hbound.symm
  · rintro (hnever | ⟨halways, htemplate⟩) hcase v items hv
    · exact absurd hnever hcase
    · rw [hprepare v items hv, if_pos halways, htemplate]
  · intro halways htemplate v items hv
    refine ⟨_, hprepare v items hv, fun s => ?_⟩
    rw [if_pos halways, htemplate, List.mem_map]
    constructor
    · rintro ⟨item, hitem, heq⟩
      cases item with
      | text t => exact ⟨t, hitem, Value.text.inj heq⟩
      | _ => cases heq
    · rintro ⟨t, ht, heq⟩
      exact ⟨.text t, ht, congrArg Value.text heq⟩

/-! ### Users by their names -/

def namedUser : ManagedType :=
  { name := "app.User", entityName := "User", isEntity := true
    attributes := [.id "id" .long, .basic "name" .string] }

def namesParameters (methodName : String) : MethodParameters :=
  ⟨methodName, [⟨0, some "names", .bindable (.collection .string), none⟩]⟩

/-- Names in the list of a call, ignoring their case. -/
def namesPart : Part :=
  { source := "NameInIgnoreCase", operator := .in, ignoreCase := .always
    property := ⟨[⟨"app.User", .basic "name" .string⟩], by decide⟩ }

/-- The functions as Unicode says. -/
def unicodeCase : CaseTemplate → String → String
  | .upper, s => Text.toUpper s
  | .lower, s => String.ofList (s.toList.flatMap Text.lowerOf)

/-- `bob` is bound as `BOB`. -/
theorem inList_folds_names : ∃ p d',
    condition {} ⟨namesParameters "findByNameInIgnoreCase", none, {}⟩ namesPart
      { query := .ofEntity "User" "User" .entity } = .ok (p, d') ∧
    ∃ b, d'.bindings = [b] ∧ b.prepare (.list [.text "bob"]) = .list [.text "BOB"] := by
  have hcondition : ∃ p d', condition {} ⟨namesParameters "findByNameInIgnoreCase", none, {}⟩
      namesPart { query := .ofEntity "User" "User" .entity } = .ok (p, d') := ⟨_, _, rfl⟩
  obtain ⟨p, d', h⟩ := hcondition
  have hupper : unicodeCase .upper = Text.toUpper := rfl
  obtain ⟨e, b, -, hbindings, -, hprepare, -⟩ :=
    inList_folds_iff hupper (by decide) (.inl rfl) rfl h
  have hbob : Text.toUpper "bob" = "BOB" := by decide
  refine ⟨p, d', h, b, hbindings, ?_⟩
  have halways : namesPart.ignoreCase = .always := rfl
  rw [hprepare _ _ ⟨rfl, rfl⟩, if_pos halways]
  change Value.list [.text (Text.toUpper "bob")] = _
  rw [hbob]

/-- If the method ignores case where it can, `bob` is bound as it is and compared with names in upper
case. -/
theorem all_ignore_case_keeps_names : ∃ q created,
    DerivedQuery.create "findByNameInAllIgnoreCase" "app.User" ⟨[namedUser]⟩
      (namesParameters "findByNameInAllIgnoreCase") = .ok q ∧
    (q.creator none false).create .unsorted = .ok created ∧
    created.query.predicate =
      some (.inList (.function "UPPER" (.path ⟨.root, "name", "name"⟩)) false (.parameter 1)) ∧
    created.bindings.map (·.prepare (.list [.text "bob"])) = [.list [.text "bob"]] ∧
    Text.toUpper "bob" = "BOB" := by
  have hcreates : (do
      let q ← DerivedQuery.create "findByNameInAllIgnoreCase" "app.User" ⟨[namedUser]⟩
        (namesParameters "findByNameInAllIgnoreCase")
      (q.creator none false).create .unsorted : Result Created).toOption.map (fun created =>
        (created.query.predicate, created.bindings.map (·.prepare (.list [.text "bob"])))) =
      some (some (.inList (.function "UPPER" (.path ⟨.root, "name", "name"⟩)) false (.parameter 1)),
        [.list [.text "bob"]]) := by
    cbv
  obtain ⟨created, hcreated, hquery⟩ := exists_of_toOption_map hcreates
  obtain ⟨q, hq, hcreated⟩ := result_bind_ok.1 hcreated
  obtain ⟨hpredicate, hbindings⟩ := Prod.mk.inj hquery
  exact ⟨q, created, hq, hcreated, hpredicate, hbindings, by decide⟩

end Derived

end Jpql
