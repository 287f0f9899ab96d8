import Jpql.Proofs.Derived.Bound

/-! Queries that are accepted. If a query can be created for a method at all, then creating it
succeeds for every call whose sort is accepted: which values are null makes no difference, nor whether
rows are counted, and neither does a cursor that has a value for each order. -/

namespace Jpql.Derived

open MethodName
open Step

/-! ### Conditions -/

/-- As many operands are drawn for one draft as for the other. -/
def SameDrawn (d d' : Draft) : Prop := d.bindings.length = d'.bindings.length

theorem resolve_follows (options : Options) (p : PropertyPath) (forSelection : Bool) :
    Follows SameDrawn (resolve options p forSelection) (resolve options p forSelection) := by
  intro d d₁ e d' hsame h
  obtain ⟨rfl, rfl⟩ := resolve_ok h
  exact ⟨_, _, rfl, hsame⟩

/-- Whether case can be ignored is a matter of the property. -/
theorem exists_ignoringCase {options : Options} {part : Part} {e folded : Expression}
    (h : ignoringCase options part e = .ok folded) (e' : Expression) :
    ∃ folded', ignoringCase options part e' = .ok folded' := by
  cases hcase : part.ignoreCase with
  | never | whenPossible => simp [ignoringCase, hcase]
  | always =>
    simp only [ignoringCase, hcase] at h ⊢
    split at h
    next htext => exact ⟨_, by rw [if_pos htext]⟩
    next => cases h

theorem ignoringCase_follows (options : Options) (part : Part) (e e' : Expression) :
    Follows SameDrawn (liftM (ignoringCase options part e) : Build Expression)
      (liftM (ignoringCase options part e') : Build Expression) := by
  intro d d₁ folded d' hsame h
  obtain ⟨hfold, rfl⟩ := lift_ok.1 h
  obtain ⟨folded', hfold'⟩ := exists_ignoringCase hfold e'
  exact ⟨folded', d₁, lift_ok.2 ⟨hfold', rfl⟩, hsame⟩

theorem bindingAt_identifier {source : OperandSource} {part : Part} {expected : Expected} {k : Nat}
    {b : ParameterBinding} (h : source.bindingAt part expected k = .ok b) :
    b.identifier = .indexed (k + 1) := by
  unfold OperandSource.bindingAt at h
  split at h
  next => cases h
  next =>
    obtain rfl := Except.ok.inj h
    rfl

theorem placeholder_indexed {b : ParameterBinding} {n : Nat} (h : b.identifier = .indexed n)
    (d : Draft) : placeholder b d = .ok (.parameter n, d) := by
  have hposition : b.requiredPosition = .ok n := by
    simp [ParameterBinding.requiredPosition, ParameterBinding.position?, h,
      BindingIdentifier.position?]
  exact bind_ok.2 ⟨n, d, lift_ok.2 ⟨hposition, rfl⟩, pure_ok.2 ⟨rfl, rfl⟩⟩

theorem drawBinding_iff {source : OperandSource} {part : Part} {expected : Expected}
    {d d' : Draft} {b : ParameterBinding} :
    drawBinding source part expected d = .ok (b, d') ↔
      source.bindingAt part expected d.bindings.length = .ok b ∧
        d' = { d with bindings := d.bindings ++ [b] } := by
  unfold drawBinding
  simp only [bind_ok, get_ok, set_ok, lift_ok, pure_ok]
  constructor
  · rintro ⟨_, _, ⟨rfl, rfl⟩, _, _, ⟨hb, rfl⟩, _, _, rfl, rfl, rfl⟩
    exact ⟨hb, rfl⟩
  · rintro ⟨hb, rfl⟩
    exact ⟨d, d, ⟨rfl, rfl⟩, b, d, ⟨hb, rfl⟩, ⟨⟩, _, rfl, rfl, rfl⟩

variable {options : Options} {ps : MethodParameters} {escape : EscapeCharacter}
  (a : Option Arguments) {part : Part}

/-- What is known of the arguments makes no difference to whether an operand can be drawn. -/
theorem exists_bindingAt {expected : Expected} {k : Nat} {b : ParameterBinding}
    (h : OperandSource.bindingAt ⟨ps, none, escape⟩ part expected k = .ok b) :
    ∃ b', OperandSource.bindingAt ⟨ps, a, escape⟩ part expected k = .ok b' := by
  unfold OperandSource.bindingAt at h ⊢
  split at h
  next => cases h
  next p hp => exact ⟨_, by rw [hp]⟩

theorem drawBinding_follows {expected : Expected} {d d₁ d' : Draft} {b : ParameterBinding}
    (hsame : SameDrawn d d₁) (h : drawBinding ⟨ps, none, escape⟩ part expected d = .ok (b, d')) :
    ∃ b₁ d₁', drawBinding ⟨ps, a, escape⟩ part expected d₁ = .ok (b₁, d₁') ∧ SameDrawn d' d₁' ∧
      b₁.identifier = .indexed (d₁.bindings.length + 1) := by
  obtain ⟨hb, rfl⟩ := drawBinding_iff.1 h
  obtain ⟨b₁, hb₁⟩ := exists_bindingAt a hb
  rw [hsame] at hb₁
  exact ⟨b₁, _, drawBinding_iff.2 ⟨hb₁, rfl⟩, by simpa [SameDrawn] using hsame,
    bindingAt_identifier hb₁⟩

theorem drawOperand_follows (expected : Expected) :
    Follows SameDrawn (drawOperand ⟨ps, none, escape⟩ part expected)
      (drawOperand ⟨ps, a, escape⟩ part expected) := by
  intro d d₁ e d' hsame h
  obtain ⟨b, d₂, hb, h⟩ := bind_ok.1 h
  have hindexed := bindingAt_identifier (drawBinding_iff.1 hb).1
  rw [placeholder_indexed hindexed] at h
  obtain ⟨-, rfl⟩ := Prod.mk.inj (Except.ok.inj h)
  obtain ⟨b₁, d₁', hb₁, hsame', hindexed⟩ := drawBinding_follows a hsame hb
  exact ⟨_, _, bind_ok.2 ⟨b₁, d₁', hb₁, placeholder_indexed hindexed d₁'⟩, hsame'⟩

theorem equality_follows (path path' same same' : Expression)
    (hoperator : part.operator = .simpleProperty ∨ part.operator = .negatingSimpleProperty) :
    Follows SameDrawn (equality options ⟨ps, none, escape⟩ part path same)
      (equality options ⟨ps, a, escape⟩ part path' same') := by
  intro d d₁ p d' hsame h
  have hexpected : expected part = .declared := by
    unfold expected
    rcases hoperator with hop | hop <;> rw [hop]
  unfold equality at h
  obtain ⟨b, d₂, hb, h⟩ := bind_ok.1 h
  -- Without arguments no equality is a null test, so that case has been ignored if it is to be.
  have htest : b.isNullTest = false := by
    rw [← hexpected] at hb
    rw [(drawBinding_ok hb).1.isNullTest]
    rcases hoperator with hop | hop <;> simp [hop, OperandSource.isNullAt]
  have hindexed := bindingAt_identifier (drawBinding_iff.1 hb).1
  obtain ⟨b₁, d₁', hb₁, hsame', hindexed₁⟩ := drawBinding_follows a hsame hb
  simp only [htest, Bool.false_eq_true, if_false] at h
  obtain ⟨operand, d₃, hoperand, h⟩ := bind_ok.1 h
  rw [placeholder_indexed hindexed] at hoperand
  obtain ⟨rfl, rfl⟩ := Prod.mk.inj (Except.ok.inj hoperand)
  obtain ⟨folded, d₄, hfolded, h⟩ := bind_ok.1 h
  obtain ⟨hfold, rfl⟩ := lift_ok.1 hfolded
  obtain ⟨-, rfl⟩ := pure_ok.1 h
  obtain ⟨folded', hfold'⟩ := exists_ignoringCase hfold (.parameter (d₁.bindings.length + 1))
  cases htest₁ : b₁.isNullTest with
  | true =>
    refine ⟨.is path' (if part.operator == .negatingSimpleProperty then "NOT NULL" else "NULL"),
      d₁', bind_ok.2 ⟨b₁, d₁', hb₁, ?_⟩, hsame'⟩
    simp only [htest₁, if_true]
    exact pure_ok.2 ⟨rfl, rfl⟩
  | false =>
    refine ⟨.compare same' (if part.operator == .negatingSimpleProperty then "!=" else "=") folded',
      d₁', bind_ok.2 ⟨b₁, d₁', hb₁, ?_⟩, hsame'⟩
    simp only [htest₁, Bool.false_eq_true, if_false]
    exact bind_ok.2 ⟨_, d₁', placeholder_indexed hindexed₁ d₁',
      bind_ok.2 ⟨folded', d₁', lift_ok.2 ⟨hfold', rfl⟩, pure_ok.2 ⟨rfl, rfl⟩⟩⟩

theorem comparison_follows (path path' : Expression) (operator : String) :
    Follows SameDrawn (comparison ⟨ps, none, escape⟩ part path operator)
      (comparison ⟨ps, a, escape⟩ part path' operator) :=
  (drawOperand_follows a .declared).bind fun _ _ => follows_pure _ _

theorem pattern_follows (same same' : Expression) :
    Follows SameDrawn (pattern options ⟨ps, none, escape⟩ part same)
      (pattern options ⟨ps, a, escape⟩ part same') :=
  (drawOperand_follows a .text).bind fun _ _ =>
    (ignoringCase_follows options part _ _).bind fun _ _ => follows_pure _ _

theorem condition_follows : Follows SameDrawn (condition options ⟨ps, none, escape⟩ part)
    (condition options ⟨ps, a, escape⟩ part) := by
  unfold condition
  refine Follows.ite_bind (follows_pure _ _) (resolve_follows options part.property false) ?_
  refine fun path path' => (ignoringCase_follows options part path path').bind ?_
  intro folded folded'
  cases hop : part.operator with
  | between =>
    exact (drawOperand_follows a .declared).bind fun _ _ =>
      (drawOperand_follows a .declared).bind fun _ _ => follows_pure _ _
  | after | greaterThan | greaterThanEqual | before | lessThan | lessThanEqual =>
    exact comparison_follows a path path' _
  | isNull | isNotNull | true | false => exact follows_pure _ _
  | «in» | notIn => exact (drawOperand_follows a .collection).bind fun _ _ => follows_pure _ _
  | startingWith | endingWith | containing | notContaining =>
    dsimp only
    split
    · exact (drawOperand_follows a .declared).bind fun _ _ => follows_pure _ _
    · exact pattern_follows a folded folded'
  | like | notLike => exact pattern_follows a folded folded'
  | simpleProperty => exact equality_follows a path path' folded folded' (.inl hop)
  | negatingSimpleProperty => exact equality_follows a path path' folded folded' (.inr hop)
  | isEmpty | isNotEmpty =>
    dsimp only
    split
    · exact follows_pure _ _
    · exact follows_throw _ _
  | near | within | regex | «exists» => exact follows_throw _ _

theorem disjunction_follows (alternatives : List (List Part)) :
    Follows SameDrawn (disjunction options ⟨ps, none, escape⟩ alternatives)
      (disjunction options ⟨ps, a, escape⟩ alternatives) := by
  refine Follows.bind (follows_mapM fun parts _ => ?_) fun _ _ => follows_pure _ _
  exact Follows.bind (follows_mapM fun part _ => condition_follows a) fun _ _ => follows_pure _ _

/-! ### Orders and cursors -/

/-- The order is a raw expression, or it names a property. -/
def Creator.Accepts (c : Creator) (o : Order) : Prop :=
  o.check = .ok () ∧
    (o.rawExpression = true ∨ ∃ p, PropertyPath.ofSource c.metamodel c.entity o.property = .ok p)

/-- The order names a property and no more. -/
def Creator.Sortable (c : Creator) (o : Order) : Prop :=
  o.check = .ok () ∧ ∃ p, PropertyPath.ofSource c.metamodel c.entity o.property = .ok p

variable {c : Creator}

theorem Creator.Sortable.accepts {o : Order} (h : c.Sortable o) : c.Accepts o := ⟨h.1, .inr h.2⟩

theorem Creator.Accepts.sortable {o : Order} (h : c.Accepts o) (ho : o.rawExpression = false) :
    c.Sortable o := ⟨h.1, h.2.resolve_left (by simp [ho])⟩

theorem Creator.sortable_reversed {o : Order} : c.Sortable o.reversed ↔ c.Sortable o := by
  refine and_congr_left fun _ => ?_
  unfold Order.check
  change (if !o.rawExpression && o.hasPunctuation then _ else _) = _ ↔ _
  split <;> simp

theorem Creator.Accepts.succeeds {o : Order} (h : c.Accepts o) : Succeeds (c.orderExpression o) := by
  obtain ⟨hcheck, htarget⟩ := h
  refine (succeeds_lift hcheck).bind fun _ => Succeeds.bind ?_ fun _ => succeeds_pure _
  unfold Creator.orderTarget
  rcases hp : PropertyPath.ofSource c.metamodel c.entity o.property with e | p
  · have hraw : o.rawExpression = true := htarget.resolve_right (by simp [hp])
    simp only [hraw]
    exact succeeds_pure _
  · exact fun d => ⟨_, _, rfl⟩

theorem accepts_of_ok {o : Order} {item : OrderExpression} {d d' : Draft}
    (h : c.orderExpression o d = .ok (item, d')) : c.Accepts o := by
  unfold Creator.orderExpression at h
  obtain ⟨_, d₁, hchecked, h⟩ := bind_ok.1 h
  obtain ⟨hcheck, rfl⟩ := lift_ok.1 hchecked
  obtain ⟨target, d₂, htarget, -⟩ := bind_ok.1 h
  refine ⟨hcheck, ?_⟩
  unfold Creator.orderTarget at htarget
  rcases hp : PropertyPath.ofSource c.metamodel c.entity o.property with e | p
  · rw [hp] at htarget
    dsimp only at htarget
    split at htarget
    next hraw => exact .inl hraw
    next => exact (throw_ok.1 htarget).elim
  · exact .inr ⟨p, rfl⟩

theorem accepts_of_runs {orders : List Order} {items : List OrderExpression} {d d' : Draft}
    (h : Runs c.orderExpression d orders items d') : ∀ o ∈ orders, c.Accepts o := by
  induction h with
  | nil => simp
  | cons hstep _ ih => exact List.forall_mem_cons.2 ⟨accepts_of_ok hstep, ih⟩

/-- The cursor has a value for each order, if it is not the initial one. -/
def Covers (cursor : Cursor) (orders : List Order) : Prop :=
  cursor.isInitial = true ∨ ∀ o ∈ orders, ∃ v, cursor.get? o.property = some v

theorem succeeds_always {σ α : Type} (step : StateM σ α) : Succeeds (Cursor.always step) :=
  fun _ => ⟨_, _, rfl⟩

section Cursor

variable {m : Metamodel} {entity : ManagedType} {options : Options} {cursor : Cursor}

theorem succeeds_expression {property : String}
    (hp : ∃ p, PropertyPath.ofSource m entity property = .ok p) :
    Succeeds (KeysetDraft.expression m entity options property) := by
  obtain ⟨p, hp⟩ := hp
  exact (succeeds_lift hp).bind fun _ d => ⟨_, _, rfl⟩

theorem succeeds_key {o : Order} (hv : ∃ v, cursor.get? o.property = some v) :
    ∃ v, cursor.key o.property = .ok v := by
  obtain ⟨v, hv⟩ := hv
  exact ⟨v, by rw [Cursor.key, hv]⟩

theorem succeeds_disjunct {before : List Order} {o : Order}
    (hv : ∀ o' ∈ before ++ [o], ∃ v, cursor.get? o'.property = some v)
    (hp : ∀ o' ∈ before ++ [o], ∃ p, PropertyPath.ofSource m entity o'.property = .ok p) :
    Succeeds (cursor.disjunct (KeysetDraft.adapter m entity options) before o) := by
  have hequality : ∀ o' ∈ before,
      Succeeds (cursor.equality (KeysetDraft.adapter m entity options) o') := by
    intro o' ho'
    have hmem : o' ∈ before ++ [o] := List.mem_append_left _ ho'
    obtain ⟨v, hv⟩ := succeeds_key (hv o' hmem)
    exact (succeeds_lift hv).bind fun v =>
      (succeeds_expression (hp o' hmem)).bind fun e => succeeds_always _
  have hcomparison : Succeeds (cursor.comparison (KeysetDraft.adapter m entity options) o) := by
    have hmem : o ∈ before ++ [o] := by simp
    obtain ⟨v, hv⟩ := succeeds_key (hv o hmem)
    exact (succeeds_lift hv).bind fun v =>
      (succeeds_expression (hp o hmem)).bind fun e => succeeds_always _
  exact (succeeds_mapM hequality).bind fun _ => hcomparison.bind fun _ => succeeds_always _

theorem succeeds_disjuncts {before orders : List Order}
    (hv : ∀ o ∈ before ++ orders, ∃ v, cursor.get? o.property = some v)
    (hp : ∀ o ∈ before ++ orders, ∃ p, PropertyPath.ofSource m entity o.property = .ok p) :
    Succeeds (cursor.disjuncts (KeysetDraft.adapter m entity options) before orders) := by
  induction orders generalizing before with
  | nil => exact succeeds_pure []
  | cons o orders ih =>
    have hsplit : before ++ o :: orders = (before ++ [o]) ++ orders := by simp
    rw [hsplit] at hv hp
    have hfirst : Succeeds (cursor.disjunct (KeysetDraft.adapter m entity options) before o) :=
      succeeds_disjunct (fun o' ho' => hv o' (List.mem_append_left _ ho'))
        fun o' ho' => hp o' (List.mem_append_left _ ho')
    exact hfirst.bind fun _ => (ih hv hp).bind fun _ => succeeds_pure _

theorem succeeds_predicate {sort : Sorting} (hv : Covers cursor sort.orders)
    (hp : ∀ o ∈ sort.orders, ∃ p, PropertyPath.ofSource m entity o.property = .ok p) :
    Succeeds (cursor.predicate sort (KeysetDraft.adapter m entity options)) := by
  unfold Cursor.predicate
  split
  · exact succeeds_pure none
  next hinitial =>
    have hv := hv.resolve_left hinitial
    refine (succeeds_disjuncts (by simpa using hv) (by simpa using hp)).bind fun ps => ?_
    split
    · exact succeeds_pure none
    · exact (succeeds_always _).bind fun _ => succeeds_pure _

end Cursor

/-! ### Whole queries -/

/-- The method looks for entities: it neither counts nor deletes them, nor does it ask whether there
are any. -/
structure Finds (method : MethodName) : Prop where
  notCount : method.isCount = false
  notExists : method.isExists = false
  notDelete : method.isDelete = false

theorem createSorted_ok {sort : Sorting} {created : Created} :
    c.createSorted sort = .ok created ↔ ∃ d : Draft, created = ⟨d.query, d.bindings⟩ ∧
      c.build sort ⟨.ofEntity c.entity.entityName c.entity.simpleName .entity, []⟩ =
        .ok ((), d) := by
  unfold Creator.createSorted
  extract_lets start
  rcases hb : c.build sort ⟨start, []⟩ with e | ⟨_, d⟩
  · simp [StateT.run, hb, bind, Except.bind]
  · simp [StateT.run, hb, bind, Except.bind, pure, Except.pure, @eq_comm _ created]

/-- What creating a query accepts: its conditions, its selection and, if it has an order, its sort. -/
theorem createSorted_steps {sort : Sorting} {created : Created}
    (h : c.createSorted sort = .ok created) : ∃ predicate d₁ selection d₂,
      disjunction c.options c.source c.method.alternatives
        ⟨.ofEntity c.entity.entityName c.entity.simpleName .entity, []⟩ = .ok (predicate, d₁) ∧
      c.selection d₁ = .ok (selection, d₂) ∧
      (c.counts = false → c.method.isDelete = false → ∀ o ∈ sort.orders, c.Accepts o) := by
  obtain ⟨d, -, hbuild⟩ := createSorted_ok.1 h
  unfold Creator.build at hbuild
  obtain ⟨predicate, d₁, hpredicate, hbuild⟩ := bind_ok.1 hbuild
  obtain ⟨selection, d₂, hselection, hbuild⟩ := bind_ok.1 hbuild
  obtain ⟨_, d₃, -, hbuild⟩ := bind_ok.1 hbuild
  refine ⟨predicate, d₁, selection, d₂, hpredicate, hselection, fun hcounts hdelete => ?_⟩
  rw [hcounts, hdelete] at hbuild
  obtain ⟨orders, d₄, horders, -⟩ := bind_ok.1 hbuild
  exact accepts_of_runs (mapM_ok.1 horders)

theorem createSorted_sortable {sort : Sorting} {created : Created} (hfinds : Finds c.method)
    (hcounting : c.counting = false) (hs : ∀ o ∈ sort.orders, o.rawExpression = false)
    (h : c.createSorted sort = .ok created) : ∀ o ∈ sort.orders, c.Sortable o := by
  obtain ⟨_, _, _, _, -, -, haccepts⟩ := createSorted_steps h
  have hcounts : c.counts = false := by rw [Creator.counts, hcounting, hfinds.notCount]; rfl
  exact fun o ho => (haccepts hcounts hfinds.notDelete o ho).sortable (hs o ho)

/-- The creator that tries out a method when it is set up: it knows no arguments and does not count
rows. -/
def Creator.checking (c : Creator) : Creator := { c with arguments := none, counting := false }

/-- No matter how the drafts are related: whether a path can be selected depends on its name. -/
theorem selectPath_follows (property : String) :
    Follows (fun _ _ => True) (c.selectPath property) (c.selectPath property) := by
  intro s t e s' _ h
  unfold Creator.selectPath at h ⊢
  obtain ⟨p, _, hp, -⟩ := bind_ok.1 h
  exact ⟨_, _, bind_ok.2 ⟨p, t, lift_ok.2 ⟨(lift_ok.1 hp).1, rfl⟩, rfl⟩, trivial⟩

theorem selectPaths_follows (properties : List String) :
    Follows (fun _ _ => True) (c.selectPaths properties) (c.selectPaths properties) :=
  follows_mapM fun property _ => selectPath_follows property

theorem customSelection_cases (c : Creator) : c.customSelection = pure none ∨
    ∃ (properties : List String) (select : List PathExpression → Selection),
      c.customSelection = c.selectPaths properties >>= fun es => pure (some (select es)) := by
  unfold Creator.customSelection
  cases c.returned with
  | dto className properties =>
    dsimp only
    split
    · exact .inl rfl
    · exact .inr ⟨properties, .construct className, rfl⟩
  | projection properties =>
    dsimp only
    split
    · exact .inl rfl
    · exact .inr ⟨properties, .paths, rfl⟩
  | tuple => exact .inr ⟨_, .paths, rfl⟩
  | domain | value => exact .inl rfl

/-- What can be selected when a method is set up can be selected in every call. -/
theorem selection_follows : Follows (fun _ _ => True) c.checking.selection c.selection := by
  unfold Creator.selection
  change Follows _ (if c.method.isDelete then _ else _) (if c.method.isDelete then _ else _)
  split
  · exact follows_pure _ _
  by_cases hcounts : c.counts = true
  · rw [if_pos hcounts]
    exact (succeeds_pure _).follows _
  have hplain : c.counting = false ∧ c.method.isCount = false := by
    simpa [Creator.counts] using hcounts
  have hchecking : c.checking.counts = false := hplain.2
  rw [if_neg hcounts, hchecking, if_neg Bool.false_ne_true]
  rcases customSelection_cases c with hcustom | ⟨properties, select, hcustom⟩
  · have hcustom' : c.checking.customSelection = pure none := hcustom
    rw [hcustom, hcustom', pure_bind, pure_bind]
    change Follows _ (if c.method.isExists then _ else _) (if c.method.isExists then _ else _)
    split
    · have hids : Follows (fun _ _ => True)
          (c.selectPaths (c.entity.idAttributes.map (·.name)) >>= fun es => pure (Selection.paths es))
          (c.selectPaths (c.entity.idAttributes.map (·.name)) >>= fun es =>
            pure (Selection.paths es)) :=
        (selectPaths_follows _).bind fun _ _ => follows_pure _ _
      change Follows _ (if (c.entity.idAttributes.map (·.name)).isEmpty then _ else _)
        (if (c.entity.idAttributes.map (·.name)).isEmpty then _ else _)
      split
      · exact (follows_throw _ _).bind fun _ _ => hids
      · exact hids
    · exact follows_pure _ _
  · have hcustom' : c.checking.customSelection = _ := hcustom
    rw [hcustom, hcustom', bind_assoc, bind_assoc]
    exact (selectPaths_follows properties).bind fun _ _ => by
      rw [pure_bind, pure_bind]
      exact follows_pure _ _

/-- What does not change when a path is followed. -/
def IgnoresPaths {κ : Type} (view : Draft → κ) : Prop :=
  ∀ (d : Draft) (p : PropertyPath) (forSelection optimize : Bool),
    view { d with query := (resolvePath d.query p forSelection optimize).2 } = view d

section Keeps

variable {κ : Type} {view : Draft → κ} (hview : IgnoresPaths view)

include hview

theorem keeps_resolve (options : Options) (p : PropertyPath) (forSelection : Bool) :
    Keeps view (resolve options p forSelection) := by
  intro d e d' h
  obtain ⟨-, rfl⟩ := resolve_ok h
  exact hview d p forSelection _

theorem keeps_selectPath (property : String) : Keeps view (c.selectPath property) := by
  intro d e d' h
  unfold Creator.selectPath at h
  simp only [bind_ok, get_ok, set_ok, lift_ok, pure_ok] at h
  obtain ⟨p, _, ⟨-, rfl⟩, _, _, ⟨rfl, rfl⟩, _, _, rfl, -, rfl⟩ := h
  exact hview d p true _

theorem keeps_selection : Keeps view c.selection := by
  have hpaths (properties : List String) : Keeps view (c.selectPaths properties) :=
    keeps_mapM fun property _ => keeps_selectPath hview property
  unfold Creator.selection
  split
  · exact keeps_pure _
  split
  · exact keeps_pure _
  refine Keeps.bind ?_ fun custom => ?_
  · rcases customSelection_cases c with hcustom | ⟨properties, select, hcustom⟩
    · rw [hcustom]
      exact keeps_pure _
    · rw [hcustom]
      exact (hpaths properties).bind fun _ => keeps_pure _
  · dsimp only
    split
    · exact keeps_pure _
    · split
      · split
        · exact (keeps_throw _).bind fun _ => (hpaths _).bind fun _ => keeps_pure _
        · exact (hpaths _).bind fun _ => keeps_pure _
      · exact keeps_pure _

theorem keeps_orderExpression (o : Order) : Keeps view (c.orderExpression o) := by
  refine (keeps_lift _).bind fun _ => Keeps.bind ?_ fun _ => keeps_pure _
  unfold Creator.orderTarget
  rcases PropertyPath.ofSource c.metamodel c.entity o.property with e | p
  · dsimp only
    split
    · exact keeps_pure _
    · exact keeps_throw _
  · exact keeps_resolve hview c.options p true

end Keeps

/-- The bindings of a query are those of the operands of its method. -/
theorem createSorted_bindsAll {sort : Sorting} {created : Created}
    (hm : OnAttributes c.metamodel c.method.parts) (h : c.createSorted sort = .ok created) :
    BindsAll c.source 0 (operands c.method) created.bindings := by
  obtain ⟨d, rfl, hbuild⟩ := createSorted_ok.1 h
  unfold Creator.build at hbuild
  obtain ⟨predicate, d₁, hpredicate, hrest⟩ := bind_ok.1 hbuild
  obtain ⟨_, -, -, hdrafts⟩ := disjunction_drafts (m := c.metamodel) hm wellJoined_nil hpredicate
  obtain ⟨bs, hbs, hall⟩ := hdrafts.bindings
  have hkeeps : d.bindings = d₁.bindings := by
    have hview : IgnoresPaths Draft.bindings := fun _ _ _ _ => rfl
    refine Keeps.bind (keeps_selection hview) (fun selection => ?_) hrest
    dsimp only
    refine Keeps.bind (keeps_modify ?_) fun _ => ?_
    · exact fun _ => rfl
    split
    · exact (keeps_mapM fun o _ => keeps_orderExpression hview o).bind fun _ => keeps_modify fun _ => rfl
    · exact keeps_pure _
  rw [hkeeps, hbs]
  exact hall

/-- A query is created once its conditions are, if its selection succeeds and its orders are
accepted. -/
theorem createSorted_of_selection {sort : Sorting} {predicate : Option Predicate} {d : Draft}
    (hpredicate : disjunction c.options c.source c.method.alternatives
      { query := .ofEntity c.entity.entityName c.entity.simpleName .entity } = .ok (predicate, d))
    (hselection : Succeeds c.selection)
    (hs : c.counts = false → c.method.isDelete = false → ∀ o ∈ sort.orders, c.Accepts o) :
    ∃ created, c.createSorted sort = .ok created := by
  have hbuild : ∃ u d', c.build sort
      { query := .ofEntity c.entity.entityName c.entity.simpleName .entity } = .ok (u, d') := by
    unfold Creator.build
    refine exists_bind_ok hpredicate fun predicate => hselection.bind fun selection =>
      (succeeds_modify _).bind fun _ => ?_
    split
    next hsorted =>
      simp only [Bool.and_eq_true, Bool.not_eq_true'] at hsorted
      exact (succeeds_mapM fun o ho => (hs hsorted.1 hsorted.2 o ho).succeeds).bind fun _ =>
        succeeds_modify _
    next => exact succeeds_pure _
  obtain ⟨_, d', hd'⟩ := hbuild
  exact ⟨_, createSorted_ok.2 ⟨d', rfl, hd'⟩⟩

/-- Once a method is accepted, its query can be created for all arguments, with or without counting,
and for all sorts that are accepted. -/
theorem createSorted_succeeds {sort sort' : Sorting} {created : Created}
    (h : c.checking.createSorted sort' = .ok created)
    (hs : c.counts = false → c.method.isDelete = false → ∀ o ∈ sort.orders, c.Accepts o) :
    ∃ created, c.createSorted sort = .ok created := by
  obtain ⟨predicate, d₁, selection, d₂, hpredicate, hselection, -⟩ := createSorted_steps h
  obtain ⟨predicate', d₁', hpredicate', -⟩ :=
    disjunction_follows c.arguments c.method.alternatives (Eq.refl _) hpredicate
  exact createSorted_of_selection hpredicate' (selection_follows.succeeds hselection) hs

theorem createKeyset_succeeds {cursor : Cursor} {sort sort' : Sorting} {created : Created}
    (h : c.checking.createSorted sort' = .ok created)
    (hs : ∀ o ∈ (c.keysetSort cursor sort).orders, c.Sortable o)
    (hv : Covers cursor (c.keysetSort cursor sort).orders) :
    ∃ created, c.createKeyset cursor sort = .ok created := by
  obtain ⟨base, hbase⟩ := createSorted_succeeds h fun _ _ o ho => (hs o ho).accepts
  have hpredicate : Succeeds (cursor.predicate (c.keysetSort cursor sort)
      (KeysetDraft.adapter c.metamodel c.entity c.options)) :=
    succeeds_predicate hv fun o ho => (hs o ho).2
  obtain ⟨o, d, hd⟩ := hpredicate ⟨base.query, base.bindings.length, []⟩
  unfold Creator.createKeyset
  exact ⟨_, result_bind_ok.2 ⟨base, hbase, result_bind_ok.2 ⟨(o, d), hd, rfl⟩⟩⟩

/-- Every operand and every value of a cursor can be bound. -/
theorem binder_succeeds {source : OperandSource} {k : Nat} {parts : List Part}
    {bs ks : List ParameterBinding}
    (hbs : BindsAll source k parts bs) (hks : ∀ b ∈ ks, ∃ v origin, b.origin = .synthetic v origin) :
    ∃ binder, ParameterBinder.of source.parameters (bs ++ ks) = .ok binder := by
  have hall : ∀ b ∈ bs ++ ks, ∃ setter, ParameterSetter.of source.parameters b = .ok setter := by
    intro b hb
    have htakes : TakesValue source.parameters b := by
      rcases List.mem_append.1 hb with hb | hb
      · exact hbs.takesValue b hb
      · obtain ⟨v, origin, ho⟩ := hks b hb
        exact .synthetic ho
    unfold ParameterSetter.of
    split
    · exact ⟨_, rfl⟩
    · cases htakes with
      | argument ho hp =>
        simp only [ho, hp]
        exact ⟨_, rfl⟩
      | synthetic ho =>
        simp only [ho]
        exact ⟨_, rfl⟩
  obtain ⟨setters, hsetters⟩ := result_mapM_succeeds hall
  exact ⟨_, result_bind_ok.2 ⟨setters, hsetters, rfl⟩⟩

end Jpql.Derived

namespace Jpql.DerivedQuery

open Derived MethodName

variable {q : DerivedQuery}

/-- The order in a method name was accepted when the query was set up. -/
theorem SetUp.accepts (hq : q.SetUp) (hcounts : q.method.isCount = false)
    (hdelete : q.method.isDelete = false) :
    ∀ o ∈ q.method.sort.orders, (q.creator none false).Accepts o := by
  obtain ⟨created, hcreated⟩ := hq.accepted
  obtain ⟨_, _, _, _, -, -, haccepts⟩ := createSorted_steps hcreated
  exact fun o ho => haccepts hcounts hdelete o (List.mem_append_left _ ho)

end Jpql.DerivedQuery
