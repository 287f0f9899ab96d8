import Jpql.Proofs.Derived.Acceptance
import Jpql.Proofs.Derived.CursorTruth
import Jpql.Proofs.Derived.Rejoining
import Jpql.Proofs.Derived.Table

/-! What a cursor compares, and what its query sorts on. For an order both are the same expression,
unless the order ignores case, which the cursor never does, or makes a join that a predicate does
not. If they are the same for all orders, the cursor keeps just the rows that the query puts behind
the cursor. -/

namespace Jpql.Derived

open MethodName (Part)
open Step

/-! ### Expressions for orders -/

/-- What the cursor of a finished query compares for a property. -/
def Creator.comparedOn (c : Creator) (q : SelectQuery) (property : String) : Expression :=
  match PropertyPath.ofSource c.metamodel c.entity property with
  | .ok p => .path (resolvePath q p false c.options.useForeignKey).1
  | .error _ => .literal property

/-- What a finished query sorts on for an order. -/
def Creator.sortedOn (c : Creator) (q : SelectQuery) (o : Order) : Expression :=
  let e : Expression :=
    match PropertyPath.ofSource c.metamodel c.entity o.property with
    | .ok p => .path (resolvePath q p true c.options.useForeignKey).1
    | .error _ => .literal o.property
  if o.ignoreCase then .function c.options.caseTemplate.function e else e

/-- The query has the joins that sorting on the property makes. -/
def Creator.Joins (c : Creator) (q : SelectQuery) (property : String) : Prop :=
  ∀ p, PropertyPath.ofSource c.metamodel c.entity property = .ok p →
    (resolvePath q p true c.options.useForeignKey).2 = q

/-- Sorting and comparing come to one expression: case matters to the order, and it makes no join
that a predicate would not make. -/
def Creator.SortsAsCompared (c : Creator) (o : Order) : Prop :=
  o.ignoreCase = false ∧ ∃ p, PropertyPath.ofSource c.metamodel c.entity o.property = .ok p ∧
    joinsFurther c.options.useForeignKey false p.segments = false

variable {c : Creator} {q : SelectQuery} {o : Order}

theorem sortedOn_eq_comparedOn_iff {p : PropertyPath}
    (hp : PropertyPath.ofSource c.metamodel c.entity o.property = .ok p)
    (hq : c.Joins q o.property) :
    c.sortedOn q o = c.comparedOn q o.property ↔ c.SortsAsCompared o := by
  have hjoins : (resolvePath q p true c.options.useForeignKey).2.joins <+: q.joins := by
    rw [hq p hp]
  have hnames : ∀ s ∈ p.segments, s.name ≠ "" := fun s hs =>
    (PropertyPath.ofSource_isAttribute hp s hs).1
  have hagree : c.SortsAsCompared o ↔ o.ignoreCase = false ∧
      joinsFurther c.options.useForeignKey false p.segments = false := by
    simp [Creator.SortsAsCompared, hp]
  rw [hagree, Creator.sortedOn, Creator.comparedOn, hp]
  cases o.ignoreCase with
  | true => simp
  | false =>
    simp only [Bool.false_eq_true, if_false, true_and, Expression.path.injEq]
    constructor
    · intro heq
      by_contra hfurther
      rw [Bool.not_eq_false] at hfurther
      exact resolvePath_diverges hnames hjoins hfurther heq.symm
    · intro hsame
      exact (congrArg Prod.fst (resolvePath_again hjoins (.inr hsame))).symm

/-! ### The order of a query -/

variable {d d' : Draft}

theorem orderExpression_sortedOn {item : OrderExpression}
    (h : c.orderExpression o d = .ok (item, d')) :
    d.query.joins <+: d'.query.joins ∧ ∀ q : SelectQuery, d'.query.joins <+: q.joins →
      item = ⟨c.sortedOn q o, o⟩ ∧ c.Joins q o.property := by
  unfold Creator.orderExpression at h
  obtain ⟨_, _, hcheck, h⟩ := bind_ok.1 h
  obtain ⟨-, rfl⟩ := lift_ok.1 hcheck
  obtain ⟨e, d₁, he, h⟩ := bind_ok.1 h
  obtain ⟨rfl, rfl⟩ := pure_ok.1 h
  unfold Creator.orderTarget at he
  unfold Creator.sortedOn Creator.Joins
  rcases hp : PropertyPath.ofSource c.metamodel c.entity o.property with f | p
  · rw [hp] at he
    dsimp only at he
    split at he
    next =>
      obtain ⟨rfl, rfl⟩ := pure_ok.1 he
      exact ⟨List.prefix_rfl, fun q _ => ⟨rfl, nofun⟩⟩
    next => exact (throw_ok.1 he).elim
  · rw [hp] at he
    obtain ⟨rfl, rfl⟩ := resolve_ok he
    refine ⟨(follow_extends true c.options.useForeignKey p.segments
      { query := d.query }).joins_mono, fun q hq => ?_⟩
    have hagain : resolvePath q p true c.options.useForeignKey =
        ((resolvePath d.query p true c.options.useForeignKey).1, q) :=
      resolvePath_again hq (.inl rfl)
    dsimp only
    refine ⟨by rw [hagain], ?_⟩
    rintro p' hp'
    rw [← Except.ok.inj hp', hagain]

theorem orders_sortedOn {orders : List Order} {items : List OrderExpression}
    (h : Runs c.orderExpression d orders items d') :
    d.query.joins <+: d'.query.joins ∧ ∀ q : SelectQuery, d'.query.joins <+: q.joins →
      items = orders.map (fun o => ⟨c.sortedOn q o, o⟩) ∧ ∀ o ∈ orders, c.Joins q o.property := by
  induction h with
  | nil d => exact ⟨List.prefix_rfl, fun q _ => ⟨rfl, by simp⟩⟩
  | cons hstep _ ih =>
    obtain ⟨hfirst, hitem⟩ := orderExpression_sortedOn hstep
    obtain ⟨hrest, hitems⟩ := ih
    refine ⟨hfirst.trans hrest, fun q hq => ?_⟩
    obtain ⟨rfl, hjoins⟩ := hitem q (hrest.trans hq)
    obtain ⟨rfl, hall⟩ := hitems q hq
    exact ⟨rfl, List.forall_mem_cons.2 ⟨hjoins, hall⟩⟩

/-! ### Conditions do not sort -/

theorem ignoresPaths_orders : IgnoresPaths fun d : Draft => d.query.orders := by
  intro d p forSelection optimize
  obtain ⟨js, n, hfollow⟩ := follow_extends forSelection optimize p.segments { query := d.query }
  unfold resolvePath
  dsimp only
  rw [hfollow]

section Conditions

variable {options : Options} {source : OperandSource} {part : Part}

theorem keeps_drawBinding (expected : Expected) :
    Keeps (fun d : Draft => d.query.orders) (drawBinding source part expected) := by
  intro d b d' h
  unfold drawBinding at h
  simp only [bind_ok, get_ok, set_ok, lift_ok, pure_ok] at h
  obtain ⟨_, _, ⟨rfl, rfl⟩, _, _, ⟨-, rfl⟩, _, _, rfl, -, rfl⟩ := h
  rfl

theorem keeps_placeholder (b : ParameterBinding) :
    Keeps (fun d : Draft => d.query.orders) (placeholder b) :=
  (keeps_lift _).bind fun _ => keeps_pure _

theorem keeps_drawOperand (expected : Expected) :
    Keeps (fun d : Draft => d.query.orders) (drawOperand source part expected) :=
  (keeps_drawBinding expected).bind keeps_placeholder

theorem keeps_pattern (e : Expression) :
    Keeps (fun d : Draft => d.query.orders) (pattern options source part e) :=
  (keeps_drawOperand _).bind fun _ => (keeps_lift _).bind fun _ => keeps_pure _

theorem keeps_comparison (e : Expression) (operator : String) :
    Keeps (fun d : Draft => d.query.orders) (comparison source part e operator) :=
  (keeps_drawOperand _).bind fun _ => keeps_pure _

theorem keeps_equality (e e' : Expression) :
    Keeps (fun d : Draft => d.query.orders) (equality options source part e e') := by
  refine (keeps_drawBinding _).bind fun b => ?_
  dsimp only
  split
  · exact keeps_pure _
  · exact (keeps_placeholder b).bind fun _ => (keeps_lift _).bind fun _ => keeps_pure _

theorem keeps_condition (options : Options) (source : OperandSource) (part : Part) :
    Keeps (fun d : Draft => d.query.orders) (condition options source part) := by
  unfold condition
  refine Keeps.ite_bind (keeps_pure _) (keeps_resolve ignoresPaths_orders _ _ _) fun path =>
    (keeps_lift _).bind fun same => ?_
  cases part.operator with
  | between =>
    exact (keeps_drawOperand _).bind fun _ => (keeps_drawOperand _).bind fun _ => keeps_pure _
  | after | greaterThan | greaterThanEqual | before | lessThan | lessThanEqual =>
    exact keeps_comparison path _
  | «in» | notIn => exact (keeps_drawOperand _).bind fun _ => keeps_pure _
  | startingWith | endingWith | containing | notContaining =>
    dsimp only
    split
    · exact (keeps_drawOperand _).bind fun _ => keeps_pure _
    · exact keeps_pattern same
  | like | notLike => exact keeps_pattern same
  | simpleProperty | negatingSimpleProperty => exact keeps_equality path same
  | isEmpty | isNotEmpty =>
    dsimp only
    split
    · exact keeps_pure _
    · exact keeps_throw _
  | isNull | isNotNull | «true» | «false» => exact keeps_pure _
  | near | within | regex | «exists» => exact keeps_throw _

theorem keeps_disjunction (alternatives : List (List Part)) :
    Keeps (fun d : Draft => d.query.orders) (disjunction options source alternatives) :=
  (keeps_mapM fun _ _ => (keeps_mapM fun _ _ => keeps_condition _ _ _).bind fun _ =>
    keeps_pure _).bind fun _ => keeps_pure _

end Conditions

/-- A query is sorted for its orders, unless it counts or deletes. -/
theorem createSorted_sortedOn {sort : Sorting} {created : Created}
    (h : c.createSorted sort = .ok created) (hq : created.query.joins <+: q.joins) :
    if c.counts || c.method.isDelete then created.query.orders = []
    else created.query.orders = sort.orders.map (fun o => ⟨c.sortedOn q o, o⟩) ∧
      ∀ o ∈ sort.orders, c.Joins q o.property := by
  obtain ⟨d, rfl, hbuild⟩ := createSorted_ok.1 h
  unfold Creator.build at hbuild
  obtain ⟨predicate, d₁, hpredicate, hbuild⟩ := bind_ok.1 hbuild
  obtain ⟨selection, d₂, hselection, hbuild⟩ := bind_ok.1 hbuild
  obtain ⟨_, d₃, hmodify, hbuild⟩ := bind_ok.1 hbuild
  split at hbuild
  next hsorted =>
    rw [if_neg (by simpa using hsorted)]
    obtain ⟨items, d₄, hitems, hmodify⟩ := bind_ok.1 hbuild
    obtain rfl := modify_ok.1 hmodify
    exact (orders_sortedOn (mapM_ok.1 hitems)).2 q hq
  next hsorted =>
    rw [if_pos (by revert hsorted; cases c.counts <;> simp)]
    obtain ⟨-, rfl⟩ := pure_ok.1 hbuild
    obtain rfl := modify_ok.1 hmodify
    exact (keeps_selection ignoresPaths_orders hselection).trans (keeps_disjunction _ hpredicate)

/-! ### The comparisons of a cursor -/

variable {cursor : Cursor} {bs : List ParameterBinding}

/-- A comparison of an expression with the key of a cursor, for which a parameter is bound unless it
is a test for null. -/
inductive Tests (cursor : Cursor) (bs : List ParameterBinding) (e : Expression) :
    Order × Bool → Predicate → Prop
  | null {o : Order} (hv : cursor.get? o.property = some .null) :
    Tests cursor bs e (o, true) (.is e "NULL")
  | value {o : Order} {isEqual : Bool} {v : Value} {n : Nat} {name : String}
    (hv : cursor.get? o.property = some v) (hnull : isEqual = true → v.isNull = false)
    (hb : { identifier := .indexed n, origin := .synthetic v name } ∈ bs) :
    Tests cursor bs e (o, isEqual) (.compare e (cursorOperator o isEqual) (.parameter n))

theorem Tests.mono {bs' : List ParameterBinding} {e : Expression} {comparison : Order × Bool}
    {p : Predicate} (h : Tests cursor bs e comparison p) (hbs : bs <+: bs') :
    Tests cursor bs' e comparison p := by
  cases h with
  | null hv => exact .null hv
  | value hv hnull hb => exact .value hv hnull (hbs.subset hb)

variable {k k' : KeysetDraft}

theorem comparisonWith_tests {isEqual : Bool} {p : Predicate}
    (h : comparisonWith cursor (KeysetDraft.adapter c.metamodel c.entity c.options) (o, isEqual) k =
      .ok (p, k')) :
    k.query.Extends k'.query ∧ k.bindings <+: k'.bindings ∧
      (∃ path, PropertyPath.ofSource c.metamodel c.entity o.property = .ok path) ∧
      ∀ q : SelectQuery, k'.query.joins <+: q.joins →
        Tests cursor k'.bindings (c.comparedOn q o.property) (o, isEqual) p := by
  obtain ⟨e, v, k₁, he, hv, hcases⟩ := comparisonWith_ok h
  unfold KeysetDraft.expression at he
  simp only [bind_ok, get_ok, set_ok, lift_ok, pure_ok] at he
  obtain ⟨path, _, ⟨hp, rfl⟩, _, _, ⟨rfl, rfl⟩, _, _, rfl, rfl, rfl⟩ := he
  have hextends := follow_extends false c.options.useForeignKey path.segments { query := k.query }
  have hsame (q : SelectQuery)
      (hq : (resolvePath k.query path false c.options.useForeignKey).2.joins <+: q.joins) :
      c.comparedOn q o.property =
        .path (resolvePath k.query path false c.options.useForeignKey).1 := by
    rw [Creator.comparedOn, hp]
    dsimp only
    rw [resolvePath_again hq (.inl rfl)]
  rcases hcases with ⟨rfl, rfl, rfl, rfl⟩ | ⟨hnull, rfl, rfl⟩
  · refine ⟨hextends, List.prefix_rfl, ⟨path, hp⟩, fun q hq => ?_⟩
    rw [hsame q hq]
    exact .null hv
  · refine ⟨hextends, List.prefix_append _ _, ⟨path, hp⟩, fun q hq => ?_⟩
    rw [hsame q hq]
    exact .value hv hnull (List.mem_append_right _ List.mem_cons_self)

/-- Comparisons with a cursor only add joins and bindings. -/
theorem comparisons_test {comparisons : List (Order × Bool)} {ps : List Predicate}
    (h : Runs (comparisonWith cursor (KeysetDraft.adapter c.metamodel c.entity c.options)) k
      comparisons ps k') :
    k.query.Extends k'.query ∧ k.bindings <+: k'.bindings ∧
      (∀ comparison ∈ comparisons,
        ∃ path, PropertyPath.ofSource c.metamodel c.entity comparison.1.property = .ok path) ∧
      ∀ q : SelectQuery, k'.query.joins <+: q.joins →
        List.Forall₂ (fun comparison p =>
          Tests cursor k'.bindings (c.comparedOn q comparison.1.property) comparison p)
          comparisons ps := by
  induction h with
  | nil k => exact ⟨.refl _, List.prefix_rfl, by simp, fun q _ => .nil⟩
  | cons hstep _ ih =>
    obtain ⟨hextends, hbindings, hpath, htest⟩ := comparisonWith_tests hstep
    obtain ⟨hextends', hbindings', hpaths, htests⟩ := ih
    refine ⟨hextends.trans hextends', hbindings.trans hbindings',
      List.forall_mem_cons.2 ⟨hpath, hpaths⟩, fun q hq => ?_⟩
    exact .cons ((htest q (hextends'.joins_mono.trans hq)).mono hbindings') (htests q hq)

/-! ### Truth -/

variable {compare : Value → Value → Ordering} {row last : Expression → Value}

/-- The value of an expression compares with the key of a cursor as it is to. -/
def Fits (cursor : Cursor) (compare : Value → Value → Ordering) (w : Value) : Order × Bool → Prop
  | (o, true) => ∃ v, cursor.get? o.property = some v ∧ w.Agrees compare v
  | (o, false) => ∃ v, cursor.get? o.property = some v ∧ w.Beyond compare o.direction v

/-- The values of parameters are those bound for a cursor. -/
def Supplies (row : Expression → Value) (bs : List ParameterBinding) : Prop :=
  ∀ n v name, { identifier := .indexed n, origin := .synthetic v name } ∈ bs →
    row (.parameter n) = v

theorem Tests.truth {e : Expression} {comparison : Order × Bool} {p : Predicate}
    (h : Tests cursor bs e comparison p) (hrow : Supplies row bs) :
    ∃ t, p.truth? compare (some ∘ row) = some t ∧
      (t = .true ↔ Fits cursor compare (row e) comparison) := by
  cases h with
  | null hv =>
    refine ⟨_, rfl, Truth.ofBool_eq_true.trans ?_⟩
    simp [Fits, hv, Value.Agrees, Value.isNull]
  | @value o isEqual v n name hv hnull hb =>
    have hparameter := hrow n v name hb
    cases isEqual with
    | true =>
      refine ⟨.compared compare (row e) v .eq, by rw [← hparameter]; rfl, ?_⟩
      have hequal : Truth.equal compare (row e) v = .true ↔ (row e).Agrees compare v :=
        Truth.equal_eq_true
      rw [Truth.equal, if_neg (by simp [hnull rfl])] at hequal
      simp [Fits, hv, hequal]
    | false =>
      refine ⟨.compared compare (row e) v (if o.isAscending then .gt else .lt), ?_, ?_⟩
      · rw [← hparameter]
        cases hascending : o.isAscending <;>
          simp [Predicate.truth?, cursorOperator, hascending, orderingOf?]
      · rw [Truth.compared_eq_true]
        simp [Fits, hv]

theorem truth?_and_tests {on : Order → Expression} {comparisons : List (Order × Bool)}
    {ps : List Predicate} (hne : comparisons ≠ [])
    (h : List.Forall₂ (fun comparison p => Tests cursor bs (on comparison.1) comparison p)
      comparisons ps) (hrow : Supplies row bs) :
    ∃ t, (KeysetDraft.and ps).truth? compare (some ∘ row) = some t ∧ (t = .true ↔
      ∀ comparison ∈ comparisons, Fits cursor compare (row (on comparison.1)) comparison) := by
  have hfacts : List.Forall₂ (fun p fact => ∃ t, p.truth? compare (some ∘ row) = some t ∧
      (t = .true ↔ fact)) ps
      (comparisons.map fun comparison => Fits cursor compare (row (on comparison.1)) comparison) :=
    List.forall₂_map_right_iff.2 (List.Forall₂.flip (h.imp fun _ _ htest => htest.truth hrow))
  obtain ⟨ts, hts, hall, -⟩ := Truth.exists_truths hfacts
  have hps : ps ≠ [] := by
    rintro rfl
    exact hne (List.forall₂_nil_right_iff.1 h)
  exact ⟨_, KeysetDraft.truth?_and hps hts, hall.trans List.forall_mem_map⟩

/-- The comparisons of a cursor hold for a row that fits in all comparisons of one of their rows. -/
theorem truth?_cursorPredicate (compare : Value → Value → Ordering) (on : Order → Expression)
    {comparisons : List (List (Order × Bool))} {rows : List (List Predicate)}
    (hne : ∀ cs ∈ comparisons, cs ≠ [])
    (h : List.Forall₂ (List.Forall₂ fun comparison p =>
      Tests cursor bs (on comparison.1) comparison p) comparisons rows)
    (hrow : Supplies row bs) {k : Predicate} (hk : cursorPredicate rows = some k) :
    ∃ t, k.truth? compare (some ∘ row) = some t ∧ (t = .true ↔ ∃ cs ∈ comparisons,
      ∀ comparison ∈ cs, Fits cursor compare (row (on comparison.1)) comparison) := by
  unfold cursorPredicate at hk
  split at hk
  next => cases hk
  next hrows =>
    obtain rfl := Option.some.inj hk
    have hfacts : List.Forall₂ (fun p fact => ∃ t, p.truth? compare (some ∘ row) = some t ∧
        (t = .true ↔ fact)) (rows.map KeysetDraft.and) (comparisons.map fun cs =>
          ∀ comparison ∈ cs, Fits cursor compare (row (on comparison.1)) comparison) := by
      clear hk hrows
      induction h with
      | nil => exact .nil
      | cons hfirst _ ih =>
        obtain ⟨hcs, hrest⟩ := List.forall_mem_cons.1 hne
        exact .cons (truth?_and_tests hcs hfirst hrow) (ih hrest)
    obtain ⟨ts, hts, -, hany⟩ := Truth.exists_truths hfacts
    refine ⟨_, KeysetDraft.truth?_or (by simpa using hrows) hts, hany.trans ⟨?_, ?_⟩⟩
    · rintro ⟨_, hmem, hfits⟩
      obtain ⟨cs, hcs, rfl⟩ := List.mem_map.1 hmem
      exact ⟨cs, hcs, hfits⟩
    · rintro ⟨cs, hcs, hfits⟩
      exact ⟨_, List.mem_map_of_mem hcs, hfits⟩

/-! ### Rows in order -/

/-- How a query orders rows, which are given by the values of expressions in them. -/
def SelectQuery.rowOrder (q : SelectQuery) (compare : Value → Value → Ordering) :
    (Expression → Value) → (Expression → Value) → Ordering :=
  lexicographic <| q.orders.map fun item r s =>
    item.order.direction.compare compare (r item.expression) (s item.expression)

theorem SelectQuery.rowOrder_eq {on : Order → Expression} {orders : List Order}
    (h : q.orders = orders.map fun o => ⟨on o, o⟩) :
    q.rowOrder compare = lexicographic (orders.map fun o r s =>
      o.direction.compare compare (r (on o)) (s (on o))) := by
  rw [SelectQuery.rowOrder, h, List.map_map]
  rfl

theorem lexicographic_eq_lt {α ρ : Type} {f : α → ρ → ρ → Ordering} {xs : List α} {r s : ρ} :
    lexicographic (xs.map f) r s = .lt ↔
      ∃ leading x after, xs = leading ++ x :: after ∧ (∀ y ∈ leading, f y r s = .eq) ∧
        f x r s = .lt := by
  induction xs with
  | nil => simp [lexicographic]
  | cons x xs ih =>
    rw [List.map_cons, lexicographic, Ordering.then_eq_lt, ih]
    constructor
    · rintro (h | ⟨heq, leading, y, after, rfl, h⟩)
      · exact ⟨[], x, xs, rfl, by simp, h⟩
      · exact ⟨x :: leading, y, after, rfl, List.forall_mem_cons.2 ⟨heq, h.1⟩, h.2⟩
    · rintro ⟨leading, y, after, hxs, hleading, h⟩
      cases leading with
      | nil =>
        obtain ⟨rfl, rfl⟩ := List.cons.inj hxs
        exact .inl h
      | cons x' leading =>
        obtain ⟨rfl, rfl⟩ := List.cons.inj hxs
        obtain ⟨heq, hleading⟩ := List.forall_mem_cons.1 hleading
        exact .inr ⟨heq, leading, y, after, rfl, hleading, h⟩

section Oriented

variable [Std.OrientedCmp compare] {v w : Value}

theorem fits_equality (hv : cursor.get? o.property = some v) (hnull : v.isNull = false)
    (hw : w.isNull = false) :
    Fits cursor compare w (o, true) ↔ o.direction.compare compare v w = .eq := by
  have hagrees : Fits cursor compare w (o, true) ↔ compare w v = .eq := by
    simp [Fits, hv, Value.Agrees, hnull, hw]
  rw [hagrees]
  cases o.direction with
  | asc => exact Std.OrientedCmp.eq_comm
  | desc => exact Iff.rfl

theorem fits_comparison (hv : cursor.get? o.property = some v) (hnull : v.isNull = false)
    (hw : w.isNull = false) :
    Fits cursor compare w (o, false) ↔ o.direction.compare compare v w = .lt := by
  have hbeyond : Fits cursor compare w (o, false) ↔ w.Beyond compare o.direction v := by
    simp [Fits, hv]
  rw [hbeyond]
  cases o.direction with
  | asc => simpa [Value.Beyond, hnull, hw, Direction.compare] using Std.OrientedCmp.gt_iff_lt
  | desc => simp [Value.Beyond, hnull, hw, Direction.compare]

/-- The comparisons of a cursor that is taken from a row fit the rows behind it. -/
theorem fits_iff_behind {on : Order → Expression} {orders : List Order}
    (hlast : ∀ o ∈ orders, cursor.get? o.property = some (last (on o)) ∧
      (last (on o)).isNull = false ∧ (row (on o)).isNull = false) :
    (∃ cs ∈ cursorRows [] orders, ∀ comparison ∈ cs,
        Fits cursor compare (row (on comparison.1)) comparison) ↔
      lexicographic (orders.map fun o r s => o.direction.compare compare (r (on o)) (s (on o)))
        last row = .lt := by
  rw [lexicographic_eq_lt]
  refine (exists_mem_cursorRows [] orders).trans ?_
  refine exists_congr fun leading => exists_congr fun o => exists_congr fun after =>
    and_congr_right fun horders => ?_
  subst horders
  refine and_congr ?_ ?_
  · refine forall₂_congr fun o' ho' => ?_
    obtain ⟨hv, hnull, hw⟩ := hlast o' (by simpa using .inl ho')
    exact fits_equality hv hnull hw
  · obtain ⟨hv, hnull, hw⟩ := hlast o (by simp)
    exact fits_comparison hv hnull hw

/-- The comparisons of a cursor that is taken from a row hold for the rows that a query puts behind
it, if the query sorts on the expressions that they compare. -/
theorem truth?_iff_behind {on : Order → Expression} {orders : List Order}
    {rows : List (List Predicate)} (horders : q.orders = orders.map fun o => ⟨on o, o⟩)
    (h : List.Forall₂ (List.Forall₂ fun comparison p =>
      Tests cursor bs (on comparison.1) comparison p) (cursorRows [] orders) rows)
    (hvalues : ∀ item ∈ q.orders,
      cursor.get? item.order.property = some (last item.expression) ∧
        (last item.expression).isNull = false ∧ (row item.expression).isNull = false)
    (hrow : Supplies row bs) {k : Predicate} (hk : cursorPredicate rows = some k) :
    ∃ t, k.truth? compare (some ∘ row) = some t ∧
      (t = .true ↔ q.rowOrder compare last row = .lt) := by
  rw [horders, List.forall_mem_map] at hvalues
  obtain ⟨t, ht, htrue⟩ := truth?_cursorPredicate compare on (cursorRows_ne_nil [] orders) h hrow hk
  rw [SelectQuery.rowOrder_eq horders]
  exact ⟨t, ht, htrue.trans (fits_iff_behind hvalues)⟩

end Oriented

/-! ### Whole queries -/

/-- Lists of lists of the same lengths are related if their elements are. -/
theorem forall₂_of_flatten {α β : Type} {R : α → β → Prop} {xss : List (List α)}
    {yss : List (List β)} (hlengths : yss.map List.length = xss.map List.length)
    (h : List.Forall₂ R xss.flatten yss.flatten) : List.Forall₂ (List.Forall₂ R) xss yss := by
  induction xss generalizing yss with
  | nil =>
    obtain rfl : yss = [] := by simpa using hlengths
    exact .nil
  | cons xs xss ih =>
    cases yss with
    | nil => cases hlengths
    | cons ys yss =>
      obtain ⟨hlength, hrest⟩ := List.cons.inj hlengths
      rw [List.flatten_cons, List.flatten_cons] at h
      have hfirst := List.forall₂_take_append _ _ _ h
      have hothers := List.forall₂_drop_append _ _ _ h
      rw [List.take_left' hlength.symm] at hfirst
      rw [List.drop_left' hlength.symm] at hothers
      exact .cons hfirst (ih hrest hothers)

/-- The rows of comparisons that are made are not empty. -/
theorem rowsOf_of_predicate {sort : Sorting} {rows : List (List Predicate)} {k : Predicate}
    (hlengths : rows.map List.length = (rowsOf cursor sort).map List.length)
    (hk : cursorPredicate rows = some k) : rowsOf cursor sort = cursorRows [] sort.orders := by
  unfold rowsOf at hlengths ⊢
  split
  next hinitial =>
    rw [if_pos hinitial] at hlengths
    obtain rfl : rows = [] := by simpa using hlengths
    cases hk
  next => rfl

/-- A cursor tests one expression for an order, and the query behind it sorts on one. They are the
same just if the order regards case and makes no join that a predicate would not make. If they are
the same for all orders, the cursor of a row keeps the rows that the query puts behind that row. -/
theorem createKeyset_sorts_as_compared {sort : Sorting} {created : Created}
    (h : c.createKeyset cursor sort = .ok created) :
    ∃ (base : Created) (ks : List ParameterBinding) (rows : List (List Predicate)),
      c.createSorted (c.keysetSort cursor sort) = .ok base ∧
      created.query.predicate = together base.query.predicate (cursorPredicate rows) ∧
      created.bindings = base.bindings ++ ks ∧
      created.query.orders.map (·.order) =
        (if c.counts || c.method.isDelete then [] else (c.keysetSort cursor sort).orders) ∧
      List.Forall₂ (List.Forall₂ fun comparison p => ∃ e, Tests cursor ks e comparison p ∧
          ∀ item ∈ created.query.orders, item.order = comparison.1 →
            (e = item.expression ↔ c.SortsAsCompared comparison.1))
        (rowsOf cursor (c.keysetSort cursor sort)) rows ∧
      (c.counts = false → c.method.isDelete = false →
        (∀ o ∈ (c.keysetSort cursor sort).orders, c.SortsAsCompared o) →
        ∀ (compare : Value → Value → Ordering) [Std.OrientedCmp compare]
          (last row : Expression → Value),
          (∀ item ∈ created.query.orders,
            cursor.get? item.order.property = some (last item.expression) ∧
            (last item.expression).isNull = false ∧ (row item.expression).isNull = false) →
          Supplies row ks → ∀ k, cursorPredicate rows = some k →
            ∃ t, k.truth? compare (some ∘ row) = some t ∧
              (t = .true ↔ created.query.rowOrder compare last row = .lt)) := by
  obtain ⟨base, d, rows, hbase, rfl, hlengths, hruns⟩ := createKeyset_runs h
  obtain ⟨⟨js, n, hd⟩, -, hpaths, htests⟩ := comparisons_test hruns
  have htests := htests d.query List.prefix_rfl
  have hsorted := createSorted_sortedOn (q := d.query) hbase (by
    rw [hd]
    exact List.prefix_append _ _)
  have horders : d.query.orders = base.query.orders := by rw [hd]
  have hpredicate : d.query.predicate = base.query.predicate := by rw [hd]
  rw [← horders] at hsorted
  refine ⟨base, d.bindings, rows, hbase, by rw [hpredicate], rfl, ?_, ?_, ?_⟩
  · dsimp only
    split at hsorted
    next hunsorted => rw [hsorted, List.map_nil, if_pos hunsorted]
    next hkept =>
      rw [hsorted.1, List.map_map, if_neg hkept]
      exact List.map_id _
  · refine forall₂_of_flatten hlengths (((List.forall₂_and_left _ _).2 ⟨hpaths, htests⟩).imp ?_)
    rintro comparison p ⟨⟨path, hpath⟩, htest⟩
    refine ⟨_, htest, fun item hitem horder => ?_⟩
    have hitem : item ∈ d.query.orders := hitem
    split at hsorted
    next =>
      rw [hsorted] at hitem
      cases hitem
    next =>
      obtain ⟨hitems, hjoins⟩ := hsorted
      obtain ⟨o, ho, rfl⟩ := List.mem_map.1 (hitems ▸ hitem)
      obtain rfl : o = comparison.1 := horder
      exact eq_comm.trans (sortedOn_eq_comparedOn_iff hpath (hjoins _ ho))
  · intro hcounts hdelete hall compare _ last row hvalues hrow k hk
    rw [hcounts, hdelete] at hsorted
    obtain ⟨hitems, hjoins⟩ := hsorted
    have hsame : d.query.orders = (c.keysetSort cursor sort).orders.map fun o =>
        ⟨c.comparedOn d.query o.property, o⟩ := by
      rw [hitems]
      refine List.map_congr_left fun o ho => ?_
      obtain ⟨_, path, hpath, -⟩ := hall o ho
      rw [(sortedOn_eq_comparedOn_iff hpath (hjoins o ho)).2 (hall o ho)]
    have htests := forall₂_of_flatten hlengths htests
    rw [rowsOf_of_predicate hlengths hk] at htests
    exact truth?_iff_behind hsame htests hvalues hrow hk

/-! ### Employees by their names -/

def employee : ManagedType :=
  { name := "app.Employee", entityName := "Employee", isEntity := true
    attributes := [.id "id" .long, .basic "name" .string] }

/-- Behind the employee `b` with the identifier 2. -/
def behindEmployee : Cursor := ⟨[("name", .text "b"), ("id", .int 2)], .forward⟩

def employeeName : Expression := .path ⟨.root, "name", "name"⟩

def employeeId : Expression := .path ⟨.root, "id", "id"⟩

/-- The comparisons with the employee. -/
def employeeComparisons : Predicate :=
  .or (.nested (.compare employeeName ">" (.parameter 1)))
    (.nested (.and (.compare employeeName "=" (.parameter 2))
      (.compare employeeId ">" (.parameter 3))))

/-- The values of an employee, and of the parameters that are bound for the cursor. -/
def employeeRow (name : String) (id : Int) : Expression → Value
  | .path e => if e.path = "name" then .text name else .int id
  | .parameter n => if n < 3 then .text "b" else .int 2
  | .literal text => .text text
  | .function _ _ => .text (Text.toUpper name)

instance : Std.OrientedCmp Value.compare where
  eq_swap {v w} := by
    cases v <;> cases w <;>
      first
        | rfl
        | exact Std.OrientedOrd.eq_swap

/-- All employees. -/
def employees : DerivedQuery :=
  { method := {}, entity := employee, metamodel := ⟨[employee]⟩, parameters := ⟨"findAllBy", []⟩ }

theorem create_employees :
    DerivedQuery.create "findAllBy" "app.Employee" ⟨[employee]⟩ ⟨"findAllBy", []⟩ =
      .ok employees := by
  cbv

/-- The query of the employees behind the one, by their names. -/
def queryBehindEmployee (ignoreCase : Bool) : SelectQuery :=
  { entityName := "Employee", aliasName := "e"
    predicate := some employeeComparisons
    orders := [
      ⟨if ignoreCase then .function "UPPER" employeeName else employeeName,
        { property := "name", ignoreCase }⟩,
      ⟨employeeId, { property := "id" }⟩] }

def employeeBindings : List ParameterBinding :=
  [{ identifier := .indexed 1, origin := .synthetic (.text "b") "name" },
    { identifier := .indexed 2, origin := .synthetic (.text "b") "name" },
    { identifier := .indexed 3, origin := .synthetic (.int 2) "id" }]

theorem createKeyset_employees (ignoreCase : Bool) :
    (employees.creator none false).createKeyset behindEmployee
        ⟨[{ property := "name", ignoreCase }]⟩ =
      .ok ⟨queryBehindEmployee ignoreCase, employeeBindings⟩ := by
  cases ignoreCase <;> cbv

theorem supplies_employees (name : String) (id : Int) :
    Supplies (employeeRow name id) employeeBindings := by
  intro n v source h
  simp only [employeeBindings, List.mem_cons, List.not_mem_nil, or_false,
    ParameterBinding.mk.injEq, BindingIdentifier.indexed.injEq, ParameterOrigin.synthetic.injEq] at h
  rcases h with ⟨rfl, ⟨rfl, -⟩, -⟩ | ⟨rfl, ⟨rfl, -⟩, -⟩ | ⟨rfl, ⟨rfl, -⟩, -⟩ <;> rfl

/-- The comparisons are those of the cursor alone, as the method name has no conditions. -/
theorem eq_of_together {own : Option Predicate} {rows : List (List Predicate)} (hne : rows ≠ [])
    (h : some employeeComparisons = together own (cursorPredicate rows)) :
    cursorPredicate rows = some employeeComparisons := by
  unfold cursorPredicate at h ⊢
  rw [if_neg (by simpa using hne)] at h ⊢
  cases own with
  | none => exact h.symm
  | some p => cases h

theorem sortsAsCompared_employees :
    ∀ o ∈ ((employees.creator none false).keysetSort behindEmployee
      ⟨[{ property := "name" }]⟩).orders, (employees.creator none false).SortsAsCompared o := by
  have horders : ((employees.creator none false).keysetSort behindEmployee
      ⟨[{ property := "name" }]⟩).orders = [{ property := "name" }, { property := "id" }] := by
    cbv
  have hname : PropertyPath.ofSource ⟨[employee]⟩ employee "name" =
      .ok ⟨[⟨"app.Employee", .basic "name" .string⟩], List.cons_ne_nil _ _⟩ := by cbv
  have hid : PropertyPath.ofSource ⟨[employee]⟩ employee "id" =
      .ok ⟨[⟨"app.Employee", .id "id" .long⟩], List.cons_ne_nil _ _⟩ := by cbv
  intro o ho
  rw [horders, List.mem_cons, List.mem_singleton] at ho
  rcases ho with rfl | rfl
  · exact ⟨rfl, _, hname, rfl⟩
  · exact ⟨rfl, _, hid, rfl⟩

/-- If case matters, the employee `c` comes behind `b` in the order of the query and is kept. -/
theorem createKeyset_keeps_employee :
    (queryBehindEmployee false).rowOrder Value.compare (employeeRow "b" 2) (employeeRow "c" 1) =
      .lt ∧
    employeeComparisons.truth? Value.compare (some ∘ employeeRow "c" 1) = some .true := by
  obtain ⟨base, ks, rows, -, hpredicate, hbindings, -, htests, hrows⟩ :=
    createKeyset_sorts_as_compared (createKeyset_employees false)
  have hne : rows ≠ [] := by
    rintro rfl
    cases htests
  have hbehind : (queryBehindEmployee false).rowOrder Value.compare (employeeRow "b" 2)
      (employeeRow "c" 1) = .lt := by
    decide
  have hvalues : ∀ item ∈ (queryBehindEmployee false).orders,
      behindEmployee.get? item.order.property = some (employeeRow "b" 2 item.expression) ∧
        (employeeRow "b" 2 item.expression).isNull = false ∧
        (employeeRow "c" 1 item.expression).isNull = false := by
    intro item hitem
    simp only [queryBehindEmployee, List.mem_cons, List.not_mem_nil, or_false] at hitem
    rcases hitem with rfl | rfl <;> exact ⟨rfl, rfl, rfl⟩
  have hbindings : employeeBindings = base.bindings ++ ks := hbindings
  have hsupplies : Supplies (employeeRow "c" 1) ks := fun n v source hb =>
    supplies_employees "c" 1 n v source (hbindings ▸ List.mem_append_right _ hb)
  obtain ⟨t, ht, htrue⟩ := hrows rfl rfl sortsAsCompared_employees Value.compare (employeeRow "b" 2)
    (employeeRow "c" 1) hvalues hsupplies employeeComparisons (eq_of_together hne hpredicate)
  exact ⟨hbehind, by rw [ht, htrue.2 hbehind]⟩

/-- If case is ignored, `C` comes behind `b` in the order of the query and is not kept. -/
theorem ignored_case_skips_employee :
    DerivedQuery.create "findAllBy" "app.Employee" ⟨[employee]⟩ ⟨"findAllBy", []⟩ = .ok employees ∧
    (employees.creator none false).createKeyset behindEmployee
        ⟨[{ property := "name", ignoreCase := true }]⟩ =
      .ok ⟨queryBehindEmployee true, employeeBindings⟩ ∧
    (queryBehindEmployee true).orders.map (·.expression) =
      [.function "UPPER" employeeName, employeeId] ∧
    (queryBehindEmployee true).predicate =
      some (.or (.nested (.compare employeeName ">" (.parameter 1)))
        (.nested (.and (.compare employeeName "=" (.parameter 2))
          (.compare employeeId ">" (.parameter 3))))) ∧
    Supplies (employeeRow "C" 1) employeeBindings ∧
    (queryBehindEmployee true).rowOrder Value.compare (employeeRow "b" 2) (employeeRow "C" 1) =
      .lt ∧
    employeeComparisons.truth? Value.compare (some ∘ employeeRow "C" 1) = some .false :=
  ⟨create_employees, createKeyset_employees true, rfl, rfl, supplies_employees "C" 1, by decide,
    by decide⟩

end Jpql.Derived
