import Jpql.Derived.Keyset
import Jpql.Proofs.Derived.Creation

/-! What a cursor adds to a query. It adds one row of comparisons for each order, with equalities on
the orders before and a comparison on the order itself. Each comparison reads the property of its
order and takes the next position for the value of the cursor; only an equality with null is a null
test and takes none. -/

namespace Jpql.Derived

open MethodName (OnAttributes)
open Step (bind_ok pure_ok get_ok set_ok lift_ok mapM_ok result_bind_ok Runs)

/-- The rows of comparisons of a cursor; the flag says that the comparison is an equality. -/
def cursorRows (before : List Order) : List Order → List (List (Order × Bool))
  | [] => []
  | o :: orders => (before.map (·, true) ++ [(o, false)]) :: cursorRows (before ++ [o]) orders

/-- Each order with the orders before it. -/
def withLeading (before : List Order) : List Order → List (List Order × Order)
  | [] => []
  | o :: orders => (before, o) :: withLeading (before ++ [o]) orders

theorem mem_withLeading {before orders : List Order} {c : List Order × Order} :
    c ∈ withLeading before orders ↔
      ∃ leading after, orders = leading ++ c.2 :: after ∧ c.1 = before ++ leading := by
  induction orders generalizing before with
  | nil => simp [withLeading]
  | cons o orders ih =>
    rw [withLeading, List.mem_cons, ih]
    constructor
    · rintro (rfl | ⟨leading, after, rfl, hbefore⟩)
      · exact ⟨[], orders, rfl, by simp⟩
      · exact ⟨o :: leading, after, rfl, by simpa using hbefore⟩
    · rintro ⟨leading, after, horders, hbefore⟩
      cases leading with
      | nil =>
        obtain ⟨rfl, rfl⟩ := List.cons.inj horders
        exact .inl (Prod.ext (by simpa using hbefore) rfl)
      | cons o₁ leading =>
        obtain ⟨rfl, rfl⟩ := List.cons.inj horders
        exact .inr ⟨leading, after, rfl, by simpa using hbefore⟩

theorem cursorRows_eq (before orders : List Order) :
    cursorRows before orders =
      (withLeading before orders).map fun c => c.1.map (·, true) ++ [(c.2, false)] := by
  induction orders generalizing before with
  | nil => rfl
  | cons o orders ih => rw [cursorRows, ih, withLeading, List.map_cons]

theorem cursorRows_ne_nil (before orders : List Order) :
    ∀ row ∈ cursorRows before orders, row ≠ [] := by
  rw [cursorRows_eq, List.forall_mem_map]
  simp

theorem mem_cursorRows (before orders : List Order) :
    ∀ c ∈ (cursorRows before orders).flatten, c.1 ∈ before ++ orders := by
  intro c hc
  rw [cursorRows_eq] at hc
  obtain ⟨_, hrow, hmem⟩ := List.mem_flatten.1 hc
  obtain ⟨⟨_, o⟩, hcut, rfl⟩ := List.mem_map.1 hrow
  obtain ⟨leading, after, rfl, rfl⟩ := mem_withLeading.1 hcut
  rcases List.mem_append.1 hmem with hbefore | hlast
  · obtain ⟨o', ho', rfl⟩ := List.mem_map.1 hbefore
    rw [← List.append_assoc]
    exact List.mem_append_left _ ho'
  · obtain rfl := List.mem_singleton.1 hlast
    simp

/-- Comparisons that all hold in some row hold as equalities up to an order on which one holds
itself. -/
theorem exists_mem_cursorRows {holds : Order × Bool → Prop} (before orders : List Order) :
    (∃ row ∈ cursorRows before orders, ∀ comparison ∈ row, holds comparison) ↔
      ∃ leading o after, orders = leading ++ o :: after ∧
        (∀ o' ∈ before ++ leading, holds (o', true)) ∧ holds (o, false) := by
  have hrow (c : List Order × Order) :
      (∀ comparison ∈ c.1.map (·, true) ++ [(c.2, false)], holds comparison) ↔
        (∀ o' ∈ c.1, holds (o', true)) ∧ holds (c.2, false) := by
    rw [List.forall_mem_append, List.forall_mem_map, List.forall_mem_singleton]
  rw [cursorRows_eq]
  constructor
  · rintro ⟨_, hmem, hall⟩
    obtain ⟨⟨_, o⟩, hcut, rfl⟩ := List.mem_map.1 hmem
    obtain ⟨leading, after, rfl, rfl⟩ := mem_withLeading.1 hcut
    exact ⟨leading, o, after, rfl, (hrow _).1 hall⟩
  · rintro ⟨leading, o, after, rfl, hall⟩
    have hcut := mem_withLeading (c := (before ++ leading, o)).2 ⟨leading, after, rfl, rfl⟩
    exact ⟨_, List.mem_map_of_mem hcut, (hrow _).2 hall⟩

def cursorOperator (o : Order) (isEqual : Bool) : String :=
  if isEqual then "=" else if o.isAscending then ">" else "<"

variable {m : Metamodel} {entity : ManagedType} {cursor : Cursor}

/-- The predicates of comparisons with a cursor, on expressions in `q` and with parameters behind
position `k`, and the bindings of these. -/
inductive CursorAtoms (m : Metamodel) (entity : ManagedType) (cursor : Cursor) (q : SelectQuery) :
    Nat → List (Order × Bool) → List Predicate → List ParameterBinding → Prop
  | nil (k : Nat) : CursorAtoms m entity cursor q k [] [] []
  | null {k : Nat} {o : Order} {p : PropertyPath} {e : PathExpression}
      {comparisons : List (Order × Bool)} {ps : List Predicate} {bs : List ParameterBinding}
      (hv : cursor.get? o.property = some .null)
      (hp : PropertyPath.ofSource m entity o.property = .ok p) (he : q.Leads e p)
      (hrest : CursorAtoms m entity cursor q k comparisons ps bs) :
      CursorAtoms m entity cursor q k ((o, true) :: comparisons) (.is (.path e) "NULL" :: ps) bs
  | value {k : Nat} {o : Order} {isEqual : Bool} {v : Value} {p : PropertyPath}
      {e : PathExpression} {comparisons : List (Order × Bool)} {ps : List Predicate}
      {bs : List ParameterBinding} (hv : cursor.get? o.property = some v)
      (hnull : isEqual = true → v.isNull = false)
      (hp : PropertyPath.ofSource m entity o.property = .ok p) (he : q.Leads e p)
      (hrest : CursorAtoms m entity cursor q (k + 1) comparisons ps bs) :
      CursorAtoms m entity cursor q k ((o, isEqual) :: comparisons)
        (.compare (.path e) (cursorOperator o isEqual) (.parameter (k + 1)) :: ps)
        ({ identifier := .indexed (k + 1), origin := .synthetic v e.name } :: bs)

namespace CursorAtoms

variable {q q' : SelectQuery} {k : Nat} {comparisons comparisons' : List (Order × Bool)}
  {ps ps' : List Predicate} {bs bs' : List ParameterBinding}

theorem mono (h : CursorAtoms m entity cursor q k comparisons ps bs)
    (hq : q.joins <+: q'.joins) : CursorAtoms m entity cursor q' k comparisons ps bs := by
  induction h with
  | nil k => exact .nil k
  | null hv hp he _ ih => exact .null hv hp (he.mono hq) ih
  | value hv hnull hp he _ ih => exact .value hv hnull hp (he.mono hq) ih

theorem append (h : CursorAtoms m entity cursor q k comparisons ps bs)
    (h' : CursorAtoms m entity cursor q (k + bs.length) comparisons' ps' bs') :
    CursorAtoms m entity cursor q k (comparisons ++ comparisons') (ps ++ ps') (bs ++ bs') := by
  induction h with
  | nil k => exact h'
  | null hv hp he _ ih => exact .null hv hp he (ih h')
  | value hv hnull hp he _ ih =>
    refine .value hv hnull hp he (ih ?_)
    rwa [Nat.add_assoc, Nat.add_comm 1]

theorem length_eq (h : CursorAtoms m entity cursor q k comparisons ps bs) :
    ps.length = comparisons.length := by
  induction h with
  | nil k => rfl
  | null _ _ _ _ ih => simp [ih]
  | value _ _ _ _ _ ih => simp [ih]

end CursorAtoms

/-! ### Building the predicate -/

/-- What building comparisons with a cursor does to a draft. -/
structure Compares (m : Metamodel) (entity : ManagedType) (cursor : Cursor)
    (comparisons : List (Order × Bool)) (d : KeysetDraft) (ps : List Predicate) (d' : KeysetDraft) :
    Prop where
  grows : Grows m d.query d'.query
  atoms : ∃ bs, d'.bindings = d.bindings ++ bs ∧ d'.position = d.position + bs.length ∧
    CursorAtoms m entity cursor d'.query d.position comparisons ps bs

variable {options : Options} {d d' d'' : KeysetDraft}

theorem Compares.refl (d : KeysetDraft) : Compares m entity cursor [] d [] d :=
  ⟨.refl, [], by simp, rfl, .nil _⟩

theorem Compares.append {comparisons comparisons' : List (Order × Bool)} {ps ps' : List Predicate}
    (hd : WellJoined d.query.joins) (h : Compares m entity cursor comparisons d ps d')
    (h' : Compares m entity cursor comparisons' d' ps' d'') :
    Compares m entity cursor (comparisons ++ comparisons') d (ps ++ ps') d'' := by
  obtain ⟨bs, hbs, hposition, hatoms⟩ := h.atoms
  obtain ⟨bs', hbs', hposition', hatoms'⟩ := h'.atoms
  have hmono := (h'.grows.spec (h.grows.spec hd).2).1.joins_mono
  refine ⟨h.grows.trans h'.grows, bs ++ bs', by rw [hbs', hbs, List.append_assoc], ?_, ?_⟩
  · rw [hposition', hposition, List.length_append, Nat.add_assoc]
  · exact (hatoms.mono hmono).append (hposition ▸ hatoms')

theorem keysetExpression_ok {property : String} {e : Expression}
    (hd : WellJoined d.query.joins)
    (h : KeysetDraft.expression m entity options property d = .ok (e, d')) :
    ∃ p path, PropertyPath.ofSource m entity property = .ok p ∧ e = .path path ∧
      d'.query.Leads path p ∧ Grows m d.query d'.query ∧ d'.bindings = d.bindings ∧
      d'.position = d.position := by
  unfold KeysetDraft.expression at h
  simp only [bind_ok, get_ok, set_ok, lift_ok, pure_ok] at h
  obtain ⟨p, _, ⟨hp, rfl⟩, _, _, ⟨rfl, rfl⟩, _, _, rfl, rfl, rfl⟩ := h
  have hattributes := PropertyPath.ofSource_isAttribute hp
  exact ⟨p, _, hp, rfl, (resolvePath_leads hd (fun s hs => (hattributes s hs).1) _ _).2.2,
    .follow .refl hattributes _ _, rfl, rfl⟩

theorem key_ok {property : String} {v : Value} (h : cursor.key property = .ok v) :
    cursor.get? property = some v := by
  unfold Cursor.key at h
  split at h
  next w hw =>
    obtain rfl : w = v := by injection h
    exact hw
  next => cases h

theorem always_ok {σ α : Type} {step : StateM σ α} {s s' : σ} {a : α} :
    Cursor.always step s = .ok (a, s') ↔ step s = (a, s') := by
  change (Except.ok (step s) : Result (α × σ)) = _ ↔ _
  simp

/-- A comparison with a cursor; the flag says that it is an equality. -/
def comparisonWith {σ ε π : Type} (cursor : Cursor) (a : PredicateAdapter σ ε π) :
    Order × Bool → StateT σ Result π
  | (o, true) => cursor.equality a o
  | (o, false) => cursor.comparison a o

/-- What a comparison does to a draft. -/
theorem comparisonWith_ok {o : Order} {isEqual : Bool} {p : Predicate}
    (h : comparisonWith cursor (KeysetDraft.adapter m entity options) (o, isEqual) d = .ok (p, d')) :
    ∃ e v d₁, KeysetDraft.expression m entity options o.property d = .ok (e, d₁) ∧
      cursor.get? o.property = some v ∧
      (isEqual = true ∧ v = .null ∧ p = .is e "NULL" ∧ d' = d₁ ∨
        (isEqual = true → v.isNull = false) ∧
          p = .compare e (cursorOperator o isEqual) (KeysetDraft.bindValue e v d₁).1 ∧
          d' = (KeysetDraft.bindValue e v d₁).2) := by
  cases isEqual with
  | true =>
    change cursor.equality _ o d = _ at h
    unfold Cursor.equality at h
    obtain ⟨v, _, hv, h⟩ := bind_ok.1 h
    obtain ⟨hkey, rfl⟩ := lift_ok.1 hv
    obtain ⟨e, d₁, he, h⟩ := bind_ok.1 h
    have hequal : KeysetDraft.equal e v d₁ = (p, d') := always_ok.1 h
    refine ⟨e, v, d₁, he, key_ok hkey, ?_⟩
    unfold KeysetDraft.equal at hequal
    split at hequal
    next hnull =>
      obtain ⟨rfl, rfl⟩ := Prod.mk.inj hequal
      obtain rfl : v = .null := by cases v <;> first | rfl | cases hnull
      exact .inl ⟨rfl, rfl, rfl, rfl⟩
    next hnull =>
      obtain ⟨rfl, rfl⟩ := Prod.mk.inj hequal
      exact .inr ⟨fun _ => by simpa using hnull, rfl, rfl⟩
  | false =>
    change cursor.comparison _ o d = _ at h
    unfold Cursor.comparison at h
    obtain ⟨v, _, hv, h⟩ := bind_ok.1 h
    obtain ⟨hkey, rfl⟩ := lift_ok.1 hv
    obtain ⟨e, d₁, he, h⟩ := bind_ok.1 h
    have hcompare : KeysetDraft.compare o e v d₁ = (p, d') := always_ok.1 h
    obtain ⟨rfl, rfl⟩ := Prod.mk.inj hcompare
    exact ⟨e, v, d₁, he, key_ok hkey, .inr ⟨nofun, rfl, rfl⟩⟩

theorem comparisonWith_compares {o : Order} {isEqual : Bool} {p : Predicate}
    (hd : WellJoined d.query.joins)
    (h : comparisonWith cursor (KeysetDraft.adapter m entity options) (o, isEqual) d = .ok (p, d')) :
    Compares m entity cursor [(o, isEqual)] d [p] d' := by
  obtain ⟨_, v, d₁, he, hv, hcases⟩ := comparisonWith_ok h
  obtain ⟨path, e, hpath, rfl, hleads, hgrows, hbs, hposition⟩ := keysetExpression_ok hd he
  rcases hcases with ⟨rfl, rfl, rfl, rfl⟩ | ⟨hnull, rfl, rfl⟩
  · exact ⟨hgrows, [], by simp [hbs], by simp [hposition], .null hv hpath hleads (.nil _)⟩
  · refine ⟨hgrows, [_], congrArg (· ++ _) hbs, congrArg (· + 1) hposition, ?_⟩
    rw [← hposition]
    exact .value hv hnull hpath hleads (.nil _)

theorem comparisons_compare {comparisons : List (Order × Bool)} {ps : List Predicate}
    (hd : WellJoined d.query.joins)
    (h : Runs (comparisonWith cursor (KeysetDraft.adapter m entity options)) d comparisons ps d') :
    Compares m entity cursor comparisons d ps d' := by
  induction h with
  | nil d => exact .refl d
  | cons hstep _ ih =>
    have hfirst := comparisonWith_compares hd hstep
    exact hfirst.append hd (ih (hfirst.grows.spec hd).2)

theorem disjunct_runs {before : List Order} {o : Order} {p : Predicate}
    (h : cursor.disjunct (KeysetDraft.adapter m entity options) before o d = .ok (p, d')) :
    ∃ ps, p = KeysetDraft.and ps ∧
      Runs (comparisonWith cursor (KeysetDraft.adapter m entity options)) d
        (before.map (·, true) ++ [(o, false)]) ps d' := by
  unfold Cursor.disjunct at h
  obtain ⟨equalities, d₁, hequalities, h⟩ := bind_ok.1 h
  obtain ⟨beyond, d₂, hbeyond, h⟩ := bind_ok.1 h
  have hand : (KeysetDraft.and (equalities ++ [beyond]), d₂) = (p, d') := always_ok.1 h
  obtain ⟨rfl, rfl⟩ := Prod.mk.inj hand
  have hruns : Runs (comparisonWith cursor (KeysetDraft.adapter m entity options)) d
      (before.map (·, true)) equalities d₁ :=
    Runs.map (mapM_ok.1 hequalities)
  exact ⟨_, rfl, hruns.append (.cons hbeyond (.nil _))⟩

theorem disjuncts_run {before orders : List Order} {ps : List Predicate}
    (h : cursor.disjuncts (KeysetDraft.adapter m entity options) before orders d = .ok (ps, d')) :
    ∃ rows : List (List Predicate), ps = rows.map KeysetDraft.and ∧
      rows.map List.length = (cursorRows before orders).map List.length ∧
      Runs (comparisonWith cursor (KeysetDraft.adapter m entity options)) d
        (cursorRows before orders).flatten rows.flatten d' := by
  induction orders generalizing before d ps with
  | nil =>
    obtain ⟨rfl, rfl⟩ := pure_ok.1 h
    exact ⟨[], rfl, rfl, .nil _⟩
  | cons o orders ih =>
    unfold Cursor.disjuncts at h
    obtain ⟨p, d₁, hp, h⟩ := bind_ok.1 h
    obtain ⟨rest, d₂, hrest, h⟩ := bind_ok.1 h
    obtain ⟨rfl, rfl⟩ := pure_ok.1 h
    obtain ⟨row, rfl, hrow⟩ := disjunct_runs hp
    obtain ⟨rows, rfl, hlengths, hrows⟩ := ih hrest
    refine ⟨row :: rows, rfl, ?_, hrow.append hrows⟩
    rw [List.map_cons, hlengths, hrow.length_eq]
    rfl

/-- The rows of comparisons that a cursor makes, none if all rows of the table lie behind it. -/
def rowsOf (cursor : Cursor) (sort : Sorting) : List (List (Order × Bool)) :=
  if cursor.isInitial then [] else cursorRows [] sort.orders

theorem rowsOf_ne_nil (cursor : Cursor) (sort : Sorting) : ∀ row ∈ rowsOf cursor sort, row ≠ [] := by
  unfold rowsOf
  split
  · simp
  · exact cursorRows_ne_nil [] sort.orders

/-- The predicate of rows of comparisons. -/
def cursorPredicate (rows : List (List Predicate)) : Option Predicate :=
  if rows.isEmpty then none else some (KeysetDraft.or (rows.map KeysetDraft.and))

/-- Building the predicate of a cursor makes its comparisons row by row. -/
theorem predicate_runs {sort : Sorting} {o : Option Predicate}
    (h : cursor.predicate sort (KeysetDraft.adapter m entity options) d = .ok (o, d')) :
    ∃ rows : List (List Predicate), o = cursorPredicate rows ∧
      rows.map List.length = (rowsOf cursor sort).map List.length ∧
      Runs (comparisonWith cursor (KeysetDraft.adapter m entity options)) d
        (rowsOf cursor sort).flatten rows.flatten d' := by
  unfold Cursor.predicate at h
  unfold rowsOf
  split at h
  next hinitial =>
    obtain ⟨rfl, rfl⟩ := pure_ok.1 h
    rw [if_pos hinitial]
    exact ⟨[], rfl, rfl, .nil _⟩
  next hinitial =>
    rw [if_neg hinitial]
    obtain ⟨ps, d₁, hps, h⟩ := bind_ok.1 h
    obtain ⟨rows, rfl, hlengths, hrows⟩ := disjuncts_run hps
    unfold cursorPredicate
    split at h
    next hempty =>
      obtain ⟨rfl, rfl⟩ := pure_ok.1 h
      exact ⟨rows, by rw [if_pos (by simpa using hempty)], hlengths, hrows⟩
    next hempty =>
      obtain ⟨k, d₂, hk, h⟩ := bind_ok.1 h
      have hor : (KeysetDraft.or (rows.map KeysetDraft.and), d₁) = (k, d₂) := always_ok.1 hk
      obtain ⟨rfl, rfl⟩ := Prod.mk.inj hor
      obtain ⟨rfl, rfl⟩ := pure_ok.1 h
      exact ⟨rows, by rw [if_neg (by simpa using hempty)], hlengths, hrows⟩

/-! ### Whole queries -/

/-- The predicate of a method name together with the one of a cursor. -/
def together : Option Predicate → Option Predicate → Option Predicate
  | some p, some k => some (.and p.parenthesized k.parenthesized)
  | none, some k => some k
  | p, none => p

/-- A query behind a cursor is one that is sorted for it, to which comparisons are added. -/
theorem createKeyset_runs {c : Creator} {sort : Sorting} {created : Created}
    (h : c.createKeyset cursor sort = .ok created) :
    ∃ (base : Created) (d : KeysetDraft) (rows : List (List Predicate)),
      c.createSorted (c.keysetSort cursor sort) = .ok base ∧
      created = ⟨{ d.query with predicate := together d.query.predicate (cursorPredicate rows) },
        base.bindings ++ d.bindings⟩ ∧
      rows.map List.length = (rowsOf cursor (c.keysetSort cursor sort)).map List.length ∧
      Runs (comparisonWith cursor (KeysetDraft.adapter c.metamodel c.entity c.options))
        ⟨base.query, base.bindings.length, []⟩
        (rowsOf cursor (c.keysetSort cursor sort)).flatten rows.flatten d := by
  unfold Creator.createKeyset at h
  obtain ⟨base, hbase, h⟩ := result_bind_ok.1 h
  rcases hp : cursor.predicate (c.keysetSort cursor sort) (KeysetDraft.adapter c.metamodel c.entity c.options)
    ⟨base.query, base.bindings.length, []⟩ with e | ⟨o, d⟩
  · simp only [StateT.run, bind, Except.bind, hp] at h
    cases h
  simp only [StateT.run, bind, Except.bind, hp] at h
  obtain ⟨rows, rfl, hlengths, hruns⟩ := predicate_runs hp
  refine ⟨base, d, rows, hbase, ?_, hlengths, hruns⟩
  obtain rfl := Except.ok.inj h
  congr 2
  rcases cursorPredicate rows with _ | k <;> rcases d.query.predicate with _ | p <;> rfl

/-- A query behind a cursor is one that is sorted for it, with the cursor's comparisons added. -/
theorem createKeyset_compares {c : Creator} {sort : Sorting} {created : Created}
    (hc : c.returned = .domain) (hm : OnAttributes c.metamodel c.method.parts)
    (hs : ∀ o ∈ (c.keysetSort cursor sort).orders, o.rawExpression = false)
    (h : c.createKeyset cursor sort = .ok created) :
    ∃ (base : Created) (q : SelectQuery) (rows : List (List Predicate))
      (bs : List ParameterBinding),
      Creates c (c.keysetSort cursor sort) base ∧ Grows c.metamodel base.query q ∧
      created = ⟨{ q with predicate := together base.query.predicate (cursorPredicate rows) },
        base.bindings ++ bs⟩ ∧
      rows.map List.length = (rowsOf cursor (c.keysetSort cursor sort)).map List.length ∧
      CursorAtoms c.metamodel c.entity cursor q base.bindings.length
        (rowsOf cursor (c.keysetSort cursor sort)).flatten rows.flatten bs := by
  obtain ⟨base, d, rows, hbase, rfl, hlengths, hruns⟩ := createKeyset_runs h
  have hcreates := createSorted_creates hc hm hs hbase
  have hcompares := comparisons_compare hcreates.joined.wellJoined hruns
  obtain ⟨bs, hbs, -, hatoms⟩ := hcompares.atoms
  obtain ⟨js, n, hq⟩ := (hcompares.grows.spec hcreates.joined.wellJoined).1
  have hpredicate : d.query.predicate = base.query.predicate := by rw [hq]
  refine ⟨base, d.query, rows, bs, hcreates, hcompares.grows, ?_, hlengths, hatoms⟩
  rw [hbs, hpredicate]
  rfl

end Jpql.Derived
