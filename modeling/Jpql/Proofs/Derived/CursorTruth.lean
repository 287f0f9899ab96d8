import Jpql.Proofs.Derived.Truth

/-! What the predicate of a cursor says of a row, nulls included. Each disjunct is true of the rows
that agree with the cursor on the orders before one order and lie beyond it on that order, so the
disjunction is true of the rows behind the cursor, order by order. A key that is missing is found out
before any predicate is returned. -/

namespace Jpql

open Step (bind_ok pure_ok lift_ok mapM_ok Runs)
open Derived (always_ok)

/-- Two values are equal, or both null. -/
def Value.Agrees (order : Value → Value → Ordering) (w v : Value) : Prop :=
  w.isNull = true ∧ v.isNull = true ∨
    w.isNull = false ∧ v.isNull = false ∧ order w v = .eq

/-- The first value lies strictly beyond the second in a direction; neither is null. -/
def Value.Beyond (order : Value → Value → Ordering) (d : Direction) (w v : Value) : Prop :=
  w.isNull = false ∧ v.isNull = false ∧
    order w v = match d with
      | .asc => .gt
      | .desc => .lt

theorem Truth.equal_eq_true {order : Value → Value → Ordering} {w v : Value} :
    Truth.equal order w v = .true ↔ w.Agrees order v := by
  unfold Truth.equal Truth.compared Value.Agrees
  cases v.isNull <;> cases w.isNull <;> simp

theorem Truth.compared_eq_true {order : Value → Value → Ordering} {w v : Value} {o : Order} :
    Truth.compared order w v (if o.isAscending then .gt else .lt) = .true ↔
      w.Beyond order o.direction v := by
  unfold Truth.compared Value.Beyond Order.isAscending
  cases v.isNull <;> cases w.isNull <;> cases o.direction <;> simp [Direction.isAscending]

/-- The truth values of predicates that say whether something is the case. -/
theorem Truth.exists_truths {π : Type} {truth : π → Option Truth} {ps : List π} {facts : List Prop}
    (h : List.Forall₂ (fun p fact => ∃ b, truth p = some b ∧ (b = .true ↔ fact)) ps facts) :
    ∃ bs : List Truth, ps.map truth = bs.map some ∧
      (all bs = .true ↔ ∀ fact ∈ facts, fact) ∧ (any bs = .true ↔ ∃ fact ∈ facts, fact) := by
  induction h with
  | nil => exact ⟨[], rfl, by simp [all], by simp [any]⟩
  | cons hp _ ih =>
    obtain ⟨b, hb, hfact⟩ := hp
    obtain ⟨bs, hbs, hall, hany⟩ := ih
    rw [all_eq_true] at hall
    rw [any_eq_true] at hany
    refine ⟨b :: bs, by simp [hb, hbs], ?_, ?_⟩
    · rw [all_eq_true, List.forall_mem_cons, List.forall_mem_cons, hfact, hall]
    · rw [any_eq_true, List.exists_mem_cons_iff, List.exists_mem_cons_iff, hfact, hany]

namespace Reading

variable {σ ε π ρ : Type} {a : PredicateAdapter σ ε π} (R : Reading a ρ)

/-- In a state, the predicate has a truth value for each row, and is true of those in `f`. -/
def TrueOf (s : σ) (p : π) (f : ρ → Prop) : Prop :=
  ∀ row, ∃ b, R.truth s p row = some b ∧ (b = .true ↔ f row)

/-- From a valid state, the step leads to a later one with a predicate that is true of the rows
in `f`. -/
def Yields (step : StateT σ Result π) (f : ρ → Prop) : Prop :=
  ∀ s, R.Valid s → ∃ p t, step s = .ok (p, t) ∧ R.Valid t ∧ R.Later s t ∧ R.TrueOf t p f

/-- The adapter has an expression for the property. -/
def Expresses (property : String) : Prop :=
  ∀ s, R.Valid s → ∃ e t, a.expression property s = .ok (e, t)

variable {R}

theorem TrueOf.later {s t : σ} {p : π} {f : ρ → Prop} (h : R.TrueOf s p f) (hst : R.Later s t) :
    R.TrueOf t p f := by
  intro row
  obtain ⟨b, hb, hf⟩ := h row
  exact ⟨b, R.truth_later hst hb, hf⟩

theorem truths_of_trueOf {s : σ} {ps : List π} {fs : List (ρ → Prop)}
    (h : List.Forall₂ (R.TrueOf s) ps fs) (row : ρ) :
    List.Forall₂ (fun p fact => ∃ b, R.truth s p row = some b ∧ (b = .true ↔ fact)) ps
      (fs.map (· row)) :=
  List.forall₂_map_right_iff.2 (h.imp fun _ _ h => h row)

theorem trueOf_and {s t : σ} {ps : List π} {p : π} {fs : List (ρ → Prop)} (hs : R.Valid s)
    (hne : ps ≠ []) (h : List.Forall₂ (R.TrueOf s) ps fs) (hp : a.and ps s = (p, t)) :
    R.Valid t ∧ R.Later s t ∧ R.TrueOf t p fun row => ∀ f ∈ fs, f row := by
  obtain ⟨hvalid, hlater, htruth⟩ := R.and hs hne hp
  refine ⟨hvalid, hlater, fun row => ?_⟩
  obtain ⟨bs, hbs, hall, -⟩ := Truth.exists_truths (truths_of_trueOf h row)
  exact ⟨_, htruth row bs hbs, hall.trans List.forall_mem_map⟩

theorem trueOf_or {s t : σ} {ps : List π} {p : π} {fs : List (ρ → Prop)} (hs : R.Valid s)
    (hne : ps ≠ []) (h : List.Forall₂ (R.TrueOf s) ps fs) (hp : a.or ps s = (p, t)) :
    R.Valid t ∧ R.Later s t ∧ R.TrueOf t p fun row => ∃ f ∈ fs, f row := by
  obtain ⟨hvalid, hlater, htruth⟩ := R.or hs hne hp
  refine ⟨hvalid, hlater, fun row => ?_⟩
  obtain ⟨bs, hbs, -, hany⟩ := Truth.exists_truths (truths_of_trueOf h row)
  refine ⟨_, htruth row bs hbs, hany.trans ⟨?_, fun ⟨f, hf, h⟩ => ⟨_, List.mem_map_of_mem hf, h⟩⟩⟩
  rintro ⟨_, hfact, h⟩
  obtain ⟨f, hf, rfl⟩ := List.mem_map.1 hfact
  exact ⟨f, hf, h⟩

/-- Steps that yield predicates one after the other. -/
theorem yields_mapM {α : Type} {step : α → StateT σ Result π} {f : α → ρ → Prop} {as : List α}
    (h : ∀ x ∈ as, R.Yields (step x) (f x)) {s : σ} (hs : R.Valid s) :
    ∃ ps t, as.mapM step s = .ok (ps, t) ∧ R.Valid t ∧ R.Later s t ∧
      List.Forall₂ (R.TrueOf t) ps (as.map f) := by
  induction as generalizing s with
  | nil => exact ⟨[], s, rfl, hs, R.refl s, .nil⟩
  | cons x as ih =>
    obtain ⟨hfirst, hrest⟩ := List.forall_mem_cons.1 h
    obtain ⟨p, t, hp, ht, hst, htrue⟩ := hfirst s hs
    obtain ⟨ps, u, hps, hu, htu, htrues⟩ := ih hrest ht
    refine ⟨p :: ps, u, ?_, hu, R.trans hst htu, .cons (htrue.later htu) htrues⟩
    rw [List.mapM_cons]
    exact bind_ok.2 ⟨p, t, hp, bind_ok.2 ⟨ps, u, hps, rfl⟩⟩

/-- A draft has an expression for every property that the metamodel knows. -/
theorem expresses_of_ofSource {m : Metamodel} {entity : ManagedType} {options : Derived.Options}
    {order : Value → Value → Ordering} {value : ρ → String → Value} {property : String}
    {p : PropertyPath} (h : PropertyPath.ofSource m entity property = .ok p) :
    (Derived.KeysetDraft.reading m entity options order value).Expresses property := by
  intro d _
  change ∃ e d', Derived.KeysetDraft.expression m entity options property d = .ok (e, d')
  unfold Derived.KeysetDraft.expression
  exact ⟨_, _, bind_ok.2 ⟨p, d, lift_ok.2 ⟨h, rfl⟩, rfl⟩⟩

end Reading

namespace Cursor

variable {σ ε π ρ : Type} {a : PredicateAdapter σ ε π} {R : Reading a ρ} {c : Cursor}

/-- The value of a row compares with that of the cursor in some way. -/
def Compares (c : Cursor) (R : Reading a ρ) (g : Value → Value → Prop) (o : Order) (row : ρ) : Prop :=
  ∃ v, c.get? o.property = some v ∧ g (R.keyOf row o.property) v

/-- The row agrees with the cursor on an order. -/
def Agrees (c : Cursor) (R : Reading a ρ) (o : Order) : ρ → Prop :=
  c.Compares R (·.Agrees R.order) o

/-- The row lies strictly beyond the cursor in the direction of an order. -/
def Precedes (c : Cursor) (R : Reading a ρ) (o : Order) : ρ → Prop :=
  c.Compares R (·.Beyond R.order o.direction) o

/-- The row agrees with the cursor on some orders and lies beyond it on another. -/
def Divides (c : Cursor) (R : Reading a ρ) (before : List Order) (o : Order) (row : ρ) : Prop :=
  (∀ o' ∈ before, c.Agrees R o' row) ∧ c.Precedes R o row

def HasKey (c : Cursor) (o : Order) : Prop := c.get? o.property ≠ none

/-! ### Comparisons -/

theorem key_eq {o : Order} {v : Value} (h : c.get? o.property = some v) :
    c.key o.property = .ok v := by
  rw [key, h]

theorem key_missing {o : Order} (h : ¬ c.HasKey o) : c.key o.property = .error .incompleteKeyset := by
  rw [key, not_not.1 h]

/-- A step that builds a predicate from the expression and the key of an order. -/
theorem keyed_yields {o : Order} (hkey : c.HasKey o) (hexpr : R.Expresses o.property)
    {build : ε → Value → StateM σ π} {g : Value → Value → Prop}
    (hbuild : ∀ {s e} v, R.Valid s → R.Valid (build e v s).2 ∧ R.Later s (build e v s).2 ∧
      ∀ row w, R.value s e row = some w →
        ∃ b, R.truth (build e v s).2 (build e v s).1 row = some b ∧ (b = .true ↔ g w v)) :
    R.Yields (do
      let v ← c.key o.property
      always (build (← a.expression o.property) v)) (c.Compares R g o) := by
  intro s hs
  obtain ⟨v, hv⟩ := Option.ne_none_iff_exists'.1 hkey
  obtain ⟨e, t, he⟩ := hexpr s hs
  obtain ⟨ht, hst, hvalue⟩ := R.expression hs he
  obtain ⟨hu, htu, htruth⟩ := hbuild v ht
  refine ⟨_, _, bind_ok.2 ⟨v, s, lift_ok.2 ⟨key_eq hv, rfl⟩, bind_ok.2 ⟨e, t, he, rfl⟩⟩, hu,
    R.trans hst htu, fun row => ?_⟩
  obtain ⟨b, hb, hg⟩ := htruth row _ (hvalue row)
  refine ⟨b, hb, hg.trans ?_⟩
  simp [Compares, hv]

theorem equality_yields {o : Order} (hkey : c.HasKey o) (hexpr : R.Expresses o.property) :
    R.Yields (c.equality a o) (c.Agrees R o) := by
  refine keyed_yields hkey hexpr fun v hs => ?_
  obtain ⟨ht, hst, htruth⟩ := R.equal (v := v) hs rfl
  exact ⟨ht, hst, fun row w hw => ⟨_, htruth row w hw, Truth.equal_eq_true⟩⟩

theorem comparison_yields {o : Order} (hkey : c.HasKey o) (hexpr : R.Expresses o.property) :
    R.Yields (c.comparison a o) (c.Precedes R o) := by
  refine keyed_yields hkey hexpr fun v hs => ?_
  obtain ⟨ht, hst, htruth⟩ := R.compare (o := o) (v := v) hs rfl
  exact ⟨ht, hst, fun row w hw => ⟨_, htruth row w hw, Truth.compared_eq_true⟩⟩

theorem comparison_missing {o : Order} (hkey : ¬ c.HasKey o) (s : σ) :
    c.comparison a o s = .error .incompleteKeyset := by
  rw [comparison, key_missing hkey]
  rfl

/-! ### Disjuncts -/

theorem disjunct_yields {before : List Order} {o : Order}
    (hkeys : ∀ o' ∈ before, c.HasKey o') (hexprs : ∀ o' ∈ before, R.Expresses o'.property)
    (hkey : c.HasKey o) (hexpr : R.Expresses o.property) :
    R.Yields (c.disjunct a before o) (c.Divides R before o) := by
  intro s hs
  obtain ⟨ps, t, hps, ht, hst, htrues⟩ :=
    Reading.yields_mapM (fun o' ho' => equality_yields (hkeys o' ho') (hexprs o' ho')) hs
  obtain ⟨p, u, hp, hu, htu, htrue⟩ := comparison_yields hkey hexpr t ht
  have hall : List.Forall₂ (R.TrueOf u) (ps ++ [p]) (before.map (c.Agrees R) ++ [c.Precedes R o]) :=
    List.rel_append (htrues.imp fun _ _ h => h.later htu) (.cons htrue .nil)
  obtain ⟨hw, huw, hand⟩ := Reading.trueOf_and hu (by simp) hall rfl
  refine ⟨_, _, bind_ok.2 ⟨ps, t, hps, bind_ok.2 ⟨p, u, hp, rfl⟩⟩, hw,
    R.trans hst (R.trans htu huw), fun row => ?_⟩
  obtain ⟨b, hb, hf⟩ := hand row
  refine ⟨b, hb, hf.trans ?_⟩
  change (∀ f ∈ before.map (c.Agrees R) ++ [c.Precedes R o], f row) ↔ _
  rw [List.forall_mem_append, List.forall_mem_map, List.forall_mem_singleton, Divides]

theorem disjunct_missing {before : List Order} {o : Order}
    (hkeys : ∀ o' ∈ before, c.HasKey o') (hexprs : ∀ o' ∈ before, R.Expresses o'.property)
    (hkey : ¬ c.HasKey o) {s : σ} (hs : R.Valid s) :
    c.disjunct a before o s = .error .incompleteKeyset := by
  obtain ⟨ps, t, hps, -⟩ :=
    Reading.yields_mapM (fun o' ho' => equality_yields (hkeys o' ho') (hexprs o' ho')) hs
  rw [disjunct]
  change (before.mapM (c.equality a) s >>= _) = _
  rw [hps]
  change (c.comparison a o t >>= _) = _
  rw [comparison_missing hkey]
  rfl

/-- What the disjuncts for orders behind those in `before` are true of. -/
def divisions (c : Cursor) (R : Reading a ρ) (before : List Order) : List Order → List (ρ → Prop)
  | [] => []
  | o :: orders => c.Divides R before o :: c.divisions R (before ++ [o]) orders

theorem divisions_eq (before orders : List Order) :
    c.divisions R before orders =
      (Derived.withLeading before orders).map fun cut => c.Divides R cut.1 cut.2 := by
  induction orders generalizing before with
  | nil => rfl
  | cons o orders ih => rw [divisions, ih, Derived.withLeading, List.map_cons]

theorem exists_divisions (before orders : List Order) (row : ρ) :
    (∃ f ∈ c.divisions R before orders, f row) ↔
      ∃ leading o after, orders = leading ++ o :: after ∧ c.Divides R (before ++ leading) o row := by
  rw [divisions_eq]
  constructor
  · rintro ⟨_, hf, h⟩
    obtain ⟨⟨_, o⟩, hcut, rfl⟩ := List.mem_map.1 hf
    obtain ⟨leading, after, rfl, rfl⟩ := Derived.mem_withLeading.1 hcut
    exact ⟨leading, o, after, rfl, h⟩
  · rintro ⟨leading, o, after, rfl, h⟩
    have hcut := Derived.mem_withLeading (c := (before ++ leading, o)).2 ⟨leading, after, rfl, rfl⟩
    exact ⟨_, List.mem_map_of_mem hcut, h⟩

theorem disjuncts_yield {before orders : List Order} (hkeys : ∀ o ∈ before ++ orders, c.HasKey o)
    (hexprs : ∀ o ∈ before ++ orders, R.Expresses o.property) {s : σ} (hs : R.Valid s) :
    ∃ ps t, c.disjuncts a before orders s = .ok (ps, t) ∧ R.Valid t ∧ R.Later s t ∧
      List.Forall₂ (R.TrueOf t) ps (c.divisions R before orders) := by
  induction orders generalizing before s with
  | nil => exact ⟨[], s, rfl, hs, R.refl s, .nil⟩
  | cons o orders ih =>
    obtain ⟨hbefore, ho⟩ := List.forall_mem_append.1 hkeys
    obtain ⟨hbefore', ho'⟩ := List.forall_mem_append.1 hexprs
    rw [List.append_cons] at hkeys hexprs
    obtain ⟨p, t, hp, ht, hst, htrue⟩ := disjunct_yields hbefore hbefore'
      (ho o List.mem_cons_self) (ho' o List.mem_cons_self) s hs
    obtain ⟨ps, u, hps, hu, htu, htrues⟩ := ih hkeys hexprs ht
    exact ⟨p :: ps, u, bind_ok.2 ⟨p, t, hp, bind_ok.2 ⟨ps, u, hps, rfl⟩⟩, hu, R.trans hst htu,
      .cons (htrue.later htu) htrues⟩

theorem disjuncts_missing {before orders : List Order} (hkeys : ∀ o ∈ before, c.HasKey o)
    (hexprs : ∀ o ∈ before ++ orders, R.Expresses o.property)
    (hmissing : ∃ o ∈ orders, ¬ c.HasKey o) {s : σ} (hs : R.Valid s) :
    c.disjuncts a before orders s = .error .incompleteKeyset := by
  induction orders generalizing before s with
  | nil => simp at hmissing
  | cons o orders ih =>
    obtain ⟨hbefore, ho⟩ := List.forall_mem_append.1 hexprs
    change (c.disjunct a before o s >>= _) = _
    by_cases hkey : c.HasKey o
    · obtain ⟨p, t, hp, ht, -⟩ := disjunct_yields hkeys hbefore hkey (ho o List.mem_cons_self) s hs
      have hrest : c.disjuncts a (before ++ [o]) orders t = .error .incompleteKeyset :=
        ih (List.forall_mem_append.2 ⟨hkeys, by simpa using hkey⟩) (by rwa [← List.append_cons])
          (by simpa [hkey] using hmissing) ht
      rw [hp]
      change (c.disjuncts a (before ++ [o]) orders t >>= _) = _
      rw [hrest]
      rfl
    · rw [disjunct_missing hkeys hbefore hkey hs]
      rfl

/-! ### The predicate -/

/-- The row lies behind the cursor: beyond it on one of the orders, and in agreement with it on all
orders before that one. -/
def IsBefore (c : Cursor) (R : Reading a ρ) (orders : List Order) (row : ρ) : Prop :=
  ∃ leading o after, orders = leading ++ o :: after ∧ (∀ o' ∈ leading, c.Agrees R o' row) ∧
    c.Precedes R o row

theorem predicate_initial {sort : Sorting} (h : c.isInitial = true) (s : σ) :
    c.predicate sort a s = .ok (none, s) := by
  rw [predicate, if_pos h]
  rfl

theorem predicate_empty {sort : Sorting} (h : sort.orders = []) (s : σ) :
    c.predicate sort a s = .ok (none, s) := by
  rw [predicate, h]
  split
  · rfl
  · rfl

theorem predicate_missing {sort : Sorting} (hinitial : c.isInitial = false)
    (hexprs : ∀ o ∈ sort.orders, R.Expresses o.property)
    (hmissing : ∃ o ∈ sort.orders, ¬ c.HasKey o) {s : σ} (hs : R.Valid s) :
    c.predicate sort a s = .error .incompleteKeyset := by
  rw [predicate, hinitial]
  change (c.disjuncts a [] sort.orders s >>= _) = _
  rw [disjuncts_missing (by simp) hexprs hmissing hs]
  rfl

theorem predicate_yields {sort : Sorting} (hinitial : c.isInitial = false) (hne : sort.orders ≠ [])
    (hexprs : ∀ o ∈ sort.orders, R.Expresses o.property) (hkeys : ∀ o ∈ sort.orders, c.HasKey o)
    {s : σ} (hs : R.Valid s) :
    ∃ p t, c.predicate sort a s = .ok (some p, t) ∧ R.TrueOf t p (c.IsBefore R sort.orders) := by
  obtain ⟨ps, t, hps, ht, -, htrues⟩ : ∃ ps t, c.disjuncts a [] sort.orders s = .ok (ps, t) ∧
      R.Valid t ∧ R.Later s t ∧ List.Forall₂ (R.TrueOf t) ps (c.divisions R [] sort.orders) :=
    disjuncts_yield hkeys hexprs hs
  have hps_ne : ps ≠ [] := by
    rintro rfl
    obtain ⟨o, orders, horders⟩ := List.exists_cons_of_ne_nil hne
    rw [horders] at htrues
    cases htrues
  obtain ⟨-, -, hor⟩ := Reading.trueOf_or ht hps_ne htrues rfl
  refine ⟨(a.or ps t).1, (a.or ps t).2, ?_, fun row => ?_⟩
  · rw [predicate, hinitial]
    change (c.disjuncts a [] sort.orders s >>= _) = _
    rw [hps]
    change (if ps.isEmpty then _ else _ : StateT σ Result (Option π)) t = _
    rw [if_neg (by simpa using hps_ne)]
    rfl
  · obtain ⟨b, hb, hf⟩ := hor row
    exact ⟨b, hb, hf.trans (exists_divisions [] sort.orders row)⟩

/-- Where expressions never fail, a cursor gives no predicate just if it is initial or nothing is
sorted by, and the error of an incomplete keyset just if a key is missing; else it gives a predicate
that is true of just the rows behind the cursor, so that nothing unknown counts as true. -/
theorem predicate_exact (R : Reading a ρ) (c : Cursor) (sort : Sorting) (s : σ) (hs : R.Valid s)
    (hexprs : ∀ o ∈ sort.orders, R.Expresses o.property) :
    ((∃ t, c.predicate sort a s = .ok (none, t)) ↔ c.isInitial = true ∨ sort.orders = []) ∧
    (c.predicate sort a s = .error .incompleteKeyset ↔
      c.isInitial = false ∧ ∃ o ∈ sort.orders, c.get? o.property = none) ∧
    (c.isInitial = false → sort.orders ≠ [] → (∀ o ∈ sort.orders, c.get? o.property ≠ none) →
      ∃ p t, c.predicate sort a s = .ok (some p, t) ∧
        ∀ row, ∃ b, R.truth t p row = some b ∧ (b = .true ↔ c.IsBefore R sort.orders row)) := by
  have hmissing (h : ¬ ∀ o ∈ sort.orders, c.HasKey o) : ∃ o ∈ sort.orders, ¬ c.HasKey o := by
    simpa using h
  refine ⟨⟨?_, ?_⟩, ⟨?_, ?_⟩, ?_⟩
  · rintro ⟨t, ht⟩
    by_contra hno
    obtain ⟨hinitial, hne⟩ := not_or.1 hno
    rw [Bool.not_eq_true] at hinitial
    by_cases hkeys : ∀ o ∈ sort.orders, c.HasKey o
    · obtain ⟨p, u, hp, -⟩ := predicate_yields hinitial hne hexprs hkeys hs
      rw [hp] at ht
      cases ht
    · rw [predicate_missing hinitial hexprs (hmissing hkeys) hs] at ht
      cases ht
  · rintro (h | h)
    · exact ⟨s, predicate_initial h s⟩
    · exact ⟨s, predicate_empty h s⟩
  · intro herror
    cases hinitial : c.isInitial with
    | true =>
      rw [predicate_initial hinitial] at herror
      cases herror
    | false =>
      refine ⟨rfl, ?_⟩
      by_contra hno
      have hkeys : ∀ o ∈ sort.orders, c.HasKey o := fun o ho h => hno ⟨o, ho, h⟩
      by_cases hne : sort.orders = []
      · rw [predicate_empty hne] at herror
        cases herror
      · obtain ⟨p, u, hp, -⟩ := predicate_yields hinitial hne hexprs hkeys hs
        rw [hp] at herror
        cases herror
  · rintro ⟨hinitial, o, ho, hkey⟩
    exact predicate_missing hinitial hexprs ⟨o, ho, not_not.2 hkey⟩ hs
  · exact fun hinitial hne hkeys => predicate_yields hinitial hne hexprs hkeys hs

def agedUser : ManagedType :=
  { name := "app.User", entityName := "User", isEntity := true
    attributes := [.id "id" .long, .basic "age" .integer] }

def agedReading : Reading (Derived.KeysetDraft.adapter ⟨[agedUser]⟩ agedUser {})
    (String → Value) :=
  Derived.KeysetDraft.reading _ _ _ (fun
    | .int n, .int k => compare n k
    | _, _ => .eq) id

/-- Behind a user without an age come those without an age and with a greater identifier, and no
user of any age. -/
theorem predicate_exact_without_age :
    ∃ p t, predicate ⟨[("age", .null), ("id", .int 5)], .forward⟩
        ⟨[{ property := "age" }, { property := "id" }]⟩
        (Derived.KeysetDraft.adapter ⟨[agedUser]⟩ agedUser {})
        ⟨{ entityName := "User", aliasName := "u" }, 0, []⟩ = .ok (some p, t) ∧
      agedReading.truth t p (fun property => if property = "age" then .null else .int 7) =
        some .true ∧
      agedReading.truth t p (fun property => if property = "age" then .int 30 else .int 7) ≠
        some .true := by
  have hage : PropertyPath.ofSource ⟨[agedUser]⟩ agedUser "age" =
      .ok ⟨[⟨"app.User", .basic "age" .integer⟩], List.cons_ne_nil _ _⟩ := by cbv
  have hid : PropertyPath.ofSource ⟨[agedUser]⟩ agedUser "id" =
      .ok ⟨[⟨"app.User", .id "id" .long⟩], List.cons_ne_nil _ _⟩ := by cbv
  have hkey (row : String → Value) :
      agedReading.keyOf row "age" = row "age" ∧ agedReading.keyOf row "id" = row "id" := by
    simp only [agedReading, Derived.KeysetDraft.reading, hage, hid]
    exact ⟨rfl, rfl⟩
  obtain ⟨-, -, hpredicate⟩ := predicate_exact agedReading
    ⟨[("age", .null), ("id", .int 5)], .forward⟩ ⟨[{ property := "age" }, { property := "id" }]⟩
    ⟨{ entityName := "User", aliasName := "u" }, 0, []⟩ ⟨Derived.wellJoined_nil, by simp⟩ (by
      intro o ho
      simp only [List.mem_cons, List.not_mem_nil, or_false] at ho
      rcases ho with rfl | rfl
      · exact Reading.expresses_of_ofSource hage
      · exact Reading.expresses_of_ofSource hid)
  obtain ⟨p, t, hp, htrue⟩ := hpredicate rfl (by simp) (by simp [get?])
  refine ⟨p, t, hp, ?_, fun htruth => ?_⟩
  · obtain ⟨b, hb, hbehind⟩ := htrue fun property => if property = "age" then .null else .int 7
    rw [hb, hbehind.2]
    refine ⟨[{ property := "age" }], { property := "id" }, [], rfl, ?_, .int 5, rfl, ?_⟩
    · rw [List.forall_mem_singleton]
      refine ⟨.null, rfl, .inl ⟨?_, rfl⟩⟩
      rw [(hkey _).1]
      rfl
    · rw [(hkey _).2]
      exact ⟨rfl, rfl, rfl⟩
  · obtain ⟨b, hb, hbehind⟩ := htrue fun property => if property = "age" then .int 30 else .int 7
    obtain rfl := Option.some.inj (hb.symm.trans htruth)
    obtain ⟨leading, o, after, horders, hagrees, hbeyond⟩ := hbehind.1 rfl
    cases leading with
    | nil =>
      obtain ⟨rfl, -⟩ := List.cons.inj horders
      obtain ⟨v, hv, -, hnull, -⟩ := hbeyond
      obtain rfl : Value.null = v := Option.some.inj hv
      cases hnull
    | cons o' leading =>
      obtain ⟨rfl, -⟩ := List.cons.inj horders
      obtain ⟨v, hv, hage⟩ := hagrees _ List.mem_cons_self
      obtain rfl : Value.null = v := Option.some.inj hv
      rw [(hkey _).1] at hage
      rcases hage with ⟨hnull, -⟩ | ⟨-, hnull, -⟩
      · cases hnull
      · cases hnull

end Cursor

end Jpql
