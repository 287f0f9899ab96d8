import Jpql.Proofs.Derived.JoinPath

/-! Paths followed again, in a query that has their joins already. A join that is asked for again is
found, so the path comes to the same expression. It does so even if it was followed for an order
then and is followed for a predicate now, unless the order has joined an association that the
predicate leaves out. -/

namespace Jpql

/-- An association with one entity, held by this side, that may be missing. -/
def Attribute.isOptionalReference (a : Attribute) : Bool :=
  a.kind.isAssociation && !a.kind.isCollection && !(a.kind == .oneToOne && a.owner?.isSome) &&
    a.optional

namespace Derived

/-- An association is joined though it may be missing if it is, or stands behind one that is. A
predicate leaves it out where it ends the path. -/
theorem requiresOuterJoin_eq (a : Attribute) (forSelection isLeaf outerBefore : Bool) :
    requiresOuterJoin a forSelection isLeaf outerBefore =
      (a.kind.isAssociation && (outerBefore || a.optional) &&
        !(!forSelection && (isLeaf && !outerBefore && a.isOptionalReference))) := by
  unfold requiresOuterJoin Attribute.isOptionalReference
  cases a.kind.isAssociation <;> cases forSelection <;> cases isLeaf <;> cases outerBefore <;>
    cases a.kind.isCollection <;> cases (a.kind == .oneToOne && a.owner?.isSome) <;>
    cases a.optional <;> rfl

namespace SelectQuery

variable {q q' : SelectQuery} {type : JoinType} {source : Origin} {path : String}

/-- The join that an origin stands for. -/
theorem exists_join (q : SelectQuery) (type : JoinType) (source : Origin) (path : String) :
    ∃ i j, (q.join type source path).1 = .join i ∧
      (q.join type source path).2.joins[i]? = some j ∧
      j.type = type ∧ j.source = source ∧ j.path = path := by
  unfold join
  split
  next i hi =>
    obtain ⟨hlt, hmatch, -⟩ := List.findIdx?_eq_some_iff_getElem.1 hi
    simp only [Bool.and_eq_true, beq_iff_eq] at hmatch
    exact ⟨i, _, rfl, List.getElem?_eq_getElem hlt, hmatch.1.1, hmatch.1.2, hmatch.2⟩
  next =>
    obtain ⟨name, n, hpush⟩ := q.push_spec type source path
    exact ⟨q.joins.length, ⟨type, source, path, name⟩, rfl, by simp [hpush], rfl, rfl, rfl⟩

/-- A join that is asked for again is found. -/
theorem join_again (h : (q.join type source path).2.joins <+: q'.joins) :
    q'.join type source path = ((q.join type source path).1, q') := by
  obtain ⟨js, hjs⟩ := h
  have hfound (i : Nat) (hi : q'.joinIndex? type source path = some i) :
      q'.join type source path = (.join i, q') := by
    rw [join, hi]
  unfold join at hjs ⊢
  cases hi : q.joinIndex? type source path with
  | some i =>
    rw [hi] at hjs
    refine hfound i ?_
    rw [joinIndex?, ← hjs, List.findIdx?_append]
    rw [joinIndex?] at hi
    rw [hi]
    rfl
  | none =>
    rw [hi] at hjs
    obtain ⟨name, n, hpush⟩ := q.push_spec type source path
    rw [hpush] at hjs
    refine hfound _ ?_
    rw [joinIndex?] at hi ⊢
    rw [← hjs, List.append_assoc, List.findIdx?_append, hi]
    simp [List.findIdx?_cons]

/-- Joins along different paths are different joins. -/
theorem join_origin_ne {type' : JoinType} {source' : Origin} {path' : String}
    (h : (q.join type source path).2.joins <+: q'.joins) (hne : path' ≠ path) :
    (q'.join type' source' path').1 ≠ (q.join type source path).1 := by
  obtain ⟨i, j, hi, hj, -, -, rfl⟩ := q.exists_join type source path
  obtain ⟨k, j', hk, hj', -, -, rfl⟩ := q'.exists_join type' source' path'
  rw [hi, hk]
  rintro ⟨⟩
  obtain ⟨js, hjs⟩ := h.trans (q'.join_extends type' source' j'.path).joins_mono
  rw [← hjs, List.getElem?_append_left (List.getElem?_eq_some_iff.1 hj).1, hj] at hj'
  exact hne (congrArg Join.path (Option.some.inj hj').symm)

end SelectQuery

/-! ### Single steps -/

/-- Whether the path ends with the segment, what is behind it being known without a join. -/
def isEnd (optimize : Bool) (s : PathSegment) (rest : List PathSegment) : Bool :=
  rest.isEmpty || (optimize && endsInId s.member rest)

/-- Whether an order by the path joins the segment and a predicate on it does not: it ends the path
and may be missing, but nothing before it may. -/
def joinsForOrder (optimize outer : Bool) (s : PathSegment) (rest : List PathSegment) : Bool :=
  isEnd optimize s rest && !outer && s.member.isOptionalReference

/-- The walk one segment further. -/
def Walk.step (forSelection optimize : Bool) (w : Walk) (s : PathSegment)
    (rest : List PathSegment) : Walk :=
  let pending := w.pending ++ [s.name]
  let last := isEnd optimize s rest
  let outer := requiresOuterJoin s.member forSelection last w.outer
  if !s.member.kind.isAssociation || (!outer && last) then { w with pending }
  else
    let (origin, query) :=
      w.query.join (if outer then .left else .inner) w.origin (".".intercalate pending)
    { query, origin, outer }

/-- A step leaves the segment to be named, or joins it with all names that were left so. -/
theorem step_cases (forSelection optimize : Bool) (w : Walk) (s : PathSegment)
    (rest : List PathSegment) :
    w.step forSelection optimize s rest = { w with pending := w.pending ++ [s.name] } ∨
      ∃ type outer, w.step forSelection optimize s rest =
        { query := (w.query.join type w.origin (".".intercalate (w.pending ++ [s.name]))).2
          origin := (w.query.join type w.origin (".".intercalate (w.pending ++ [s.name]))).1
          outer } := by
  unfold Walk.step
  dsimp only
  split
  next => exact .inl rfl
  next => exact .inr ⟨_, _, rfl⟩

theorem step_of_property {forSelection optimize : Bool} {w : Walk} {s : PathSegment}
    {rest : List PathSegment} (h : s.member.kind.isAssociation = false) :
    w.step forSelection optimize s rest = { w with pending := w.pending ++ [s.name] } := by
  simp [Walk.step, h]

theorem follow_cons (forSelection optimize : Bool) (w : Walk) (s : PathSegment)
    (rest : List PathSegment) :
    follow forSelection optimize w (s :: rest) =
      follow forSelection optimize (w.step forSelection optimize s rest) rest := by
  rw [follow]
  exact (apply_ite (follow forSelection optimize · rest) _ _ _).symm

variable {forSelection forSelection' optimize : Bool} {w : Walk} {q' : SelectQuery}
  {s : PathSegment} {rest segments : List PathSegment}

/-- Only where nothing before it may be missing does it matter what the path is used for. -/
theorem requiresOuterJoin_congr
    (h : forSelection' = forSelection ∨ joinsForOrder optimize w.outer s rest = false) :
    requiresOuterJoin s.member forSelection' (isEnd optimize s rest) w.outer =
      requiresOuterJoin s.member forSelection (isEnd optimize s rest) w.outer := by
  rcases h with rfl | h
  · rfl
  · rw [joinsForOrder] at h
    simp [requiresOuterJoin_eq, h]

theorem step_again (h : forSelection' = forSelection ∨ joinsForOrder optimize w.outer s rest = false)
    (hq : (w.step forSelection optimize s rest).query.joins <+: q'.joins) :
    Walk.step forSelection' optimize { w with query := q' } s rest =
      { w.step forSelection optimize s rest with query := q' } := by
  unfold Walk.step at hq ⊢
  dsimp only at hq ⊢
  rw [requiresOuterJoin_congr h]
  split
  next => rfl
  next hjoins =>
    rw [if_neg hjoins] at hq
    rw [SelectQuery.join_again hq]

/-- A walk knows whether what it has come along may be missing. -/
theorem outer_step (h : joinsForOrder optimize w.outer s rest = false) :
    (w.step forSelection optimize s rest).outer =
      (w.outer || s.member.kind.isAssociation && s.member.optional) := by
  have houter : requiresOuterJoin s.member forSelection (isEnd optimize s rest) w.outer =
      (s.member.kind.isAssociation && (w.outer || s.member.optional)) := by
    rw [joinsForOrder] at h
    simp [requiresOuterJoin_eq, h]
  unfold Walk.step
  dsimp only
  rw [houter]
  cases s.member.kind.isAssociation <;> cases w.outer <;> cases s.member.optional <;>
    cases isEnd optimize s rest <;> rfl

/-! ### Whole paths -/

/-- Whether an order by a path makes a join that a predicate on it does not. -/
def joinsFurther (optimize : Bool) : Bool → List PathSegment → Bool
  | _, [] => false
  | outer, s :: rest =>
    joinsForOrder optimize outer s rest ||
      joinsFurther optimize (outer || s.member.kind.isAssociation && s.member.optional) rest

theorem follow_again
    (hq : (follow forSelection optimize w segments).query.joins <+: q'.joins)
    (h : forSelection' = forSelection ∨ joinsFurther optimize w.outer segments = false) :
    follow forSelection' optimize { w with query := q' } segments =
      { follow forSelection optimize w segments with query := q' } := by
  induction segments generalizing w with
  | nil => rfl
  | cons s rest ih =>
    rw [joinsFurther, Bool.or_eq_false_iff] at h
    rw [follow_cons] at hq
    have hstep := (follow_extends forSelection optimize rest
      (w.step forSelection optimize s rest)).joins_mono.trans hq
    rw [follow_cons, follow_cons, step_again (h.imp_right And.left) hstep]
    refine ih hq (h.imp_right fun ⟨hhere, hrest⟩ => ?_)
    rw [outer_step hhere, hrest]

/-- A path behind other names is longer than its last name. -/
theorem intercalate_concat_ne {names : List String} (hnames : names ≠ []) (n : String) :
    ".".intercalate (names ++ [n]) ≠ n := by
  rw [String.intercalate_append_of_ne_nil hnames (by simp)]
  intro h
  have hlength := congrArg String.length h
  simp at hlength

/-- An order joins an association behind an outer join, or one that may be missing. -/
theorem step_of_missing (h : s.member.kind.isAssociation = true)
    (houter : w.outer = true ∨ s.member.optional = true) :
    w.step true optimize s rest =
      { query := (w.query.join .left w.origin (".".intercalate (w.pending ++ [s.name]))).2
        origin := (w.query.join .left w.origin (".".intercalate (w.pending ++ [s.name]))).1
        outer := true } := by
  unfold Walk.step
  dsimp only
  rw [requiresOuterJoin_eq, h]
  rcases houter with houter | houter <;> simp [houter]

/-- The walks end at different origins or have different paths pending. -/
def EndsApart (w w' : Walk) : Prop :=
  w.origin ≠ w'.origin ∨ ".".intercalate w.pending ≠ ".".intercalate w'.pending

/-- Where an order makes a join that a predicate does not, the walk of the predicate is left with
names that the other has joined, or makes a join of its own along a longer path. -/
theorem follow_diverges_here (hnames : ∀ t ∈ s :: rest, t.name ≠ "")
    (hq : (follow true optimize w (s :: rest)).query.joins <+: q'.joins)
    (h : joinsForOrder optimize w.outer s rest = true) :
    EndsApart (follow false optimize { w with query := q' } (s :: rest))
      (follow true optimize w (s :: rest)) := by
  rw [joinsForOrder, Bool.and_eq_true, Bool.and_eq_true, Bool.not_eq_true'] at h
  obtain ⟨⟨hend, houter⟩, hreference⟩ := h
  obtain ⟨hassociation, hoptional⟩ :
      s.member.kind.isAssociation = true ∧ s.member.optional = true := by
    simp only [Attribute.isOptionalReference, Bool.and_eq_true] at hreference
    exact ⟨hreference.1.1.1, hreference.2⟩
  have hjoins : w.step true optimize s rest = _ := step_of_missing hassociation (.inr hoptional)
  have hstays : Walk.step false optimize { w with query := q' } s rest =
      { w with query := q', pending := w.pending ++ [s.name] } := by
    unfold Walk.step
    dsimp only
    rw [requiresOuterJoin_eq, hend, houter, hreference]
    simp
  rw [follow_cons, hjoins] at hq
  rw [follow_cons, follow_cons, hjoins, hstays]
  cases rest with
  | nil => exact .inr (intercalate_concat_ne_empty w.pending (hnames s (by simp)))
  | cons t rest =>
    obtain rfl : rest = [] := by
      simp only [isEnd, endsInId, List.isEmpty_cons, Bool.false_or, Bool.and_eq_true] at hend
      simpa using hend.2.1.2
    rw [follow_cons] at hq
    rw [follow_cons, follow_cons]
    dsimp only [follow] at hq ⊢
    -- the identifier that ends the path may be an association itself
    cases ht : t.member.kind.isAssociation with
    | false =>
      rw [step_of_property ht, step_of_property ht]
      exact .inr (intercalate_concat_ne (by simp) t.name)
    | true =>
      rw [step_of_missing ht (.inl rfl)] at hq ⊢
      rcases step_cases false optimize { w with query := q', pending := w.pending ++ [s.name] } t []
        with hpending | ⟨type, outer, hjoined⟩
      · rw [hpending]
        exact .inr (intercalate_concat_ne_empty _ (hnames t (by simp)))
      · rw [hjoined]
        exact .inl (SelectQuery.join_origin_ne hq (intercalate_concat_ne (by simp) t.name))

theorem follow_diverges (hnames : ∀ s ∈ segments, s.name ≠ "")
    (hq : (follow true optimize w segments).query.joins <+: q'.joins)
    (h : joinsFurther optimize w.outer segments = true) :
    EndsApart (follow false optimize { w with query := q' } segments)
      (follow true optimize w segments) := by
  induction segments generalizing w with
  | nil => cases h
  | cons s rest ih =>
    cases hhere : joinsForOrder optimize w.outer s rest with
    | true => exact follow_diverges_here hnames hq hhere
    | false =>
      have houter : (w.step true optimize s rest).outer = _ := outer_step hhere
      rw [joinsFurther, hhere, Bool.false_or, ← houter] at h
      rw [follow_cons] at hq
      have hstep := (follow_extends true optimize rest
        (w.step true optimize s rest)).joins_mono.trans hq
      rw [follow_cons, follow_cons, step_again (.inr hhere) hstep]
      exact ih (fun t ht => hnames t (by simp [ht])) hq h

/-! ### Expressions -/

variable {q : SelectQuery} {p : PropertyPath}

/-- A path that is resolved again comes to the same expression, without further joins. -/
theorem resolvePath_again (hq : (resolvePath q p forSelection optimize).2.joins <+: q'.joins)
    (h : forSelection' = forSelection ∨ joinsFurther optimize false p.segments = false) :
    resolvePath q' p forSelection' optimize = ((resolvePath q p forSelection optimize).1, q') := by
  have hagain := follow_again (w := { query := q }) hq h
  unfold resolvePath
  dsimp only at hagain ⊢
  rw [hagain]

/-- A predicate comes to another expression than an order that makes a join of its own. -/
theorem resolvePath_diverges (hnames : ∀ s ∈ p.segments, s.name ≠ "")
    (hq : (resolvePath q p true optimize).2.joins <+: q'.joins)
    (h : joinsFurther optimize false p.segments = true) :
    (resolvePath q' p false optimize).1 ≠ (resolvePath q p true optimize).1 := by
  intro heq
  obtain ⟨horigin, hpath, -⟩ := PathExpression.mk.inj heq
  rcases follow_diverges (w := { query := q }) hnames hq h with hne | hne
  · exact hne horigin
  · exact hne hpath

/-- A manager who may be missing is joined for an order, and not for a predicate. -/
example :
    let p : PropertyPath :=
      ⟨[⟨"app.Employee", .toType .manyToOne "manager" "app.Employee"⟩], List.cons_ne_nil _ _⟩
    let q := SelectQuery.ofEntity "Employee" "Employee" .entity
    (resolvePath q p true false).1 = ⟨.join 0, "", "manager"⟩ ∧
      (resolvePath q p false false).1 = ⟨.root, "manager", "manager"⟩ := by
  decide

end Derived

end Jpql
