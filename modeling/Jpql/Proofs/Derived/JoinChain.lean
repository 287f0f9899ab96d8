import Jpql.Proofs.Derived.Rejoining

/-! Expressions unfolded through joins. The joins behind an expression form a chain from the root,
and the paths along it spell the property path that was resolved. Each join leads up to an
association, and it is an outer join just if this one, or one before it, may be missing. Joins that
are there stay as they are, so that earlier expressions keep their chains. -/

namespace Jpql

/-- The association may lead to nothing. -/
def PathSegment.mayBeMissing (s : PathSegment) : Bool :=
  s.member.kind.isAssociation && s.member.optional

namespace Derived

/-- The names of segments between points. -/
def dotted (segments : List PathSegment) : String :=
  ".".intercalate (segments.map PathSegment.name)

/-- The joins from the root up to an origin. -/
inductive Chain (joins : List Join) : Origin → List Join → Prop
  | root : Chain joins .root []
  | join {i : Nat} {j : Join} {before : List Join} (here : joins[i]? = some j)
      (source : Chain joins j.source before) : Chain joins (.join i) (before ++ [j])

/-- The path of an expression from the root, given the joins up to its origin. An expression without
a path of its own stands for the last of them. -/
def PathExpression.unfolded (e : PathExpression) (chain : List Join) : String :=
  ".".intercalate (chain.map Join.path ++ if e.path.isEmpty then [] else [e.path])

/-- The joins lead along groups of segments. Each ends with an association, and it is joined by an
outer join just if this one, or one before it, may be missing. -/
structure ChainAlong (chain : List Join) (groups : List (List PathSegment)) : Prop where
  paths : chain.map Join.path = groups.map dotted
  associations : ∀ group ∈ groups,
    ∃ s, group.getLast? = some s ∧ s.member.kind.isAssociation = true
  types : ∀ n j, chain[n]? = some j →
    (j.type = .left ↔ (groups.take (n + 1)).flatten.any PathSegment.mayBeMissing = true)

/-- The expression leads along the segments: along all but those in `pending` through joins, and
along these by its own path. -/
structure Unfolds (joins : List Join) (e : PathExpression) (segments : List PathSegment)
    (chain : List Join) (groups : List (List PathSegment)) (pending : List PathSegment) : Prop where
  origin : Chain joins e.origin chain
  along : ChainAlong chain groups
  split : segments = groups.flatten ++ pending
  path : e.path = dotted pending

/-! ### Chains -/

variable {joins joins' : List Join} {o : Origin} {chain chain' : List Join}
  {groups : List (List PathSegment)} {pending segments : List PathSegment}

theorem Chain.mono (h : Chain joins o chain) (hjoins : joins <+: joins') :
    Chain joins' o chain := by
  induction h with
  | root => exact .root
  | join here _ ih =>
    obtain ⟨js, rfl⟩ := hjoins
    exact .join (by rw [List.getElem?_append_left (List.getElem?_eq_some_iff.1 here).1, here]) ih

theorem Chain.unique (h : Chain joins o chain) (h' : Chain joins o chain') : chain' = chain := by
  induction h generalizing chain' with
  | root =>
    cases h'
    rfl
  | join here _ ih =>
    cases h' with
    | join here' source' =>
      obtain rfl := Option.some.inj (here.symm.trans here')
      rw [ih source']

/-- A join, new or found, continues the chain of its source. -/
theorem Chain.joined {q : SelectQuery} (h : Chain q.joins o chain) (type : JoinType)
    (path : String) :
    ∃ j : Join, Chain (q.join type o path).2.joins (q.join type o path).1 (chain ++ [j]) ∧
      j.type = type ∧ j.path = path := by
  obtain ⟨i, j, horigin, here, htype, rfl, hpath⟩ := q.exists_join type o path
  rw [horigin]
  exact ⟨j, .join here (h.mono (q.join_extends type _ path).joins_mono), htype, hpath⟩

theorem ChainAlong.length_eq (h : ChainAlong chain groups) : chain.length = groups.length := by
  simpa using congrArg List.length h.paths

theorem ChainAlong.concat (h : ChainAlong chain groups) {j : Join} {group : List PathSegment}
    {s : PathSegment} (hpath : j.path = dotted (group ++ [s]))
    (hassociation : s.member.kind.isAssociation = true)
    (htype : j.type = .left ↔
      (groups.flatten ++ (group ++ [s])).any PathSegment.mayBeMissing = true) :
    ChainAlong (chain ++ [j]) (groups ++ [group ++ [s]]) where
  paths := by rw [List.map_append, List.map_append, h.paths]; simp [hpath]
  associations := by
    intro g hg
    rcases List.mem_append.1 hg with hg | hg
    · exact h.associations g hg
    · obtain rfl := List.mem_singleton.1 hg
      exact ⟨s, by simp, hassociation⟩
  types := by
    intro n j' hj'
    have hlength := h.length_eq
    rcases Nat.lt_or_ge n chain.length with hn | hn
    · rw [List.getElem?_append_left hn] at hj'
      rw [List.take_append_of_le_length (by omega)]
      exact h.types n j' hj'
    · have hlast : n = chain.length := by
        have := (List.getElem?_eq_some_iff.1 hj').1
        simp at this
        omega
      subst hlast
      obtain rfl : j = j' := by simpa using hj'
      rw [List.take_of_length_le (by simp [hlength]), List.flatten_append]
      simpa using htype

/-! ### Texts -/

theorem dotted_append {front behind : List PathSegment} (hfront : front ≠ [])
    (hbehind : behind ≠ []) : dotted (front ++ behind) = dotted front ++ "." ++ dotted behind := by
  rw [dotted, List.map_append,
    String.intercalate_append_of_ne_nil (by simpa using hfront) (by simpa using hbehind)]
  rfl

theorem intercalate_dotted (h : ∀ group ∈ groups, group ≠ []) :
    ".".intercalate (groups.map dotted) = dotted groups.flatten := by
  induction groups with
  | nil => rfl
  | cons group groups ih =>
    obtain ⟨hgroup, hgroups⟩ := List.forall_mem_cons.1 h
    rcases groups with _ | ⟨next, groups⟩
    · simp
    · have hne : (next :: groups).flatten ≠ [] := by
        rw [List.flatten_cons]
        exact List.append_ne_nil_of_left_ne_nil (hgroups next (List.mem_cons_self ..)) _
      rw [List.map_cons, String.intercalate_cons_of_ne_nil (by simp), ih hgroups]
      exact (dotted_append hgroup hne).symm

theorem Unfolds.unfolded_eq {e : PathExpression} (h : Unfolds joins e segments chain groups pending)
    (hlast : ∀ s ∈ segments.getLast?, s.name ≠ "") : e.unfolded chain = dotted segments := by
  have hgroups : ∀ group ∈ groups, group ≠ [] := by
    rintro group hgroup rfl
    obtain ⟨s, hs, -⟩ := h.along.associations _ hgroup
    cases hs
  unfold PathExpression.unfolded
  rw [h.along.paths, h.split]
  rcases List.eq_nil_or_concat pending with rfl | ⟨names, s, rfl⟩
  · have hempty : e.path.isEmpty = true := by simp [h.path, dotted]
    rw [if_pos hempty, List.append_nil, List.append_nil, intercalate_dotted hgroups]
  · have hname : s.name ≠ "" := hlast s (by simp [h.split])
    have hne : e.path ≠ "" := by
      rw [h.path, dotted, List.concat_eq_append, List.map_append]
      exact intercalate_concat_ne_empty _ hname
    have hall : ∀ group ∈ groups ++ [names.concat s], group ≠ [] :=
      List.forall_mem_append.2 ⟨hgroups, by simp⟩
    rw [if_neg (by simpa using hne), h.path]
    simpa using intercalate_dotted hall

/-! ### Walks -/

/-- The walk has come along the segments, and the rest is to come. It knows whether an association on
its way may be missing, but for the end of the path: a last association, or one in front of an
identifier, is left without a join although it may be missing. -/
structure Walk.Along (w : Walk) (passed rest : List PathSegment) : Prop where
  unfolds : ∃ chain groups pending,
    Unfolds w.query.joins ⟨w.origin, ".".intercalate w.pending, ""⟩ passed chain groups pending ∧
      w.pending = pending.map PathSegment.name
  missing_of_outer : w.outer = true → passed.any PathSegment.mayBeMissing = true
  outer_of_missing : passed.any PathSegment.mayBeMissing = true → w.outer = true ∨ rest.length ≤ 1

section Walks

variable {w : Walk} {passed rest : List PathSegment} {s : PathSegment}

theorem Walk.Along.stay (h : w.Along passed (s :: rest))
    (hend : s.mayBeMissing = true → rest.length ≤ 1) :
    Walk.Along { w with pending := w.pending ++ [s.name] } (passed ++ [s]) rest := by
  obtain ⟨⟨chain, groups, pending, hunfolds, hpending⟩, hmissing, hknown⟩ := h
  refine ⟨⟨chain, groups, pending ++ [s], ⟨hunfolds.origin, hunfolds.along, ?_, ?_⟩, ?_⟩, ?_, ?_⟩
  · rw [hunfolds.split, List.append_assoc]
  · simp [dotted, hpending]
  · simp [hpending]
  · intro houter
    rw [List.any_append, hmissing houter, Bool.true_or]
  · intro hthere
    rw [List.any_append, Bool.or_eq_true, List.any_cons, List.any_nil, Bool.or_false] at hthere
    rcases hthere with hbefore | hhere
    · exact (hknown hbefore).imp_right Nat.le_of_succ_le
    · exact .inr (hend hhere)

theorem Walk.Along.join (h : w.Along passed (s :: rest))
    (hassociation : s.member.kind.isAssociation = true) {outer : Bool}
    (houter : outer = (passed.any PathSegment.mayBeMissing || s.mayBeMissing)) {o : Origin}
    {q : SelectQuery} (hjoin : w.query.join (if outer then .left else .inner) w.origin
      (".".intercalate (w.pending ++ [s.name])) = (o, q)) :
    Walk.Along { query := q, origin := o, outer } (passed ++ [s]) rest := by
  obtain ⟨⟨chain, groups, pending, hunfolds, hpending⟩, -, -⟩ := h
  have hany : (passed ++ [s]).any PathSegment.mayBeMissing = outer := by simp [houter]
  obtain ⟨j, horigin, htype, hj⟩ :=
    hunfolds.origin.joined (if outer then .left else .inner)
      (".".intercalate (w.pending ++ [s.name]))
  rw [hjoin] at horigin
  have hpath : j.path = dotted (pending ++ [s]) := by simp [hj, dotted, hpending]
  have halong : ChainAlong (chain ++ [j]) (groups ++ [pending ++ [s]]) := by
    refine hunfolds.along.concat hpath hassociation ?_
    rw [htype, ← List.append_assoc, ← hunfolds.split, hany]
    cases outer <;> simp
  refine ⟨⟨chain ++ [j], groups ++ [pending ++ [s]], [], ⟨horigin, halong, ?_, rfl⟩, rfl⟩, ?_, ?_⟩
  · simp [hunfolds.split]
  · exact hany.trans
  · exact fun hthere => .inl (hany.symm.trans hthere)

theorem length_le_of_isEnd {optimize : Bool} (h : isEnd optimize s rest = true) :
    rest.length ≤ 1 := by
  rw [isEnd, Bool.or_eq_true, List.isEmpty_iff] at h
  rcases h with rfl | h
  · exact Nat.zero_le _
  · simp only [endsInId, Bool.and_eq_true, beq_iff_eq] at h
    exact Nat.le_of_eq h.2.1.2

/-- A join is an outer one just if what it leads along may be missing. -/
theorem Walk.Along.requiresOuterJoin_eq (h : w.Along passed (s :: rest))
    {forSelection optimize : Bool} (hassociation : s.member.kind.isAssociation = true)
    (hjoined : requiresOuterJoin s.member forSelection (isEnd optimize s rest) w.outer = false →
      isEnd optimize s rest = false) :
    requiresOuterJoin s.member forSelection (isEnd optimize s rest) w.outer =
      (passed.any PathSegment.mayBeMissing || s.mayBeMissing) := by
  rw [PathSegment.mayBeMissing, hassociation, Bool.true_and]
  cases hrule : requiresOuterJoin s.member forSelection (isEnd optimize s rest) w.outer with
  | true =>
    rw [Derived.requiresOuterJoin_eq, Bool.and_eq_true, Bool.and_eq_true, Bool.or_eq_true] at hrule
    rcases hrule.1.2 with hbefore | hhere
    · rw [h.missing_of_outer hbefore, Bool.true_or]
    · rw [hhere, Bool.or_true]
  | false =>
    have hend := hjoined hrule
    have hnone : (w.outer || s.member.optional) = false := by
      simpa [Derived.requiresOuterJoin_eq, hend, hassociation] using hrule
    obtain ⟨hbefore, hhere⟩ := Bool.or_eq_false_iff.1 hnone
    rw [hhere, Bool.or_false, eq_comm, Bool.eq_false_iff]
    intro hpassed
    rcases h.outer_of_missing hpassed with hmissing | hlength
    · rw [hbefore] at hmissing
      cases hmissing
    · -- with nothing behind the association, the path ends here
      obtain rfl : rest = [] := by simpa using hlength
      cases hend

theorem Walk.Along.step (h : w.Along passed (s :: rest)) (forSelection optimize : Bool) :
    (w.step forSelection optimize s rest).Along (passed ++ [s]) rest := by
  unfold Walk.step
  extract_lets names last outer
  split
  next hstays =>
    refine h.stay fun hmissing => ?_
    rcases Bool.or_eq_true_iff.1 hstays with hproperty | hend
    · simp only [Bool.not_eq_true'] at hproperty
      rw [PathSegment.mayBeMissing, hproperty] at hmissing
      cases hmissing
    · exact length_le_of_isEnd (Bool.and_eq_true_iff.1 hend).2
  next hjoins =>
    simp only [Bool.or_eq_true, Bool.and_eq_true, Bool.not_eq_true', not_or, not_and,
      Bool.not_eq_false, Bool.not_eq_true] at hjoins
    exact h.join hjoins.1 (h.requiresOuterJoin_eq hjoins.1 hjoins.2) rfl

theorem Walk.Along.follow {segments : List PathSegment} (h : w.Along passed segments)
    (forSelection optimize : Bool) :
    (follow forSelection optimize w segments).Along (passed ++ segments) [] := by
  induction segments generalizing w passed with
  | nil => simpa [Derived.follow] using h
  | cons s rest ih =>
    rw [follow_cons, List.append_cons]
    exact ih (h.step forSelection optimize)

end Walks

/-! ### Expressions -/

/-- The expression of a path leads along it, by a chain of joins that are outer ones just from the
first association on that may be missing. No join is changed or removed, so that the joins behind
any earlier expression stay the same. The last name must be there to be seen, as it is in every path
that was found from a source. -/
theorem resolvePath_unfolds (q : SelectQuery) (p : PropertyPath) (hp : p.leaf.name ≠ "")
    (forSelection optimize : Bool) :
    let (e, q') := resolvePath q p forSelection optimize
    (∃ chain groups pending, Unfolds q'.joins e p.segments chain groups pending ∧
        e.unfolded chain = p.toDotPath) ∧
      q.joins <+: q'.joins ∧
      ∀ o chain, Chain q.joins o chain → ∀ chain', Chain q'.joins o chain' ↔ chain' = chain := by
  have hstart : Walk.Along { query := q } [] p.segments :=
    ⟨⟨[], [], [], ⟨.root, ⟨rfl, by simp, by simp⟩, rfl, rfl⟩, rfl⟩, by simp, by simp⟩
  obtain ⟨⟨chain, groups, pending, hunfolds, -⟩, -, -⟩ := hstart.follow forSelection optimize
  have hmono : q.joins <+: (resolvePath q p forSelection optimize).2.joins :=
    (follow_extends forSelection optimize p.segments { query := q }).joins_mono
  have hunfolds' : Unfolds (resolvePath q p forSelection optimize).2.joins
      (resolvePath q p forSelection optimize).1 p.segments chain groups pending :=
    ⟨hunfolds.origin, hunfolds.along, hunfolds.split, hunfolds.path⟩
  refine ⟨⟨chain, groups, pending, hunfolds', hunfolds'.unfolded_eq ?_⟩, hmono, ?_⟩
  · intro s hs
    obtain rfl : p.leaf = s := by
      simpa [PropertyPath.leaf, List.getLast?_eq_some_getLast p.nonempty] using hs
    exact hp
  · intro o before hbefore chain'
    constructor
    · exact (hbefore.mono hmono).unique
    · rintro rfl
      exact hbefore.mono hmono

/-- The city of the head of a department: the department is joined already, and the head, who may be
missing, is joined behind it by an outer join. -/
theorem resolvePath_unfolds_of_head :
    let p : PropertyPath :=
      ⟨[⟨"app.Employee", { Attribute.toType .manyToOne "department" "app.Department" with
            optional := false }⟩,
        ⟨"app.Department", .toType .manyToOne "head" "app.Employee"⟩,
        ⟨"app.Employee", .toType .embedded "address" "app.Address"⟩,
        ⟨"app.Address", .basic "city" .string⟩], List.cons_ne_nil _ _⟩
    let department : Join := ⟨.inner, .root, "department", "d"⟩
    let q := { SelectQuery.ofEntity "Employee" "Employee" .entity with joins := [department] }
    let joins := [department, ⟨.left, .join 0, "head", "h"⟩]
    let e : PathExpression := ⟨.join 1, "address.city", "city"⟩
    p.leaf.name ≠ "" ∧ resolvePath q p true false = (e, { q with joins := joins }) ∧
      (∃ chain groups pending, Unfolds joins e p.segments chain groups pending ∧
        e.unfolded chain = "department.head.address.city") ∧
      (∀ chain, Chain joins (.join 0) chain ↔ chain = [department]) := by
  intro p department q joins e
  have hp : p.leaf.name ≠ "" := by decide
  have hunfolds := resolvePath_unfolds q p hp true false
  have hresolved : resolvePath q p true false = (e, { q with joins := joins }) := by decide
  have hdepartment : Chain q.joins (.join 0) ([] ++ [department]) := .join rfl .root
  rw [hresolved] at hunfolds
  exact ⟨hp, hresolved, hunfolds.1, hunfolds.2.2 _ _ hdepartment⟩

end Derived

end Jpql
