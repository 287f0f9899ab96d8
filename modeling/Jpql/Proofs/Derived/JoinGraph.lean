import Jpql.Proofs.Derived.Creation
import Jpql.Proofs.Derived.Rejoining
import Jpql.Proofs.Text.LowerCase

/-! The graph that joins form. Whatever is joined, and in whichever order, no two joins have the same
alias, and none has that of the root. Aliases come from two sources, which do not meet: the lower-case
form of a letter is too short to be a number with `join_` in front. A letter is taken only while it is
free, and a number once. So an alias tells a join, and the type, the source and the path tell it too:
who asks for a join that is there gets that one, and the query stays as it is. -/

namespace Jpql.Derived

/-! ### Aliases -/

/-- The lower-case form of a character has two characters at most. -/
theorem length_lowerOf_le (c : Char) : (Text.lowerOf c).length ≤ 2 := by
  rcases Text.lowerOf_cases c with h | ⟨d, h, -, -⟩ | h
  · simp [h]
  · simp [h]
  · simp [h]

theorem ne_numbered_of_length {name : String} (h : name.length ≤ 2) (n : Nat) :
    name ≠ "join_" ++ toString n := by
  rintro rfl
  rw [String.length_append] at h
  have hword : "join_".length = 5 := rfl
  omega

/-- A letter is never taken for a number. -/
theorem initial?_ne_numbered {cs : List Char} {name : String} (h : initial? cs = some name)
    (n : Nat) : name ≠ "join_" ++ toString n := by
  unfold initial? at h
  split at h
  next c _ =>
    split at h <;> cases h
    exact ne_numbered_of_length (by simpa using length_lowerOf_le c) n
  next => cases h

theorem eq_of_numbered_eq {n k : Nat} (h : "join_" ++ toString n = "join_" ++ toString k) :
    n = k :=
  Nat.repr_inj.1 ((String.append_right_inj _).1 h)

/-- What tells a join. -/
def Join.identity (j : Join) : JoinType × Origin × String := (j.type, j.source, j.path)

namespace SelectQuery

/-- The aliases in use: that of the root, and one for each join. -/
def aliases (q : SelectQuery) : List String := q.aliasName :: q.joins.map Join.aliasName

theorem isFree_iff {q : SelectQuery} {name : String} : q.isFree name = true ↔ name ∉ q.aliases := by
  simp only [isFree, aliases, Bool.and_eq_true, bne_iff_ne, List.all_eq_true, List.mem_cons,
    List.mem_map, not_or, not_exists, not_and, ne_eq]

theorem joinIndex?_eq_none {q : SelectQuery} {type : JoinType} {source : Origin} {path : String} :
    q.joinIndex? type source path = none ↔ (type, source, path) ∉ q.joins.map Join.identity := by
  simp only [joinIndex?, List.findIdx?_eq_none_iff, List.mem_map, Join.identity, Prod.mk.injEq]
  constructor
  · rintro h ⟨j, hj, rfl, rfl, rfl⟩
    simpa using h j hj
  · intro h j hj
    rw [Bool.eq_false_iff]
    intro hsame
    simp only [Bool.and_eq_true, beq_iff_eq] at hsame
    exact h ⟨j, hj, hsame.1.1, hsame.1.2, hsame.2⟩

/-- The joins of a query are told apart by their aliases, and as well by what they join. The numbers
up to the next one are the only ones in use. -/
structure Graph (q : SelectQuery) : Prop where
  aliases : q.aliases.Nodup
  wellJoined : WellJoined q.joins
  identities : (q.joins.map Join.identity).Nodup
  numbers : ∀ n, "join_" ++ toString n ∈ q.aliases → n < q.numbered

theorem graph_ofEntity (entityName simpleName : String) (selection : Selection) :
    (ofEntity entityName simpleName selection).Graph where
  aliases := List.nodup_singleton _
  wellJoined := wellJoined_nil
  identities := List.nodup_nil
  numbers := by
    intro n hn
    have hroot : (initial? simpleName.toList).getD "r" = "join_" ++ toString n := by
      simpa [SelectQuery.aliases, ofEntity, eq_comm] using hn
    cases hinitial : initial? simpleName.toList with
    | none =>
      rw [hinitial] at hroot
      exact absurd hroot (ne_numbered_of_length (by decide) n)
    | some name =>
      rw [hinitial] at hroot
      exact absurd hroot (initial?_ne_numbered hinitial n)

variable {q : SelectQuery} {type : JoinType} {source : Origin} {path : String}

/-- A new join under an alias that is not in use. -/
theorem Graph.concat (h : q.Graph) (hnew : q.joinIndex? type source path = none)
    (hsource : source.Below q.joins.length) {name : String} (hname : name ∉ q.aliases) {numbered : Nat}
    (hmono : q.numbered ≤ numbered) (hnumber : ∀ n, name = "join_" ++ toString n → n < numbered) :
    Graph { q with joins := q.joins ++ [⟨type, source, path, name⟩], numbered } where
  aliases := by
    have hconcat : (q.aliases.concat name).Nodup := h.aliases.concat hname
    simpa [SelectQuery.aliases] using hconcat
  wellJoined := h.wellJoined.concat hsource
  identities := by
    have hconcat : ((q.joins.map Join.identity).concat (type, source, path)).Nodup :=
      h.identities.concat (joinIndex?_eq_none.1 hnew)
    simpa [Join.identity] using hconcat
  numbers := by
    intro n hn
    have hcases : "join_" ++ toString n ∈ q.aliases ∨ name = "join_" ++ toString n := by
      simpa [SelectQuery.aliases, or_assoc, eq_comm] using hn
    rcases hcases with hbefore | hlast
    · exact Nat.lt_of_lt_of_le (h.numbers n hbefore) hmono
    · exact hnumber n hlast

/-- Whichever alias a join gets, the graph stays one. -/
theorem Graph.join (h : q.Graph) (type : JoinType) (hsource : source.Below q.joins.length)
    (path : String) : (q.join type source path).2.Graph := by
  unfold SelectQuery.join
  split
  next => exact h
  next hnew =>
    unfold push
    split
    next name hname =>
      obtain ⟨hinitial, hfree⟩ := Option.filter_eq_some_iff.1 hname
      exact h.concat hnew hsource (isFree_iff.1 hfree) (Nat.le_refl _)
        fun n hn => absurd hn (initial?_ne_numbered hinitial n)
    next =>
      refine h.concat hnew hsource (fun hused => ?_) (Nat.le_succ _) fun n hn => ?_
      · exact Nat.lt_irrefl _ (h.numbers q.numbered hused)
      · rw [eq_of_numbered_eq hn]
        exact Nat.lt_succ_self _

/-- A join that is there is returned to whoever asks for it. -/
theorem Graph.join_eq (h : q.Graph) {i : Nat} {j : Join} (hi : q.joins[i]? = some j) :
    q.join j.type j.source j.path = (.join i, q) := by
  obtain ⟨hlt, rfl⟩ := List.getElem?_eq_some_iff.1 hi
  cases hfound : q.joinIndex? q.joins[i].type q.joins[i].source q.joins[i].path with
  | none => exact absurd (List.mem_map_of_mem (List.getElem_mem hlt)) (joinIndex?_eq_none.1 hfound)
  | some k =>
    obtain ⟨hk, hmatch, -⟩ := List.findIdx?_eq_some_iff_getElem.1 hfound
    simp only [Bool.and_eq_true, beq_iff_eq] at hmatch
    have hidentity : q.joins[k].identity = q.joins[i].identity := by simp [Join.identity, hmatch]
    have hsame : q.joins[k] = q.joins[i] :=
      List.inj_on_of_nodup_map h.identities (List.getElem_mem hk) (List.getElem_mem hlt) hidentity
    have hindex : k = i := (List.Nodup.of_map _ h.identities).getElem_inj_iff.1 hsame
    rw [SelectQuery.join, hfound, hindex]

end SelectQuery

/-! ### Calls -/

/-- A join that was asked for, with the origin that was returned for it. -/
structure JoinCall where
  type : JoinType
  source : Origin
  path : String
  origin : Origin
  deriving DecidableEq

/-- The calls have made the second query of the first. Each starts at the root, or at an origin that
was returned for an earlier one. -/
inductive Calls (start : SelectQuery) : List JoinCall → SelectQuery → Prop
  | nil : Calls start [] start
  | join {calls : List JoinCall} {q : SelectQuery} (h : Calls start calls q) (type : JoinType)
      {source : Origin} (hsource : source ∈ Origin.root :: calls.map JoinCall.origin)
      (path : String) :
      Calls start (calls ++ [⟨type, source, path, (q.join type source path).1⟩])
        (q.join type source path).2

variable {start q : SelectQuery} {calls : List JoinCall}

/-- What was returned for a call is returned for it again, without a change of the query. -/
theorem Calls.again (h : Calls start calls q) :
    ∀ call ∈ calls, q.join call.type call.source call.path = (call.origin, q) := by
  induction h with
  | nil => simp
  | @join calls q h type source hsource path ih =>
    intro call hcall
    rcases List.mem_append.1 hcall with hbefore | hlast
    · have hthere : (q.join call.type call.source call.path).2.joins <+:
          (q.join type source path).2.joins := by
        rw [ih call hbefore]
        exact (q.join_extends type source path).joins_mono
      rw [SelectQuery.join_again hthere, ih call hbefore]
    · obtain rfl := List.mem_singleton.1 hlast
      exact SelectQuery.join_again (List.prefix_refl _)

/-- A call that was answered leads to a join that is there. -/
theorem Calls.source_below (h : Calls start calls q) :
    ∀ source ∈ Origin.root :: calls.map JoinCall.origin, source.Below q.joins.length := by
  refine List.forall_mem_cons.2 ⟨trivial, List.forall_mem_map.2 fun call hcall => ?_⟩
  obtain ⟨i, j, horigin, hj, -⟩ := q.exists_join call.type call.source call.path
  rw [h.again call hcall] at horigin hj
  rw [show call.origin = .join i from horigin]
  exact (List.getElem?_eq_some_iff.1 hj).1

theorem Calls.graph (h : Calls start calls q) (hstart : start.Graph) : q.Graph := by
  induction h with
  | nil => exact hstart
  | join h type hsource path ih => exact ih.join type (h.source_below _ hsource) path

/-- After any sequence of joins from the root of an entity, the aliases of the root and of the joins
are all different, joins start at the root or at earlier joins, and no two join the same. Every join,
and every call that was made, is answered with the same origin again and changes nothing, not even
the number that the next alias may take. -/
theorem joins_told_apart (entityName simpleName : String) (selection : Selection)
    (h : Calls (.ofEntity entityName simpleName selection) calls q) :
    (q.aliasName :: q.joins.map Join.aliasName).Nodup ∧ WellJoined q.joins ∧
      (q.joins.map fun j => (j.type, j.source, j.path)).Nodup ∧
      (∀ i j, q.joins[i]? = some j → q.join j.type j.source j.path = (.join i, q)) ∧
      ∀ call ∈ calls, q.join call.type call.source call.path = (call.origin, q) := by
  have hgraph : q.Graph := h.graph (SelectQuery.graph_ofEntity entityName simpleName selection)
  exact ⟨hgraph.aliases, hgraph.wellJoined, hgraph.identities, fun _ _ hi => hgraph.join_eq hi,
    h.again⟩

/-- Products with parts: the letter of the root is taken, and so is that of the first parts. The
products that are joined again are the ones that are there. -/
theorem joins_told_apart_of_products :
    let products : Join := ⟨.left, .root, "ürünler", "join_0"⟩
    let parts : Join := ⟨.left, .join 0, "Parçalar", "p"⟩
    let pieces : Join := ⟨.inner, .join 1, "stok.parça", "join_1"⟩
    let q : SelectQuery := { SelectQuery.ofEntity "Ürün" "Ürün" .entity with
      joins := [products, parts, pieces], numbered := 2 }
    let calls : List JoinCall := [⟨.left, .root, "ürünler", .join 0⟩,
      ⟨.left, .join 0, "Parçalar", .join 1⟩, ⟨.inner, .join 1, "stok.parça", .join 2⟩,
      ⟨.left, .root, "ürünler", .join 0⟩]
    q.aliasName = "ü" ∧ Calls (.ofEntity "Ürün" "Ürün" .entity) calls q ∧
      (q.aliasName :: q.joins.map Join.aliasName).Nodup ∧ WellJoined q.joins ∧
      (q.joins.map fun j => (j.type, j.source, j.path)).Nodup ∧
      (∀ i j, q.joins[i]? = some j → q.join j.type j.source j.path = (.join i, q)) ∧
      ∀ call ∈ calls, q.join call.type call.source call.path = (call.origin, q) := by
  intro products parts pieces q calls
  have hcalls : Calls (.ofEntity "Ürün" "Ürün" .entity) calls q := by
    have hstart : Calls (.ofEntity "Ürün" "Ürün" .entity) [] (.ofEntity "Ürün" "Ürün" .entity) := .nil
    have hfirst := hstart.join .left (show .root ∈ _ by decide) "ürünler"
    have hsecond := hfirst.join .left (show .join 0 ∈ _ by decide) "Parçalar"
    have hthird := hsecond.join .inner (show .join 1 ∈ _ by decide) "stok.parça"
    have hagain := hthird.join .left (show .root ∈ _ by decide) "ürünler"
    convert hagain using 1
    · decide
    · decide
  exact ⟨by decide, hcalls, joins_told_apart "Ürün" "Ürün" .entity hcalls⟩

end Jpql.Derived
