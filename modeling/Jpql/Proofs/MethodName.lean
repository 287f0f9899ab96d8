import Jpql.MethodName
import Jpql.Proofs.PropertyPath
import Jpql.Proofs.Step

/-! What reading a method name guarantees: each alternative has conditions, their properties are
attributes of the metamodel, and the name sorts on properties as they are. -/

namespace Jpql.MethodName

open Step (result_bind_ok result_pure_ok result_throw_ok exists_of_mem_mapM
  length_of_mapM)

/-- The properties of the conditions are attributes of the metamodel. -/
def OnAttributes (m : Metamodel) (parts : List Part) : Prop :=
  ∀ part ∈ parts, ∀ s ∈ part.property.segments, PropertyPath.IsAttribute m s

/-- What reading a name guarantees. -/
structure WellFormed (m : Metamodel) (method : MethodName) : Prop where
  onAttributes : OnAttributes m method.parts
  conditions : ∀ parts ∈ method.alternatives, parts ≠ []
  orders : ∀ o ∈ method.sort.orders, o.rawExpression = false ∧ o.ignoreCase = false

variable {m : Metamodel} {owner : ManagedType}

/-- A piece of a text that is not empty is not empty either. -/
theorem exists_mem_splitKeyword (k : Char) (ks : List Char) {cs : List Char} (h : cs ≠ []) :
    ∃ piece ∈ splitKeyword k ks cs, piece ≠ [] := by
  have hprepend (front : List Char) (pieces : List (List Char)) (hfront : front ≠ []) :
      ∃ piece ∈ prependTo front pieces, piece ≠ [] := by
    cases pieces with
    | nil => exact ⟨front, by simp [prependTo], hfront⟩
    | cons piece pieces => exact ⟨front ++ piece, by simp [prependTo], by simp [hfront]⟩
  fun_induction splitKeyword k ks cs with
  | case1 => exact absurd rfl h
  | case2 c cs rest hstrip hboundary ih =>
    have hrest : rest ≠ [] := by
      rintro rfl
      cases hboundary
    obtain ⟨piece, hmem, hne⟩ := ih hrest
    exact ⟨piece, List.mem_cons_of_mem _ hmem, hne⟩
  | case3 c cs rest hstrip hboundary ih => exact hprepend _ _ (by simp)
  | case4 c cs hstrip ih => exact hprepend _ _ (by simp)

theorem splitAnd_ne_nil {alternative : List Char} (h : alternative ≠ []) :
    splitAnd alternative ≠ [] := by
  obtain ⟨piece, hmem, hne⟩ := exists_mem_splitKeyword 'A' ['n', 'd'] h
  exact List.ne_nil_of_mem (List.mem_filter.2 ⟨hmem, by simpa using hne⟩)

theorem partParse_onAttributes {allIgnoreCase : Bool} {source : String} {part : Part}
    (h : Part.parse m owner allIgnoreCase source = .ok part) :
    ∀ s ∈ part.property.segments, PropertyPath.IsAttribute m s := by
  unfold Part.parse at h
  obtain ⟨property, hproperty, h⟩ := result_bind_ok.1 h
  obtain rfl := result_pure_ok.1 h
  exact PropertyPath.ofSource_isAttribute hproperty

theorem orderOfBlock_plain {block : List Char} {o : Order} (h : orderOfBlock m owner block = .ok o) :
    o.rawExpression = false ∧ o.ignoreCase = false := by
  unfold orderOfBlock at h
  split at h
  rename_i property direction _
  split at h
  · obtain ⟨_, hthrow, _⟩ := result_bind_ok.1 h
    exact (result_throw_ok.1 hthrow).elim
  · obtain ⟨path, -, h⟩ := result_bind_ok.1 h
    obtain rfl := result_pure_ok.1 h
    exact ⟨rfl, rfl⟩

theorem parseSort_plain {clause : List Char} {sort : Sorting}
    (h : parseSort m owner clause = .ok sort) :
    ∀ o ∈ sort.orders, o.rawExpression = false ∧ o.ignoreCase = false := by
  unfold parseSort at h
  obtain ⟨orders, horders, h⟩ := result_bind_ok.1 h
  obtain rfl := result_pure_ok.1 h
  intro o ho
  obtain ⟨block, -, hblock⟩ := exists_of_mem_mapM horders ho
  exact orderOfBlock_plain hblock

theorem parse_wellFormed {name : String} {method : MethodName}
    (h : parse m owner name = .ok method) : method.WellFormed m := by
  unfold parse at h
  split at h
  rename_i subject predicate _
  split at h
  rename_i words allIgnoreCase _
  extract_lets finish at h
  -- Whichever way the order is cut off, the same is done with both pieces.
  have hfinish {x : List Char × Option (List Char)} (h : finish x = .ok method) :
      method.WellFormed m := by
    obtain ⟨conditions, order⟩ := x
    obtain ⟨alternatives, halternatives, h⟩ := result_bind_ok.1 h
    obtain ⟨sort, hsort, rfl⟩ : ∃ sort : Sorting,
        (∀ o ∈ sort.orders, o.rawExpression = false ∧ o.ignoreCase = false) ∧ method = {
          distinct := Text.contains "Distinct".toList subject
          isCount := (Text.stripFront? "count".toList subject).isSome
          isExists := (Text.stripFront? "exists".toList subject).isSome
          isDelete := (stripAny? ["delete".toList, "remove".toList] subject).isSome
          limit := limit? subject
          alternatives, sort } := by
      rcases order with _ | clause
      · obtain ⟨sort, hsort, h⟩ := result_bind_ok.1 h
        obtain rfl := result_pure_ok.1 hsort
        exact ⟨_, by simp [Sorting.unsorted], (result_pure_ok.1 h).symm⟩
      · obtain ⟨sort, hsort, h⟩ := result_bind_ok.1 h
        exact ⟨sort, parseSort_plain hsort, (result_pure_ok.1 h).symm⟩
    refine ⟨fun part hpart => ?_, fun parts hparts => ?_, hsort⟩
    · obtain ⟨parts, hparts, hmem⟩ := List.mem_flatten.1 hpart
      obtain ⟨piece, -, hpiece⟩ := exists_of_mem_mapM halternatives hparts
      obtain ⟨source, -, hsource⟩ := exists_of_mem_mapM hpiece hmem
      exact partParse_onAttributes hsource
    · obtain ⟨piece, hpiece, hread⟩ := exists_of_mem_mapM halternatives hparts
      have hne : piece ≠ [] := by simpa using (List.mem_filter.1 hpiece).2
      have hlength := length_of_mapM hread
      have hpos := List.length_pos_iff.2 (splitAnd_ne_nil hne)
      exact List.length_pos_iff.1 (by omega)
  split at h
  all_goals obtain ⟨x, -, h⟩ := result_bind_ok.1 h
  all_goals exact hfinish h

end Jpql.MethodName
