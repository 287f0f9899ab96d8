import Jpql.Declared
import Jpql.Proofs.Declared.Run
import Jpql.Proofs.Declared.Sharing
import Mathlib

/-! Queries whose markers have no numbers. Each marker stands for the argument at its place, and a
query that counts another's rows takes over the bindings place by place: what a marker is bound to
depends on how many markers are left in front of it, and not on which. -/

namespace Jpql

namespace Markers

def Piece.occurrence? : Piece → Option Occurrence
  | .text _ => none
  | .occurrence o => some o

/-- The markers of a text, in order. -/
def occurrences (cs : List Char) : List Occurrence := (pieces cs).filterMap Piece.occurrence?

/-- All markers of a text are without a number and name. -/
structure IsUnnumbered (cs : List Char) : Prop where
  positions : positions cs = []
  plain : ¬ HasExpressions cs
  unnumbered : ∀ o ∈ occurrences cs, o.marker = .unnumbered

end Markers

namespace ExtractedQuery

open Markers
open Step (result_bind_ok)

/-- The binding of an occurrence that is the argument at its place. -/
def bindingAt (o : Occurrence) (i : Nat) : ParameterBinding :=
  { identifier := .indexed (i + 1), origin := .argument (.indexed (i + 1)), kind := kindOf o }

/-- The bindings of occurrences for the arguments from the `k`-th on. -/
def numbered (os : List Occurrence) (k : Nat) : List ParameterBinding :=
  (os.zipIdx k).map fun (o, i) => bindingAt o i

theorem numbered_append (os os' : List Occurrence) (k : Nat) :
    numbered (os ++ os') k = numbered os k ++ numbered os' (k + os.length) := by
  simp [numbered, List.zipIdx_append]

theorem length_numbered (os : List Occurrence) (k : Nat) : (numbered os k).length = os.length := by
  simp [numbered]

theorem take_numbered {os : List Occurrence} {n : Nat} (h : n ≤ os.length) (k : Nat) :
    (numbered os k).take n = numbered (os.take n) k := by
  conv_lhs => rw [← List.take_append_drop n os, numbered_append]
  exact List.take_left' (by rw [length_numbered, List.length_take_of_le h])

theorem drop_numbered {os : List Occurrence} {n : Nat} (h : n ≤ os.length) (k : Nat) :
    (numbered os k).drop n = numbered (os.drop n) (k + n) := by
  have hlength := List.length_take_of_le h
  conv_lhs => rw [← List.take_append_drop n os, numbered_append, hlength]
  exact List.drop_left' (by rw [length_numbered, hlength])

theorem mem_numbered {os : List Occurrence} {k : Nat} {b : ParameterBinding}
    (h : b ∈ numbered os k) : ∃ o i, b = bindingAt o i ∧ k ≤ i ∧ i < k + os.length := by
  obtain ⟨⟨o, i⟩, hmem, rfl⟩ := List.mem_map.1 h
  obtain ⟨hle, hlt, -⟩ := List.mem_zipIdx hmem
  exact ⟨o, i, rfl, hle, hlt⟩

theorem bindsTo_bindingAt (o o' : Occurrence) (i j : Nat) :
    (bindingAt o i).bindsTo (bindingAt o' j) = (i == j) := by
  simp [bindingAt, ParameterBinding.bindsTo, BindingIdentifier.overlaps, BindingIdentifier.name?,
    BindingIdentifier.position?]

/-! ### Numbering -/

variable {os : List Occurrence} {o : Occurrence} {p p' : Progress} {s : Substituted}

/-- What has been assigned to unnumbered markers. -/
structure Numbers (os : List Occurrence) (p : Progress) : Prop where
  labels : p.labels.WellFormed
  sequential : p.labels.sequential = true
  used : p.labels.used.length = os.length
  bindings : p.bindings = numbered os 0
  registered : p.registered = numbered os 0
  identified : p.identified = false

theorem addBinding_numbered (os : List Occurrence) (o : Occurrence) :
    addBinding (bindingAt o os.length) (numbered os 0) = .ok (numbered (os ++ [o]) 0) := by
  have happend : numbered (os ++ [o]) 0 = numbered os 0 ++ [bindingAt o os.length] := by
    rw [numbered_append, Nat.zero_add]
    rfl
  have hapart : ∀ b ∈ numbered os 0, b.bindsTo (bindingAt o os.length) = false := by
    intro b hb
    obtain ⟨o', i, rfl, -, hi⟩ := mem_numbered hb
    rw [bindsTo_bindingAt]
    exact beq_eq_false_iff_ne.2 (by omega)
  have hnone : (numbered os 0).find?
      (fun b => b.bindsTo (bindingAt o os.length) && !(b == bindingAt o os.length)) = none :=
    List.find?_eq_none.2 fun b hb => by simp [hapart b hb]
  have hany : (numbered os 0).any (· == bindingAt o os.length) = false := by
    refine List.any_eq_false.2 fun b hb heq => ?_
    have heq : (b.identifier == (bindingAt o os.length).identifier && _ && _) = true := heq
    have hsame := eq_of_beq (Bool.and_eq_true_iff.1 (Bool.and_eq_true_iff.1 heq).1).1
    have hfree : b.identifier.overlaps (bindingAt o os.length).identifier = false := hapart b hb
    rw [hsame, overlaps_self] at hfree
    cases hfree
  rw [addBinding, hnone, hany, happend]
  rfl

/-- The first occurrence of an argument gets the parameter of its own name or number. -/
theorem assignArgument_first {argument : BindingIdentifier} {kind : BindingKind}
    {bindings : List ParameterBinding} (hnone : p.ofArgument argument = [])
    (hadd : addBinding { identifier := argument, origin := .argument argument, kind } p.bindings =
      .ok bindings) :
    p.assignArgument argument kind = .ok (argument, { p with
      bindings
      registered :=
        p.registered ++ [{ identifier := argument, origin := .argument argument, kind }] }) := by
  rw [Progress.assignArgument, hnone]
  dsimp only
  rw [Progress.register, hadd]
  rfl

theorem step_numbers (s : Substituted) (ho : o.marker = .unnumbered) (h : Numbers os p) :
    ∃ p', step s p (.occurrence o) = .ok p' ∧ Numbers (os ++ [o]) p' := by
  have hfirst : p.labels.allocate.1 = os.length + 1 := by
    rw [← h.used]
    exact if_pos h.sequential
  have hargument : argumentOf p o.marker = (.indexed (os.length + 1), none,
      { p with labels := p.labels.allocate.2, unnumbered := true }) := by
    rw [ho, ← hfirst]
    rfl
  have hnone : Progress.ofArgument { p with labels := p.labels.allocate.2, unnumbered := true }
      (.indexed (os.length + 1)) = [] := by
    refine List.filter_eq_nil_iff.2 fun b hb heq => ?_
    change b ∈ p.registered at hb
    rw [h.registered] at hb
    obtain ⟨o', i, rfl, -, hi⟩ := mem_numbered hb
    change (BindingIdentifier.indexed (i + 1) == .indexed (os.length + 1)) = true at heq
    have hsame := BindingIdentifier.indexed.inj (eq_of_beq heq)
    omega
  have hadd : addBinding (bindingAt o os.length) p.bindings = .ok (numbered (os ++ [o]) 0) := by
    rw [h.bindings, addBinding_numbered]
  have hassign := assignArgument_first hnone hadd
  have hunmixed : ¬ (p.identified && true) = true := by simp [h.identified]
  rw [step_occurrence_eq, hargument]
  dsimp only
  rw [if_neg hunmixed, Progress.assign, Option.bind_none]
  dsimp only
  rw [hassign]
  refine ⟨_, rfl, h.labels.allocate, h.sequential, ?_, rfl, ?_, h.identified⟩
  · change p.labels.allocate.2.used.length = _
    rw [h.labels.used_allocate, List.length_cons, List.length_append, h.used]
    rfl
  · change p.registered ++ _ = _
    rw [h.registered, numbered_append, Nat.zero_add]
    rfl

/-- All steps together number the markers. -/
theorem foldlM_step_numbers (s : Substituted) {pieces : List Piece}
    (hpieces : ∀ o, .occurrence o ∈ pieces → o.marker = .unnumbered) (h : Numbers os p) :
    ∃ p', pieces.foldlM (step s) p = .ok p' ∧
      Numbers (os ++ pieces.filterMap Piece.occurrence?) p' := by
  induction pieces generalizing os p with
  | nil => exact ⟨p, rfl, by simpa using h⟩
  | cons piece pieces ih =>
    cases piece with
    | text cs =>
      have hnext : Numbers os { p with text := p.text ++ cs } :=
        ⟨h.labels, h.sequential, h.used, h.bindings, h.registered, h.identified⟩
      exact ih (fun o ho => hpieces o (List.mem_cons_of_mem _ ho)) hnext
    | occurrence o =>
      obtain ⟨q, hstep, hq⟩ := step_numbers s (hpieces o List.mem_cons_self) h
      obtain ⟨p', hrun, hp'⟩ := ih (fun o ho => hpieces o (List.mem_cons_of_mem _ ho)) hq
      refine ⟨p', result_bind_ok.2 ⟨q, hstep, hrun⟩, ?_⟩
      rwa [List.append_assoc] at hp'

theorem scanned_numbers {cs : List Char} (h : IsUnnumbered cs) :
    ∃ p, scanned cs = .ok p ∧ p.bindings = numbered (occurrences cs) 0 := by
  have hstart : Numbers [] { labels := .ofUsed (positions cs) } := by
    rw [h.positions]
    exact ⟨Labels.wellFormed_ofUsed .nil, rfl, rfl, rfl, rfl, rfl⟩
  have hall : ∀ o, .occurrence o ∈ pieces cs → o.marker = .unnumbered :=
    fun o ho => h.unnumbered o (List.mem_filterMap.2 ⟨_, ho, rfl⟩)
  unfold scanned substituted
  dsimp only
  rw [substitute_eq h.plain]
  obtain ⟨p, hrun, hp⟩ := foldlM_step_numbers _ hall hstart
  exact ⟨p, hrun, hp.bindings⟩

/-! ### Bindings carried over -/

/-- Whether a derived binding stays beside a known one. -/
def stays (known b : ParameterBinding) : Bool := !(known.bindsTo b && !known.isCompatibleWith b)

theorem stays_elsewhere {os : List Occurrence} {k i : Nat} (hi : i < k ∨ k + os.length ≤ i)
    (o : Occurrence) : ∀ b ∈ numbered os k, stays (bindingAt o i) b = true := by
  intro b hb
  obtain ⟨o', j, rfl, hle, hlt⟩ := mem_numbered hb
  rw [stays, bindsTo_bindingAt, beq_eq_false_iff_ne.2 (by omega)]
  rfl

theorem stays_here (o o' : Occurrence) (i : Nat) :
    stays (bindingAt o i) (bindingAt o' i) = (kindOf o == kindOf o') := by
  rw [stays, bindsTo_bindingAt, ParameterBinding.isCompatibleWith]
  change (!((i == i) && !((BindingIdentifier.indexed (i + 1) == .indexed (i + 1)) &&
    (kindOf o).isCompatibleWith (kindOf o')))) = _
  rw [isCompatibleWith_kindOf]
  simp

theorem carryOver_of_stays {derived : List ParameterBinding} {known : ParameterBinding}
    (h : ∀ b ∈ derived, stays known b = true) : carryOver derived known = derived := by
  have hkept : derived.filter (stays known) = derived := List.filter_eq_self.2 h
  change (if (derived.filter (stays known)).length == derived.length then derived else _) = _
  rw [hkept, if_pos (beq_self_eq_true _)]

/-- A known binding takes its place among the derived ones. -/
theorem carryOver_place {derived : List ParameterBinding} {before after : List Occurrence}
    {o o' : Occurrence} (h : derived.Perm (numbered (before ++ o' :: after) 0)) :
    (carryOver derived (bindingAt o before.length)).Perm (numbered (before ++ o :: after) 0) := by
  have hsplit (x : Occurrence) : numbered (before ++ x :: after) 0 =
      numbered before 0 ++ bindingAt x before.length :: numbered after (before.length + 1) := by
    rw [numbered_append, Nat.zero_add]
    rfl
  rw [hsplit] at h ⊢
  have hfilter := h.filter (stays (bindingAt o before.length))
  rw [List.filter_append, List.filter_cons, stays_here,
    List.filter_eq_self.2 (stays_elsewhere (.inr (by simp)) o),
    List.filter_eq_self.2 (stays_elsewhere (.inl (Nat.lt_succ_self _)) o)] at hfilter
  change (if (derived.filter (stays (bindingAt o before.length))).length == derived.length
    then derived else _ ++ [_]).Perm _
  cases hkind : kindOf o == kindOf o' with
  | true =>
    -- The derived binding is the known one already.
    rw [hkind, if_pos rfl] at hfilter
    have hsame : bindingAt o before.length = bindingAt o' before.length := by
      rw [bindingAt, bindingAt, eq_of_beq hkind]
    rw [hfilter.length_eq, ← h.length_eq, if_pos (beq_self_eq_true _), hsame]
    exact h
  | false =>
    -- The derived binding gives way, and the known one is put at the end.
    rw [hkind, if_neg Bool.false_ne_true] at hfilter
    have hlength : ((derived.filter (stays (bindingAt o before.length))).length ==
        derived.length) = false := by
      rw [beq_eq_false_iff_ne, hfilter.length_eq, h.length_eq]
      simp
    rw [hlength, if_neg Bool.false_ne_true]
    exact (hfilter.append_right _).trans
      ((List.perm_append_singleton _ _).trans List.perm_middle.symm)

/-- Beyond the derived bindings there is no place to take. -/
theorem carryOver_beyond {derived : List ParameterBinding} {os : List Occurrence} {i : Nat}
    (h : derived.Perm (numbered os 0)) (hi : os.length ≤ i) (o : Occurrence) :
    carryOver derived (bindingAt o i) = derived :=
  carryOver_of_stays fun b hb => stays_elsewhere (.inr (by omega)) o b (h.mem_iff.1 hb)

/-- The bindings known by place go before those derived by place. -/
theorem foldl_carryOver (known derived : List Occurrence) :
    ((numbered known 0).foldl carryOver (numbered derived 0)).Perm
      (numbered (known.take derived.length ++ derived.drop known.length) 0) := by
  induction known using List.reverseRecOn with
  | nil => simp [numbered]
  | append_singleton known o ih =>
    rw [numbered_append, Nat.zero_add, List.foldl_append]
    change (carryOver _ (bindingAt o known.length)).Perm _
    rcases Nat.lt_or_ge known.length derived.length with hlt | hge
    · rw [List.take_of_length_le hlt.le, List.drop_eq_getElem_cons hlt] at ih
      have hplace := carryOver_place (o := o) ih
      rw [List.take_of_length_le (by rw [List.length_append]; exact hlt)]
      simpa using hplace
    · rw [List.drop_of_length_le hge, List.append_nil] at ih
      rw [carryOver_beyond ih (by rw [List.length_take]; omega) o, List.take_append_of_le_length hge,
        List.drop_of_length_le (by rw [List.length_append]; omega), List.append_nil]
      exact ih

end ExtractedQuery

namespace DeclaredQuery

open Markers ExtractedQuery

/-- Where the markers have no numbers, those of the count query take over the bindings of the
query's markers one by one from the first on, whichever of them are left. -/
theorem counting_numbers {query count : String} {isNative : Bool} {selector : FormSelector}
    {projection : Option String} {q : DeclaredQuery} (hq : create query isNative selector = .ok q)
    (hquery : IsUnnumbered query.toList) (hcount : q.text.counting projection = .ok count)
    (hunnumbered : IsUnnumbered count.toList) :
    q.bindings = numbered (occurrences query.toList) 0 ∧
    ∃ c, q.counting projection = .ok c ∧
      c.bindings.Perm (q.bindings.take (occurrences count.toList).length ++
        (numbered (occurrences count.toList) 0).drop q.bindings.length) := by
  obtain ⟨r, hr, hq⟩ := Step.result_bind_ok.1 hq
  obtain ⟨-, -, hq⟩ := Step.result_bind_ok.1 hq
  obtain rfl := Except.ok.inj hq
  obtain ⟨p, hp, rfl⟩ := parse_ok hr
  obtain ⟨p₀, hp₀, hbindings⟩ := scanned_numbers hquery
  obtain rfl := Except.ok.inj (hp.symm.trans hp₀)
  obtain ⟨p', hp', hderived⟩ := scanned_numbers hunnumbered
  have hsame : DeclaredQuery.bindings (ofExtracted (finished query isNative id p) selector) =
      numbered (occurrences query.toList) 0 := hbindings
  have hcounting : counting (ofExtracted (finished query isNative id p) selector) projection =
      .ok (ofExtracted (finished count isNative (fun derived =>
        (finished query isNative id p).bindings.foldl carryOver derived) p') selector) := by
    rw [counting, hcount]
    change (ExtractedQuery.withText _ count >>= _) = _
    rw [ExtractedQuery.withText, extract_eq]
    change ((scanned count.toList).map _ >>= _) = _
    rw [hp']
    rfl
  refine ⟨hsame, _, hcounting, ?_⟩
  change ((finished query isNative id p).bindings.foldl carryOver p'.bindings).Perm _
  have hcarried := foldl_carryOver (occurrences query.toList) (occurrences count.toList)
  rw [hsame, hderived, show (finished query isNative id p).bindings = _ from hbindings,
    length_numbered]
  refine hcarried.trans (.of_eq ?_)
  rcases Nat.le_total (occurrences count.toList).length (occurrences query.toList).length with
    hle | hle
  · rw [take_numbered hle, List.drop_of_length_le hle, List.append_nil,
      List.drop_of_length_le (by rwa [length_numbered]), List.append_nil]
  · rw [List.take_of_length_le hle, List.take_of_length_le (by rwa [length_numbered]),
      numbered_append, drop_numbered hle]

theorem counting_numbers_filter : ∃ q, create "select u from U u where u.a = ?" false {} = .ok q ∧
    IsUnnumbered "select u from U u where u.a = ?".toList ∧
    q.text.counting none = .ok "select count(u) from U u where u.a = ?" ∧
    IsUnnumbered "select count(u) from U u where u.a = ?".toList ∧
    q.bindings = numbered (occurrences "select u from U u where u.a = ?".toList) 0 ∧
    ∃ c, q.counting none = .ok c ∧
      c.bindings.Perm
        (q.bindings.take (occurrences "select count(u) from U u where u.a = ?".toList).length ++
          (numbered (occurrences "select count(u) from U u where u.a = ?".toList) 0).drop
            q.bindings.length) := by
  have haccepted : (create "select u from U u where u.a = ?" false {}).toOption.map
      (fun q => (q.text.counting none).toOption) =
        some (some "select count(u) from U u where u.a = ?") := by decide +kernel
  obtain ⟨q, hq, hcounted⟩ := Step.exists_of_toOption_map haccepted
  have hcount : q.text.counting none = .ok "select count(u) from U u where u.a = ?" := by
    cases hresult : q.text.counting none with
    | error e => rw [hresult] at hcounted; cases hcounted
    | ok count => rw [hresult] at hcounted; rw [Option.some.inj hcounted]
  have hquery : IsUnnumbered "select u from U u where u.a = ?".toList :=
    ⟨by decide, by unfold HasExpressions; decide, by decide⟩
  have hunnumbered : IsUnnumbered "select count(u) from U u where u.a = ?".toList :=
    ⟨by decide, by unfold HasExpressions; decide, by decide⟩
  exact ⟨q, hq, hquery, hcount, hunnumbered, counting_numbers hq hquery hcount hunnumbered⟩

/-- A marker behind one that the count drops is bound to that one's argument. -/
theorem counting_shifts :
    (create "select ? from U u where u.a = ?" false {}).toOption.map (fun q =>
      q.bindings.map fun b => (b.identifier, b.origin == .argument b.identifier)) =
        some [(.indexed 1, true), (.indexed 2, true)] ∧
    (create "select ? from U u where u.a = ?" false {} >>= (·.counting none)).toOption.map (fun c =>
      (c.query, c.bindings.map fun b => (b.identifier, b.origin == .argument (.indexed 1)))) =
        some ("select count(u) from U u where u.a = ?", [(.indexed 1, true)]) := by
  decide +kernel

end DeclaredQuery

end Jpql
