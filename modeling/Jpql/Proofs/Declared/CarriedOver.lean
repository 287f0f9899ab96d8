import Jpql.Declared
import Jpql.Proofs.Declared.Run
import Jpql.Proofs.Declared.Unnumbered

/-! Bindings that are carried over to another text for the same arguments. Extracting that text
yields the markers; a binding that is known for one of them goes before the one derived from the
text, and no binding is lost or doubled. -/

namespace Jpql

namespace BindingIdentifier

/-- A name alone or a position alone. -/
def IsSingle (i : BindingIdentifier) : Prop := (∃ name, i = .named name) ∨ ∃ n, i = .indexed n

theorem IsSingle.overlaps_iff {i j : BindingIdentifier} (hi : i.IsSingle) (hj : j.IsSingle) :
    i.overlaps j = true ↔ i = j := by
  rcases hi with ⟨name, rfl⟩ | ⟨n, rfl⟩ <;> rcases hj with ⟨name', rfl⟩ | ⟨n', rfl⟩ <;>
    simp [overlaps, name?, position?]

end BindingIdentifier

theorem ParameterOrigin.same_iff {a b : ParameterOrigin} (ha : a.isSynthetic = false) :
    (a == b) = true ↔ a = b := by
  change a.same b = true ↔ a = b
  cases a <;> cases b <;> simp_all [same, isSynthetic]

namespace ExtractedQuery

open Markers
open Step (result_bind_ok)

/-! ### Bindings as they are extracted -/

theorem inherited_isSingle : Inherited BindingIdentifier.IsSingle where
  indexed n := .inr ⟨n, rfl⟩
  fresh name names _ := .inl ⟨freshName name names, rfl⟩

variable {p p' : Progress} {argument target : BindingIdentifier} {kind : BindingKind}

theorem mem_addBinding {b : ParameterBinding} {bs bs' : List ParameterBinding}
    (h : addBinding b bs = .ok bs') : ∀ b' ∈ bs', b' ∈ bs ∨ b' = b := by
  unfold addBinding at h
  split at h
  · cases h
  · obtain rfl := Except.ok.inj h
    intro b' hb'
    split at hb'
    · exact .inl hb'
    · simpa using hb'

theorem mem_register {b : ParameterBinding} (h : p.register b = .ok p') :
    ∀ b' ∈ p'.bindings, b' ∈ p.bindings ∨ b' = b := by
  obtain ⟨bindings, hadd, hp'⟩ := result_bind_ok.1 h
  rw [← Except.ok.inj hp']
  exact mem_addBinding hadd

/-- An argument is bound by a binding that is there already or by one that is added. -/
theorem mem_assignArgument (h : p.assignArgument argument kind = .ok (target, p')) :
    ∀ b ∈ p'.bindings, b ∈ p.bindings ∨ b.origin = .argument argument := by
  unfold Progress.assignArgument at h
  split at h
  next =>
    obtain ⟨q, hregister, hq⟩ := result_bind_ok.1 h
    obtain ⟨rfl, rfl⟩ := Prod.mk.inj (Except.ok.inj hq)
    exact fun b hb => (mem_register hregister b hb).imp_right (congrArg _)
  next =>
    dsimp only at h
    split at h
    next =>
      obtain ⟨rfl, rfl⟩ := Prod.mk.inj (Except.ok.inj h)
      exact fun _ => .inl
    next =>
      obtain ⟨q, hregister, hq⟩ := result_bind_ok.1 h
      obtain ⟨rfl, rfl⟩ := Prod.mk.inj (Except.ok.inj hq)
      obtain ⟨labels, hfresh, -⟩ := freshIdentifier_eq p argument
      rw [hfresh] at hregister
      exact fun b hb => (mem_register hregister b hb).imp_right (congrArg _)

/-- No step makes up a value. -/
theorem step_origins {s : Substituted} {piece : Piece} (h : step s p piece = .ok p')
    (hp : ∀ b ∈ p.bindings, b.origin.isSynthetic = false) :
    ∀ b ∈ p'.bindings, b.origin.isSynthetic = false := by
  cases piece with
  | text cs =>
    obtain rfl := Except.ok.inj h
    exact hp
  | occurrence o =>
    obtain ⟨argument, key, labels, unnumbered, identified, heq, -⟩ := argumentOf_eq p o.marker
    rw [step_occurrence_eq, heq] at h
    dsimp only at h
    split at h
    · cases h
    obtain ⟨⟨target, q⟩, hassign, hp'⟩ := result_bind_ok.1 h
    rw [← Except.ok.inj hp']
    change ∀ b ∈ q.bindings, _
    unfold Progress.assign at hassign
    split at hassign
    next expression _ =>
      obtain ⟨bindings, hadd, hq⟩ := result_bind_ok.1 hassign
      obtain ⟨rfl, rfl⟩ := Prod.mk.inj (Except.ok.inj hq)
      intro b hb
      rcases mem_addBinding hadd b hb with hb | rfl
      · exact hp b hb
      · rfl
    next =>
      intro b hb
      rcases mem_assignArgument hassign b hb with hb | horigin
      · exact hp b hb
      · rw [horigin]
        rfl

theorem foldlM_step_origins {s : Substituted} {pieces : List Piece}
    (h : pieces.foldlM (step s) p = .ok p')
    (hp : ∀ b ∈ p.bindings, b.origin.isSynthetic = false) :
    ∀ b ∈ p'.bindings, b.origin.isSynthetic = false := by
  induction pieces generalizing p with
  | nil =>
    obtain rfl := Except.ok.inj h
    exact hp
  | cons piece pieces ih =>
    obtain ⟨q, hstep, hrest⟩ := result_bind_ok.1 h
    exact ih hrest (step_origins hstep hp)

/-- A binding that prepares an argument or the value of an expression as a marker says. -/
structure IsExtracted (b : ParameterBinding) : Prop where
  identifier : b.identifier.IsSingle
  origin : b.origin.isSynthetic = false
  kind : ∃ o, b.kind = kindOf o

/-- Extracted bindings of which each has a parameter of its own. -/
structure Tidy (bs : List ParameterBinding) : Prop where
  extracted : ∀ b ∈ bs, IsExtracted b
  nodup : (bs.map (·.identifier)).Nodup

theorem tidy_scanned {cs : List Char} (h : scanned cs = .ok p) : Tidy p.bindings := by
  obtain ⟨segments, -, hassigns⟩ := foldlM_step_assigns inherited_isSingle h (registered_start _)
    fun o name _ _ => .inl ⟨name, rfl⟩
  refine ⟨fun b hb => ?_, hassigns.registered.nodup⟩
  rcases hassigns.added b hb with hnone | ⟨x, hx, htarget⟩
  · cases hnone
  obtain ⟨b', hb', hidentifier, hkind⟩ := hassigns.binds x hx
  -- The binding of the marker is the one at hand, since no two have a parameter in common.
  obtain rfl : b' = b :=
    List.inj_on_of_nodup_map hassigns.registered.nodup hb' hb (hidentifier.trans htarget.symm)
  exact ⟨htarget ▸ hassigns.identifier x hx, foldlM_step_origins h (List.forall_mem_nil _) b' hb,
    x.occurrence, hkind⟩

section Compatible

variable {a b : ParameterBinding} {bs : List ParameterBinding}

theorem IsExtracted.bindsTo_iff (ha : IsExtracted a) (hb : IsExtracted b) :
    a.bindsTo b = true ↔ a.identifier = b.identifier := ha.identifier.overlaps_iff hb.identifier

theorem IsExtracted.isCompatibleWith_iff (ha : IsExtracted a) (hb : IsExtracted b) :
    a.isCompatibleWith b = true ↔ b.origin = a.origin ∧ b.kind = a.kind := by
  obtain ⟨o, hkind⟩ := ha.kind
  obtain ⟨o', hkind'⟩ := hb.kind
  rw [ParameterBinding.isCompatibleWith, hkind, hkind', isCompatibleWith_kindOf, Bool.and_eq_true,
    ParameterOrigin.same_iff ha.origin, beq_iff_eq]
  exact and_congr eq_comm eq_comm

theorem Tidy.apart (h : Tidy bs) : bs.Pairwise fun a b => a.bindsTo b = false := by
  refine (List.pairwise_map.1 h.nodup).imp_of_mem fun ha hb hne => Bool.eq_false_iff.2 fun heq => ?_
  exact hne (((h.extracted _ ha).bindsTo_iff (h.extracted _ hb)).1 heq)

end Compatible

/-! ### Carrying bindings over -/

section CarryOver

variable {derived ks ks' middle result : List ParameterBinding} {known b : ParameterBinding}

/-- What carrying bindings over leads to: the parameters stay the derived ones, and each has the
binding that is known for it or, if there is none, the derived one. -/
structure Carries (derived ks result : List ParameterBinding) : Prop where
  tidy : Tidy result
  identifiers : (result.map (·.identifier)).Perm (derived.map (·.identifier))
  compatible : ∀ k ∈ ks, ∀ b ∈ result, k.identifier = b.identifier → k.isCompatibleWith b = true
  mem : ∀ b ∈ result, b ∈ ks ∨ b ∈ derived

theorem stays_iff (hknown : IsExtracted known) (hb : IsExtracted b) :
    stays known b = true ↔ (known.identifier = b.identifier → known.isCompatibleWith b = true) := by
  rw [← hknown.bindsTo_iff hb, stays]
  cases known.bindsTo b <;> cases known.isCompatibleWith b <;> decide

theorem carryOver_of_not_stays {before after : List ParameterBinding} (hb : stays known b = false)
    (hother : ∀ b' ∈ before ++ after, stays known b' = true) :
    carryOver (before ++ b :: after) known = before ++ after ++ [known] := by
  have hkept : (before ++ b :: after).filter (stays known) = before ++ after := by
    rw [List.filter_append, List.filter_cons_of_neg (by simp [hb]), ← List.filter_append,
      List.filter_eq_self.2 hother]
  have hshorter : ((before ++ after).length == (before ++ b :: after).length) = false := by
    simp
  change (if ((before ++ b :: after).filter (stays known)).length == (before ++ b :: after).length
    then _ else (before ++ b :: after).filter (stays known) ++ [known]) = _
  rw [hkept, hshorter, if_neg Bool.false_ne_true]

/-- A known binding goes before one derived for its parameter. -/
theorem carryOver_replaces {before after : List ParameterBinding}
    (hderived : Tidy (before ++ b :: after)) (hknown : IsExtracted known)
    (hb : stays known b = false) :
    Carries (before ++ b :: after) [known] (carryOver (before ++ b :: after) known) := by
  have hextracted : ∀ b' ∈ before ++ after, IsExtracted b' := fun b' hb' => by
    refine hderived.extracted b' ?_
    simp only [List.mem_append, List.mem_cons] at hb' ⊢
    tauto
  have hsame : known.identifier = b.identifier := by
    by_contra hne
    have hstays := (stays_iff hknown (hderived.extracted b (by simp))).2 fun heq => absurd heq hne
    rw [hb] at hstays
    cases hstays
  have hperm : ((before ++ after ++ [known]).map (·.identifier)).Perm
      ((before ++ b :: after).map (·.identifier)) := by
    rw [List.map_append, List.map_singleton, hsame, ← List.map_singleton, ← List.map_append]
    exact ((List.perm_append_singleton _ _).trans List.perm_middle.symm).map _
  have hnodup := hperm.nodup_iff.2 hderived.nodup
  have hother : ∀ b' ∈ before ++ after, known.identifier ≠ b'.identifier := by
    rw [List.map_append, List.nodup_append] at hnodup
    intro b' hb' heq
    exact hnodup.2.2 _ (List.mem_map_of_mem hb') _ (List.mem_singleton_self _) heq.symm
  rw [carryOver_of_not_stays hb fun b' hb' =>
    (stays_iff hknown (hextracted b' hb')).2 fun heq => absurd heq (hother b' hb')]
  refine ⟨⟨?_, hnodup⟩, hperm, ?_, ?_⟩
  · exact List.forall_mem_append.2 ⟨hextracted, List.forall_mem_singleton.2 hknown⟩
  · refine List.forall_mem_singleton.2 (List.forall_mem_append.2
      ⟨fun b' hb' heq => absurd heq (hother b' hb'), List.forall_mem_singleton.2 fun _ => ?_⟩)
    exact (hknown.isCompatibleWith_iff hknown).2 ⟨rfl, rfl⟩
  · simp only [List.mem_append, List.mem_cons]
    tauto

/-- At most one binding gives way to a known one, since no two address its parameter. -/
theorem carryOver_carries (hderived : Tidy derived) (hknown : IsExtracted known) :
    Carries derived [known] (carryOver derived known) := by
  by_cases hall : ∀ b ∈ derived, stays known b = true
  · rw [carryOver_of_stays hall]
    refine ⟨hderived, .refl _, List.forall_mem_singleton.2 fun b hb => ?_, fun b => .inr⟩
    exact (stays_iff hknown (hderived.extracted b hb)).1 (hall b hb)
  · push Not at hall
    obtain ⟨b, hb, hgives⟩ := hall
    obtain ⟨before, after, rfl⟩ := List.append_of_mem hb
    exact carryOver_replaces hderived hknown (Bool.eq_false_iff.2 hgives)

theorem Carries.append (h : Carries derived ks middle) (h' : Carries middle ks' result)
    (hapart : ∀ k ∈ ks, ∀ k' ∈ ks', k.identifier ≠ k'.identifier) :
    Carries derived (ks ++ ks') result where
  tidy := h'.tidy
  identifiers := h'.identifiers.trans h.identifiers
  compatible := by
    refine List.forall_mem_append.2 ⟨fun k hk b hb heq => ?_, h'.compatible⟩
    rcases h'.mem b hb with hb | hb
    · exact absurd heq (hapart k hk b hb)
    · exact h.compatible k hk b hb heq
  mem b hb := by
    rw [List.mem_append]
    rcases h'.mem b hb with hb | hb
    · exact .inl (.inr hb)
    · exact (h.mem b hb).imp_left .inl

theorem foldl_carryOver_carries (hderived : Tidy derived) (hks : Tidy ks) :
    Carries derived ks (ks.foldl carryOver derived) := by
  induction ks generalizing derived with
  | nil => exact ⟨hderived, .refl _, List.forall_mem_nil _, fun b => .inr⟩
  | cons k ks ih =>
    have hfirst := carryOver_carries hderived (hks.extracted k List.mem_cons_self)
    have hnodup : k.identifier ∉ ks.map (·.identifier) ∧ (ks.map (·.identifier)).Nodup :=
      List.nodup_cons.1 hks.nodup
    have hrest := ih hfirst.tidy
      ⟨fun b hb => hks.extracted b (List.mem_cons_of_mem _ hb), hnodup.2⟩
    refine hfirst.append hrest (List.forall_mem_singleton.2 fun k' hk' heq => hnodup.1 ?_)
    exact heq ▸ List.mem_map_of_mem hk'

end CarryOver

/-! ### Other texts -/

/-- The query was parsed, or extracted from another text for the arguments of such a query. -/
inductive Obtained : ExtractedQuery → Prop
  | parsed {query : String} {isNative : Bool} {q : ExtractedQuery}
      (h : parse query isNative = .ok q) : Obtained q
  | rewritten {text : String} {q r : ExtractedQuery} (hq : Obtained q)
      (h : q.withText text = .ok r) : Obtained r

variable {q r : ExtractedQuery} {text : String}

theorem withText_ok (h : q.withText text = .ok r) : ∃ p, scanned text.toList = .ok p ∧
    r = finished text q.isNative (fun derived => q.bindings.foldl carryOver derived) p := by
  rw [withText, extract_eq] at h
  obtain ⟨p, hp, rfl⟩ := Step.result_map_ok.1 h
  exact ⟨p, hp, rfl⟩

theorem Obtained.tidy (h : Obtained q) : Tidy q.bindings := by
  induction h with
  | parsed h =>
    obtain ⟨p, hp, rfl⟩ := parse_ok h
    exact tidy_scanned hp
  | rewritten _ h ih =>
    obtain ⟨p, hp, rfl⟩ := withText_ok h
    exact (foldl_carryOver_carries (tidy_scanned hp) ih).tidy

/-- Bindings are carried over to another text. The parameters are those of the text itself, and no
two bindings have a name or position in common; a parameter that is known keeps origin and kind, and
any other has the binding derived from the text. -/
theorem withText_carries (hq : Obtained q) (h : q.withText text = .ok r) :
    r.bindings.Pairwise (fun a b => a.bindsTo b = false) ∧
    ∃ d, parse text q.isNative = .ok d ∧ r.query = d.query ∧
      (r.bindings.map (·.identifier)).Perm (d.bindings.map (·.identifier)) ∧
      ∀ b ∈ r.bindings,
        (∀ k ∈ q.bindings, k.bindsTo b = true →
          k.isCompatibleWith b = true ∧ b.origin = k.origin ∧ b.kind = k.kind) ∧
        ((∀ k ∈ q.bindings, k.bindsTo b = false) → b ∈ d.bindings) := by
  obtain ⟨p, hp, rfl⟩ := withText_ok h
  have hcarries := foldl_carryOver_carries (tidy_scanned hp) hq.tidy
  refine ⟨hcarries.tidy.apart, finished text q.isNative id p, ?_, rfl, hcarries.identifiers,
    fun b hb => ⟨fun k hk hbinds => ?_, fun hnone => ?_⟩⟩
  · rw [parse, extract_eq, hp]
    rfl
  · have hknown := hq.tidy.extracted k hk
    have hextracted := hcarries.tidy.extracted b hb
    have hcompatible :=
      hcarries.compatible k hk b hb ((hknown.bindsTo_iff hextracted).1 hbinds)
    exact ⟨hcompatible, (hknown.isCompatibleWith_iff hextracted).1 hcompatible⟩
  · refine (hcarries.mem b hb).resolve_left fun hmem => ?_
    have hself := hnone b hmem
    rw [ParameterBinding.bindsTo, overlaps_self] at hself
    cases hself

/-- A count query is bound as the `like` of the query it counts. -/
theorem withText_carries_like : ∃ q r,
    parse "select u from User u where u.name like %:name%" false = .ok q ∧ Obtained q ∧
    q.withText "select count(u) from User u where u.name like :name" = .ok r ∧
    ∀ b ∈ r.bindings, ∀ k ∈ q.bindings, k.bindsTo b = true → b.kind = k.kind := by
  have hcounts : (parse "select u from User u where u.name like %:name%" false >>= fun q =>
      q.withText "select count(u) from User u where u.name like :name").toOption.map
        (·.bindings.map (·.kind)) = some [.like .containing] := by
    decide
  obtain ⟨r, hr, -⟩ := Step.exists_of_toOption_map hcounts
  obtain ⟨q, hq, hr⟩ := result_bind_ok.1 hr
  have hcarries := withText_carries (.parsed hq) hr
  obtain ⟨-, d, -, -, -, hbindings⟩ := hcarries
  exact ⟨q, r, hq, .parsed hq, hr, fun b hb k hk hbinds => ((hbindings b hb).1 k hk hbinds).2.2⟩

end ExtractedQuery

end Jpql
