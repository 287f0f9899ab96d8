import Jpql.Proofs.Declared.Expressions
import Jpql.Proofs.Declared.Run
import Jpql.Proofs.Declared.Sharing
import Mathlib

/-! What literals do to the parameters of a query. Two texts that differ in one literal only have the
same parameters and bindings, or are refused alike, as long as the literal does not name positions
that are used nowhere else, and does not decide how value expressions are marked. -/

namespace Jpql

namespace Markers

/-! ### Labels -/

namespace Labels

/-- The same positions, found in another order perhaps. -/
structure Alike (l l' : Labels) : Prop where
  used : l.used.Perm l'.used
  sequential : l.sequential = l'.sequential

variable {used used' : List Nat} {l l' : Labels}

theorem alike_ofUsed (h : used.Perm used') : (ofUsed used).Alike (ofUsed used') where
  used := h
  sequential := by simp only [ofUsed, h.length_eq, h.mem_iff]

theorem firstFree_eq (h : used.Perm used') : firstFree used = firstFree used' := by
  simp only [firstFree, h.length_eq, h.mem_iff]

theorem insert_perm (h : used.Perm used') (n : Nat) : (insert n used).Perm (insert n used') := by
  simp only [insert, h.mem_iff]
  split
  · exact h
  · exact h.cons n

theorem Alike.allocate (h : l.Alike l') :
    l.allocate.1 = l'.allocate.1 ∧ l.allocate.2.Alike l'.allocate.2 := by
  have hfirst : l.allocate.1 = l'.allocate.1 := by
    simp only [Labels.allocate, h.sequential, h.used.length_eq, firstFree_eq h.used]
  refine ⟨hfirst, ?_, h.sequential⟩
  change (insert l.allocate.1 l.used).Perm (insert l'.allocate.1 l'.used)
  rw [hfirst]
  exact insert_perm h.used _

end Labels

/-! ### Value expressions -/

namespace Substituted

/-- The same expressions, and the same text behind `front` and `front'`. -/
structure Alike (front front' : List Char) (s s' : Substituted) : Prop where
  text : ∃ common, s.text = front ++ common ∧ s'.text = front' ++ common
  expressions : s.expressions = s'.expressions
  labels : s.labels.Alike s'.labels

variable {front front' : List Char} {s s' : Substituted}

theorem Alike.append (h : s.Alike front front' s') (cs : List Char) :
    Alike front front' { s with text := s.text ++ cs } { s' with text := s'.text ++ cs } := by
  obtain ⟨common, htext, htext'⟩ := h.text
  exact ⟨⟨common ++ cs, by simp [htext], by simp [htext']⟩, h.expressions, h.labels⟩

theorem Alike.push (h : s.Alike front front' s') (byIndex : Bool) (expression : String) :
    (s.push byIndex expression).Alike front front' (s'.push byIndex expression) := by
  cases byIndex with
  | true =>
    obtain ⟨hfirst, hlabels⟩ := h.labels.allocate
    have happend := (h.append ('?' :: (toString s.labels.allocate.1).toList)).text
    simp only [Substituted.push, if_true, ← hfirst, h.expressions]
    exact ⟨happend, rfl, hlabels⟩
  | false =>
    have happend := (h.append
      (':' :: ("__$synthetic$__" ++ toString (s.expressions.length + 1)).toList)).text
    simp only [Substituted.push, Bool.false_eq_true, if_false, ← h.expressions]
    exact ⟨happend, rfl, h.labels⟩

end Substituted

/-- Two texts that differ in a literal, with their value expressions replaced. -/
theorem substitute_literal {front back x y : List Char} {q : Char} {l l' : Labels}
    (hq : isQuote q = true) (hx : ∀ c ∈ x, isQuote c = false) (hy : ∀ c ∈ y, isQuote c = false)
    (hfront : quoteAfterAll none front = none)
    (hspans : ¬ Spans none front (q :: x ++ q :: back))
    (hspans' : ¬ Spans none front (q :: y ++ q :: back))
    (hlabels : l.Alike l') (byIndex : Bool) :
    ∃ back', 
      let front' := (substitute byIndex l front).text
      let s := substitute byIndex l (front ++ q :: x ++ q :: back)
      let s' := substitute byIndex l' (front ++ q :: y ++ q :: back)
      s.text = front' ++ q :: x ++ q :: back' ∧ s'.text = front' ++ q :: y ++ q :: back' ∧
        s.expressions = s'.expressions ∧ s.labels.Alike s'.labels := by
  obtain ⟨closed, h⟩ := replaces_substituteFrom byIndex (Nat.le_refl front.length) none
    { labels := l }
  have hstart : Substituted.Alike [] [] { labels := l } { labels := l' } :=
    ⟨⟨[], rfl, rfl⟩, rfl, hlabels⟩
  obtain ⟨t, ht, halike⟩ :=
    h.simulate (fun _ _ cs h => h.append cs) (fun _ _ e h => h.push byIndex e) hstart
  change Replaces _ _ _ _ (substitute byIndex l front) _ at h
  change Substituted.Alike [] [] (substitute byIndex l front) t at halike
  generalize substitute byIndex l front = s at h halike ⊢
  obtain ⟨common, htext, htext'⟩ := halike.text
  obtain rfl : common = s.text := htext.symm
  have hwhole {l : Labels} {z : List Char} {u : Substituted} {closed : Bool}
      (h : Replaces byIndex none { labels := l } (front ++ (q :: z ++ q :: back)) u closed) :
      substitute byIndex l (front ++ q :: z ++ q :: back) = u := by
    rw [List.append_assoc]
    exact h.substituteFrom_eq (Nat.le_refl _)
  cases closed with
  | true =>
    -- All expressions in front are closed, and what is behind the literal is replaced alike.
    let s₂ : Substituted := { s with text := s.text ++ (q :: x ++ [q]) }
    let t₂ : Substituted := { t with text := t.text ++ (q :: y ++ [q]) }
    have halike₂ : s₂.Alike (s.text ++ (q :: x ++ [q])) (s.text ++ (q :: y ++ [q])) t₂ :=
      ⟨⟨[], by simp [s₂], by simp [t₂, htext']⟩, halike.expressions, halike.labels⟩
    obtain ⟨s₃, closed, hback⟩ : ∃ s₃ closed, Replaces byIndex none s₂ back s₃ closed :=
      ⟨_, replaces_substituteFrom byIndex (Nat.le_refl back.length) none s₂⟩
    obtain ⟨t₃, hback', halike₃⟩ :=
      hback.simulate (fun _ _ cs h => h.append cs) (fun _ _ e h => h.push byIndex e) halike₂
    obtain ⟨back', hs₃, ht₃⟩ := halike₃.text
    have h₁ : Replaces byIndex none { labels := l } (front ++ (q :: x ++ q :: back)) s₃ closed :=
      h.append hq (by rw [hfront]; exact hback.literal hq hx)
    have h₂ : Replaces byIndex none { labels := l' } (front ++ (q :: y ++ q :: back)) t₃ closed :=
      ht.append hq (by rw [hfront]; exact hback'.literal hq hy)
    refine ⟨back', ?_⟩
    dsimp only
    rw [hwhole h₁, hwhole h₂]
    exact ⟨by simp [hs₃], by simp [ht₃], halike₃.expressions, halike₃.labels⟩
  | false =>
    -- Nothing is replaced behind an expression that is not closed.
    have h₁ := h.append_unclosed hq hspans
    have h₂ := ht.append_unclosed hq hspans'
    refine ⟨back, ?_⟩
    dsimp only
    rw [hwhole h₁, hwhole h₂]
    refine ⟨by simp, by simp [htext'], halike.expressions, halike.labels⟩

end Markers

namespace ExtractedQuery

open Markers Step

/-! ### Progress -/

namespace Progress

/-- The same parameters, and the same text behind `front` and `front'`. -/
structure Alike (front front' : List Char) (p p' : Progress) : Prop where
  text : ∃ common, p.text = front ++ common ∧ p'.text = front' ++ common
  bindings : p.bindings = p'.bindings
  registered : p.registered = p'.registered
  labels : p.labels.Alike p'.labels
  unnumbered : p.unnumbered = p'.unnumbered
  identified : p.identified = p'.identified

variable {front front' : List Char} {p p' : Progress}

theorem Alike.append (h : p.Alike front front' p') (cs : List Char) :
    Alike front front' { p with text := p.text ++ cs } { p' with text := p'.text ++ cs } := by
  obtain ⟨common, htext, htext'⟩ := h.text
  exact ⟨⟨common ++ cs, by simp [htext], by simp [htext']⟩, h.bindings, h.registered, h.labels,
    h.unnumbered, h.identified⟩

theorem Alike.write (h : p.Alike front front' p') (target : BindingIdentifier) :
    (p.write target).Alike front front' (p'.write target) := by
  obtain ⟨common, htext, htext'⟩ := h.text
  exact ⟨⟨common ++ (markerText (!p.unnumbered) target).toList, by simp [Progress.write, htext],
    by simp [Progress.write, htext', h.unnumbered]⟩, h.bindings, h.registered, h.labels,
    h.unnumbered, h.identified⟩

/-- Results that assign the same parameter. -/
def AssignsAlike (front front' : List Char) (r r' : BindingIdentifier × Progress) : Prop :=
  r.1 = r'.1 ∧ r.2.Alike front front' r'.2

theorem Alike.register (h : p.Alike front front' p') (b : ParameterBinding) :
    Agree (Alike front front') (p.register b) (p'.register b) := by
  unfold Progress.register
  rw [h.bindings]
  cases addBinding b p'.bindings with
  | error e => exact .error e
  | ok bindings =>
    exact .ok ⟨h.text, rfl, by rw [h.registered], h.labels, h.unnumbered, h.identified⟩

theorem Alike.freshIdentifier (h : p.Alike front front' p') (argument : BindingIdentifier) :
    AssignsAlike front front' (p.freshIdentifier argument) (p'.freshIdentifier argument) := by
  obtain ⟨hfirst, hlabels⟩ := h.labels.allocate
  have hallocated : AssignsAlike front front'
      (.indexed p.labels.allocate.1, { p with labels := p.labels.allocate.2 })
      (.indexed p'.labels.allocate.1, { p' with labels := p'.labels.allocate.2 }) :=
    ⟨congrArg BindingIdentifier.indexed hfirst, h.text, h.bindings, h.registered, hlabels,
      h.unnumbered, h.identified⟩
  cases argument with
  | named name =>
    refine ⟨?_, h⟩
    simp only [Progress.freshIdentifier, h.registered]
  | indexed n => exact hallocated
  | namedAndIndexed name n => exact hallocated

theorem Alike.assignArgument (h : p.Alike front front' p') (argument : BindingIdentifier)
    (kind : BindingKind) :
    Agree (AssignsAlike front front') (p.assignArgument argument kind)
      (p'.assignArgument argument kind) := by
  have hsame : p.ofArgument argument = p'.ofArgument argument := by
    rw [ofArgument, h.registered, ofArgument]
  have hregister {q q' : Progress} (h : q.Alike front front' q') (target : BindingIdentifier)
      (b : ParameterBinding) :
      Agree (AssignsAlike front front') (q.register b >>= fun q => .ok (target, q))
        (q'.register b >>= fun q => .ok (target, q)) :=
    (h.register b).bind fun _ _ h => .ok ⟨rfl, h⟩
  unfold Progress.assignArgument
  rw [hsame]
  split
  · exact hregister h _ _
  · dsimp only
    split
    · exact .ok ⟨rfl, h⟩
    · obtain ⟨htarget, hfresh⟩ := h.freshIdentifier argument
      rw [htarget]
      exact hregister hfresh _ _

theorem Alike.assignExpression (h : p.Alike front front' p') (identifier : BindingIdentifier)
    (expression : String) (kind : BindingKind) :
    Agree (AssignsAlike front front') (p.assignExpression identifier expression kind)
      (p'.assignExpression identifier expression kind) := by
  unfold Progress.assignExpression
  rw [h.bindings]
  cases addBinding _ p'.bindings with
  | error e => exact .error e
  | ok bindings =>
    exact .ok ⟨rfl, h.text, rfl, h.registered, h.labels, h.unnumbered, h.identified⟩

theorem Alike.argumentOf (h : p.Alike front front' p') (m : Marker) :
    (argumentOf p m).1 = (argumentOf p' m).1 ∧ (argumentOf p m).2.1 = (argumentOf p' m).2.1 ∧
      (argumentOf p m).2.2.Alike front front' (argumentOf p' m).2.2 := by
  cases m with
  | unnumbered =>
    obtain ⟨hfirst, hlabels⟩ := h.labels.allocate
    exact ⟨congrArg BindingIdentifier.indexed hfirst, rfl, h.text, h.bindings, h.registered,
      hlabels, rfl, h.identified⟩
  | numbered n =>
    exact ⟨rfl, rfl, h.text, h.bindings, h.registered, h.labels, h.unnumbered, rfl⟩
  | named name =>
    exact ⟨rfl, rfl, h.text, h.bindings, h.registered, h.labels, h.unnumbered, rfl⟩

end Progress

/-- Steps from alike progress lead to alike progress. -/
theorem step_alike {front front' : List Char} {p p' : Progress} {s s' : Substituted}
    (hs : s.expressions = s'.expressions) (h : p.Alike front front' p') (piece : Piece) :
    Agree (Progress.Alike front front') (step s p piece) (step s' p' piece) := by
  cases piece with
  | text cs => exact .ok (h.append cs)
  | occurrence o =>
    have hlookup : s.expression? = s'.expression? := by
      funext name
      rw [Substituted.expression?, hs, Substituted.expression?]
    rw [step_occurrence_eq, step_occurrence_eq]
    have hargument := h.argumentOf o.marker
    generalize argumentOf p o.marker = start at hargument ⊢
    generalize argumentOf p' o.marker = start' at hargument ⊢
    obtain ⟨argument, key, q⟩ := start
    obtain ⟨argument', key', q'⟩ := start'
    obtain ⟨rfl, rfl, hq⟩ := hargument
    dsimp only at hq ⊢
    rw [hq.identified, hq.unnumbered]
    split
    · exact .error _
    · have hassign : Agree (Progress.AssignsAlike front front')
          (q.assign s argument key (kindOf o)) (q'.assign s' argument key (kindOf o)) := by
        unfold Progress.assign
        rw [hlookup]
        split
        · exact hq.assignExpression _ _ _
        · exact hq.assignArgument _ _
      refine hassign.bind ?_
      rintro ⟨target, r⟩ ⟨target', r'⟩ ⟨htarget, hr⟩
      obtain rfl : target = target' := htarget
      exact .ok (hr.write target)

/-- Steps over text put it behind. -/
theorem foldlM_step_texts (s : Substituted) (p : Progress) {ps : List Piece}
    (hps : ∀ piece ∈ ps, piece = .text piece.source) :
    ps.foldlM (step s) p = .ok { p with text := p.text ++ ps.flatMap Piece.source } := by
  induction ps generalizing p with
  | nil => simp [List.foldlM_nil]; rfl
  | cons piece ps ih =>
    obtain ⟨hpiece, hps⟩ := List.forall_mem_cons.1 hps
    rw [hpiece]
    exact (ih _ hps).trans (by simp [Piece.source])

/-! ### Literals -/

/-- The text with a literal between `front` and `back`. -/
def withLiteral (front : List Char) (q : Char) (x back : List Char) : List Char :=
  front ++ q :: x ++ q :: back

/-- The literal stands between matching quotes, whether the value expressions before it are replaced
or not, and none of them reaches over it. -/
structure IsLiteral (front : List Char) (q : Char) (x back : List Char) : Prop where
  quote : isQuote q = true
  contents : ∀ c ∈ x, isQuote c = false
  opens : quoteAfterAll none front = none
  opensReplaced : quoteAfterAll none (substitute false ⟨[], true⟩ front).text = none
  apart : ¬ Spans none front (q :: x ++ q :: back)

/-- The steps of two texts that differ in a literal. -/
theorem foldlM_step_literal {s s' : Substituted} {front back x y : List Char} {q : Char}
    (hs : s.text = withLiteral front q x back) (hs' : s'.text = withLiteral front q y back)
    (hexpressions : s.expressions = s'.expressions) (hlabels : s.labels.Alike s'.labels)
    (hq : isQuote q = true) (hx : ∀ c ∈ x, isQuote c = false) (hy : ∀ c ∈ y, isQuote c = false)
    (hfront : quoteAfterAll none front = none) :
    Agree (fun p p' => ∃ front', p.Alike (front' ++ (q :: x ++ [q])) (front' ++ (q :: y ++ [q])) p')
      ((pieces s.text).foldlM (step s) { labels := s.labels })
      ((pieces s'.text).foldlM (step s') { labels := s'.labels }) := by
  obtain ⟨ps, hps, hsources, hpieces⟩ := pieces_literal hq hfront hx
  obtain ⟨ps', hps', hsources', hpieces'⟩ := pieces_literal hq hfront hy
  rw [hs, hs', withLiteral, withLiteral, hpieces, hpieces']
  simp only [List.append_assoc, List.foldlM_append]
  have hstart : Progress.Alike [] [] { labels := s.labels } { labels := s'.labels } :=
    ⟨⟨[], rfl, rfl⟩, rfl, rfl, hlabels, rfl, rfl⟩
  refine (Agree.foldlM (fun piece _ _ h => step_alike hexpressions h piece) hstart _).bind ?_
  intro p p' h
  obtain ⟨common, htext, htext'⟩ := h.text
  rw [foldlM_step_texts s p hps, foldlM_step_texts s' p' hps', hsources, hsources', htext, htext']
  refine Agree.foldlM ?_ ?_ _
  · rintro piece p p' ⟨front', h⟩
    exact (step_alike hexpressions h piece).mono fun _ _ h => ⟨front', h⟩
  · exact ⟨common, ⟨[], by simp, by simp⟩, h.bindings, h.registered, h.labels, h.unnumbered,
      h.identified⟩

/-- What is in a literal does not matter to the parameters of a query, as long as it adds no position
and does not decide whether value expressions get numbers: with other contents the query is refused
with the same error, or it has the same bindings and a text that differs in the literal only. -/
theorem literals_inert {front back x y : List Char} {q : Char} (hx : IsLiteral front q x back)
    (hy : IsLiteral front q y back)
    (hpositions : ∀ n, n ∈ positions (withLiteral front q x back) ↔
      n ∈ positions (withLiteral front q y back))
    (hnumbered : Text.contains ['?', '#', '\x7b'] (withLiteral front q x back) =
      Text.contains ['?', '#', '\x7b'] (withLiteral front q y back)) (isNative : Bool) :
    Agree (fun r r' => r.bindings = r'.bindings ∧ ∃ front' back',
        r.query = String.ofList (withLiteral front' q x back') ∧
        r'.query = String.ofList (withLiteral front' q y back'))
      (parse (String.ofList (withLiteral front q x back)) isNative)
      (parse (String.ofList (withLiteral front q y back)) isNative) := by
  have hperm := (List.perm_ext_iff_of_nodup (nodup_positions _) (nodup_positions _)).2 hpositions
  have hlabels := Labels.alike_ofUsed hperm
  have hempty : (Labels.ofUsed (positions (withLiteral front q x back))).used.isEmpty =
      (Labels.ofUsed (positions (withLiteral front q y back))).used.isEmpty := hperm.isEmpty_eq
  rw [parse, parse, extract_eq, extract_eq, String.toList_ofList, String.toList_ofList]
  unfold scanned substituted
  dsimp only
  rw [hempty, hnumbered]
  generalize (!(Labels.ofUsed (positions (withLiteral front q y back))).used.isEmpty ||
    Text.contains ['?', '#', '\x7b'] (withLiteral front q y back)) = byIndex
  obtain ⟨back', htext, htext', hexpressions, halike⟩ := substitute_literal hx.quote hx.contents
    hy.contents hx.opens hx.apart hy.apart hlabels byIndex
  refine (foldlM_step_literal htext htext' hexpressions halike hx.quote hx.contents hy.contents
    ?_).map ?_
  · rw [quoteAfterAll_substitute byIndex false _ ⟨[], true⟩]
    exact hx.opensReplaced
  · rintro p p' ⟨front', h⟩
    obtain ⟨common, htext, htext'⟩ := h.text
    refine ⟨h.bindings, front', common, ?_, ?_⟩
    · rw [finished, htext]
      simp [withLiteral]
    · rw [finished, htext']
      simp [withLiteral]

theorem isLiteral_of_plain {front back x : List Char} {q : Char} (hq : isQuote q = true)
    (hx : ∀ c ∈ x, isQuote c = false)
    (hfront : ∀ c ∈ front, isQuote c = false ∧ c ≠ ':' ∧ c ≠ '?') :
    IsLiteral front q x back where
  quote := hq
  contents := hx
  opens := quoteAfterAll_none fun c hc => (hfront c hc).1
  opensReplaced := by
    have hplain : Replaces false none _ _ _ _ :=
      Replaces.plain (fun c hc => (hfront c hc).2) { labels := ⟨[], true⟩ }
    rw [substitute, hplain.substituteFrom_eq (Nat.le_refl _)]
    exact quoteAfterAll_none fun c hc => (hfront c hc).1
  apart := not_spans fun c hc => (hfront c hc).2

theorem literals_inert_name :
    Agree (fun r r' => r.bindings = r'.bindings ∧ ∃ front' back',
        r.query = String.ofList (withLiteral front' '\'' "a".toList back') ∧
        r'.query = String.ofList (withLiteral front' '\'' "%:c".toList back'))
      (parse (String.ofList (withLiteral "a = ".toList '\'' "a".toList " or b = :b".toList)) false)
      (parse (String.ofList (withLiteral "a = ".toList '\'' "%:c".toList " or b = :b".toList)) false) := by
  have hliteral (x : List Char) (hx : ∀ c ∈ x, isQuote c = false) :
      IsLiteral "a = ".toList '\'' x " or b = :b".toList :=
    isLiteral_of_plain rfl hx (by simp [isQuote])
  refine literals_inert (hliteral _ (by simp [isQuote])) (hliteral _ (by simp [isQuote])) ?_
    (by decide) false
  have hnone : positions (withLiteral "a = ".toList '\'' "a".toList " or b = :b".toList) = [] ∧
      positions (withLiteral "a = ".toList '\'' "%:c".toList " or b = :b".toList) = [] := by decide
  rw [hnone.1, hnone.2]
  exact fun n => Iff.rfl

/-- A position in a literal moves the parameters behind it. -/
theorem literal_shifts :
    IsLiteral "a = ".toList '\'' "?1".toList " or b = ?".toList ∧
    IsLiteral "a = ".toList '\'' "x1".toList " or b = ?".toList ∧
    (parse (String.ofList (withLiteral "a = ".toList '\'' "?1".toList " or b = ?".toList))
      false).toOption.map (·.bindings.map (·.identifier)) = some [.indexed 2] ∧
    (parse (String.ofList (withLiteral "a = ".toList '\'' "x1".toList " or b = ?".toList))
      false).toOption.map (·.bindings.map (·.identifier)) = some [.indexed 1] :=
  ⟨isLiteral_of_plain rfl (by simp [isQuote]) (by simp [isQuote]),
    isLiteral_of_plain rfl (by simp [isQuote]) (by simp [isQuote]), by decide, by decide⟩

end ExtractedQuery

end Jpql
