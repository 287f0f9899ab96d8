import Jpql.Declared.Extraction
import Jpql.Proofs.Declared.Labels
import Jpql.Proofs.Step
import Mathlib.Data.List.Nodup

/-! How the markers of a declared query share its parameters. Two occurrences are assigned the same
parameter just if they stand for the same argument and prepare its value alike. The first occurrence
of an argument keeps its own name or number, and no parameter has two bindings. -/

namespace Jpql

namespace Markers

theorem nodup_positions (cs : List Char) : (positions cs).Nodup := by
  have hinsert {n : Nat} {used : List Nat} (h : used.Nodup) : (Labels.insert n used).Nodup := by
    unfold Labels.insert
    split
    · exact h
    · exact List.nodup_cons.2 ⟨‹_›, h⟩
  induction cs with
  | nil => exact List.nodup_nil
  | cons c cs ih =>
    rw [positions]
    split
    · split
      · exact hinsert ih
      · exact ih
    · exact ih

/-! ### Texts without value expressions -/

/-- Whether some part of a text is replaced as a value expression. -/
def HasExpressions (cs : List Char) : Prop := (substitute false ⟨[], true⟩ cs).expressions ≠ []

theorem length_expressions_push (s : Substituted) (byIndex : Bool) (expression : String) :
    (s.push byIndex expression).expressions.length = s.expressions.length + 1 := by
  unfold Substituted.push
  split <;> simp

/-- How many expressions a text has does not depend on how they are marked. -/
theorem length_expressions_substituteFrom (byIndex byIndex' : Bool) (fuel : Nat)
    (opened : Option Char) {s t : Substituted}
    (h : s.expressions.length = t.expressions.length) (cs : List Char) :
    (substituteFrom byIndex fuel opened s cs).expressions.length =
      (substituteFrom byIndex' fuel opened t cs).expressions.length := by
  induction fuel generalizing opened s t cs with
  | zero => exact h
  | succ fuel ih =>
    cases cs with
    | nil => exact h
    | cons c cs =>
      simp only [substituteFrom]
      split
      · split
        · refine ih _ ?_ _
          rw [length_expressions_push, length_expressions_push, h]
        · exact h
      · exact ih _ (s := { s with text := s.text ++ [c] }) (t := { t with text := t.text ++ [c] }) h _

theorem le_length_expressions (byIndex : Bool) (fuel : Nat) (opened : Option Char)
    (s : Substituted) (cs : List Char) :
    s.expressions.length ≤ (substituteFrom byIndex fuel opened s cs).expressions.length := by
  induction fuel generalizing opened s cs with
  | zero => exact Nat.le_refl _
  | succ fuel ih =>
    cases cs with
    | nil => exact Nat.le_refl _
    | cons c cs =>
      simp only [substituteFrom]
      split
      · split
        · have hpush := length_expressions_push s byIndex
          exact Nat.le_trans (by rw [hpush]; exact Nat.le_succ _) (ih _ _ _)
        · exact Nat.le_refl _
      · exact ih _ { s with text := s.text ++ [c] } _

theorem substituteFrom_eq {byIndex : Bool} {fuel : Nat} {opened : Option Char} {s : Substituted}
    {cs : List Char}
    (h : (substituteFrom byIndex fuel opened s cs).expressions.length = s.expressions.length) :
    substituteFrom byIndex fuel opened s cs = { s with text := s.text ++ cs } := by
  induction fuel generalizing opened s cs with
  | zero => rfl
  | succ fuel ih =>
    cases cs with
    | nil => simp [substituteFrom]
    | cons c cs =>
      simp only [substituteFrom] at h ⊢
      split at h
      · split at h
        next inner rest _ =>
          have hle := le_length_expressions byIndex fuel (quoteAfterAll opened
            ((c :: cs).take ((c :: cs).length - rest.length)))
            (s.push byIndex (Text.trim (String.ofList inner))) rest
          rw [h, length_expressions_push] at hle
          omega
        next => rfl
      · rw [ih h]
        simp

/-- A text without value expressions is left as it is. -/
theorem substitute_eq {cs : List Char} (h : ¬ HasExpressions cs) (byIndex : Bool)
    (labels : Labels) : substitute byIndex labels cs = { text := cs, labels } := by
  have hnone : (substitute false ⟨[], true⟩ cs).expressions = [] := not_not.1 h
  refine substituteFrom_eq ?_
  have hlength := length_expressions_substituteFrom byIndex false cs.length none
    (Eq.refl (Substituted.expressions { labels }).length) (t := { labels := ⟨[], true⟩ }) cs
  rw [hlength]
  exact congrArg List.length hnone

end Markers

namespace ExtractedQuery

open Markers

/-! ### Assigned parameters -/

/-- An occurrence of a marker with the argument it stands for and the query parameter it is
assigned. -/
structure Assigned where
  occurrence : Occurrence
  argument : BindingIdentifier
  target : BindingIdentifier

namespace Assigned

def isUnnumbered (x : Assigned) : Bool := x.occurrence.marker == .unnumbered

def kind (x : Assigned) : BindingKind := kindOf x.occurrence

def binding (x : Assigned) : ParameterBinding :=
  { identifier := x.target, origin := .argument x.argument, kind := x.kind }

/-- A marker stands for the argument of its name or number, and an unnumbered one for an argument of
a number that the text does not use. -/
def StandsFor (used : List Nat) (x : Assigned) : Prop :=
  match x.occurrence.marker with
  | .named name => x.argument = .named name
  | .numbered n => x.argument = .indexed n
  | .unnumbered => ∃ n ∉ used, x.argument = .indexed n

end Assigned

/-- A piece of a query text, with what an occurrence in it is assigned. -/
inductive Segment where
  | text (cs : List Char)
  | marker (x : Assigned)

namespace Segment

def piece : Segment → Piece
  | text cs => .text cs
  | marker x => .occurrence x.occurrence

def assigned? : Segment → Option Assigned
  | text _ => none
  | marker x => some x

/-- What stands for the piece in the extracted text. -/
def extracted : Segment → List Char
  | text cs => cs
  | marker x => (markerText (!x.isUnnumbered) x.target).toList

end Segment

/-- Occurrences share parameters and bindings as their arguments and kinds say. -/
structure Shares (used : List Nat) (xs : List Assigned) (bindings : List ParameterBinding) :
    Prop where
  argument : ∀ x ∈ xs, x.StandsFor used
  /-- No other occurrence has the argument of an unnumbered marker. -/
  unnumbered : xs.Pairwise fun x y => x.isUnnumbered || y.isUnnumbered → x.argument ≠ y.argument
  target : ∀ x ∈ xs, ∀ y ∈ xs, x.target = y.target ↔ x.argument = y.argument ∧ x.kind = y.kind
  first : ∀ (before : List Assigned) (x : Assigned) (after : List Assigned),
    xs = before ++ x :: after → (∀ y ∈ before, y.argument ≠ x.argument) → x.target = x.argument
  apart : bindings.Pairwise fun b c => b.bindsTo c = false
  origin : ∀ b ∈ bindings, ∀ x ∈ xs, x.target = b.identifier →
    b.origin = .argument x.argument ∧ b.kind = x.kind
  listed : bindings.map (·.identifier) = (xs.map (·.target)).eraseDups

variable {used : List Nat} {xs : List Assigned} {bindings : List ParameterBinding}

/-! ### One occurrence -/

theorem isCompatibleWith_kindOf (o o' : Occurrence) :
    (kindOf o).isCompatibleWith (kindOf o') = (kindOf o == kindOf o') := by
  unfold kindOf
  dsimp only
  repeat' split
  all_goals rfl

theorem isCompatibleWith_binding (x y : Assigned) :
    x.binding.isCompatibleWith y.binding = true ↔ x.argument = y.argument ∧ x.kind = y.kind := by
  change (x.argument == y.argument && (kindOf _).isCompatibleWith (kindOf _)) = true ↔ _
  rw [isCompatibleWith_kindOf, Bool.and_eq_true, beq_iff_eq, beq_iff_eq]
  rfl

theorem overlaps_self (i : BindingIdentifier) : i.overlaps i = true := by
  cases i <;> simp [BindingIdentifier.overlaps, BindingIdentifier.name?, BindingIdentifier.position?]

section

variable {α : Type} [BEq α] [LawfulBEq α] {as : List α} {a : α}

theorem eraseDups_concat_of_mem (h : a ∈ as) : (as ++ [a]).eraseDups = as.eraseDups := by
  rw [List.eraseDups_append, List.removeAll, List.filter_singleton, List.elem_eq_true_of_mem h]
  exact List.append_nil _

theorem eraseDups_concat_of_notMem (h : a ∉ as) :
    (as ++ [a]).eraseDups = as.eraseDups ++ [a] := by
  have hnone : as.elem a = false := by simpa using h
  rw [List.eraseDups_append, List.removeAll, List.filter_singleton, hnone]
  rfl

end

theorem addBinding_ok {b : ParameterBinding} {bs bs' : List ParameterBinding}
    (h : addBinding b bs = .ok bs') (hnew : ∀ b' ∈ bs, (b' == b) = false) :
    bs' = bs ++ [b] ∧ ∀ b' ∈ bs, b'.bindsTo b = false := by
  unfold addBinding at h
  split at h
  · cases h
  next hnone =>
    have hany : bs.any (· == b) = false := List.any_eq_false.2 fun b' hb' => by simp [hnew b' hb']
    rw [hany] at h
    refine ⟨(Except.ok.inj h).symm, fun b' hb' => ?_⟩
    have hfree := List.find?_eq_none.1 hnone b' hb'
    simpa [hnew b' hb'] using hfree

namespace Shares

theorem mem_bindings (h : Shares used xs bindings) {b : ParameterBinding}
    (hb : b ∈ bindings) : ∃ x ∈ xs, b = x.binding := by
  have hmem : b.identifier ∈ (xs.map (·.target)).eraseDups := h.listed ▸ List.mem_map_of_mem hb
  obtain ⟨x, hx, htarget⟩ := List.mem_map.1 (List.mem_eraseDups.1 hmem)
  obtain ⟨horigin, hkind⟩ := h.origin b hb x hx htarget
  obtain ⟨identifier, origin, kind⟩ := b
  dsimp only at htarget horigin hkind
  subst htarget horigin hkind
  exact ⟨x, hx, rfl⟩

theorem binding_mem (h : Shares used xs bindings) {x : Assigned} (hx : x ∈ xs) :
    x.binding ∈ bindings := by
  have hmem : x.target ∈ bindings.map (·.identifier) :=
    h.listed ▸ List.mem_eraseDups.2 (List.mem_map_of_mem hx)
  obtain ⟨b, hb, hidentifier⟩ := List.mem_map.1 hmem
  obtain ⟨horigin, hkind⟩ := h.origin b hb x hx hidentifier.symm
  obtain ⟨identifier, origin, kind⟩ := b
  dsimp only at hidentifier horigin hkind
  subst hidentifier horigin hkind
  exact hb

/-- An occurrence of an argument that some earlier one has alike gets its parameter. -/
theorem append_shared (h : Shares used xs bindings) {x y : Assigned} (hy : y ∈ xs)
    (htarget : x.target = y.target) (hargument : x.argument = y.argument) (hkind : x.kind = y.kind)
    (hstands : x.StandsFor used)
    (hfresh : ∀ z ∈ xs, z.isUnnumbered || x.isUnnumbered → z.argument ≠ x.argument) :
    Shares used (xs ++ [x]) bindings where
  argument := List.forall_mem_append.2 ⟨h.argument, List.forall_mem_singleton.2 hstands⟩
  unnumbered := List.pairwise_append.2 ⟨h.unnumbered, List.pairwise_singleton _ _,
    fun z hz _ hx => List.mem_singleton.1 hx ▸ hfresh z hz⟩
  target := by
    have hnew : ∀ z ∈ xs, x.target = z.target ↔ x.argument = z.argument ∧ x.kind = z.kind := by
      intro z hz
      rw [htarget, hargument, hkind]
      exact h.target y hy z hz
    simp only [List.mem_append, List.mem_singleton]
    rintro z (hz | rfl) z' (hz' | rfl)
    · exact h.target z hz z' hz'
    · rw [eq_comm, hnew z hz, eq_comm, eq_comm (a := z.kind)]
    · exact hnew z' hz'
    · simp
  first := by
    intro before z after hsplit hbefore
    rcases List.eq_nil_or_concat after with rfl | ⟨after', last, rfl⟩
    · obtain ⟨rfl, hz⟩ := List.append_inj' hsplit rfl
      obtain rfl := (List.cons.inj hz).1
      exact absurd hargument.symm (hbefore y hy)
    · rw [List.concat_eq_append, ← List.cons_append, ← List.append_assoc] at hsplit
      exact h.first before z after' (List.append_inj' hsplit rfl).1 hbefore
  apart := h.apart
  origin := by
    intro b hb z hz hidentifier
    rcases List.mem_append.1 hz with hz | hz
    · exact h.origin b hb z hz hidentifier
    · obtain rfl := List.mem_singleton.1 hz
      rw [hargument, hkind]
      exact h.origin b hb y hy (htarget ▸ hidentifier)
  listed := by
    have hmem : x.target ∈ xs.map (·.target) := htarget ▸ List.mem_map_of_mem hy
    rw [h.listed, List.map_append, List.map_singleton, eraseDups_concat_of_mem hmem]

/-- Any other occurrence gets a parameter and a binding of its own. -/
theorem append_new (h : Shares used xs bindings) {x : Assigned}
    (hapart : ∀ b ∈ bindings, b.bindsTo x.binding = false)
    (hother : ∀ y ∈ xs, ¬ (y.argument = x.argument ∧ y.kind = x.kind))
    (hfirst : (∀ y ∈ xs, y.argument ≠ x.argument) → x.target = x.argument)
    (hstands : x.StandsFor used)
    (hfresh : ∀ z ∈ xs, z.isUnnumbered || x.isUnnumbered → z.argument ≠ x.argument) :
    Shares used (xs ++ [x]) (bindings ++ [x.binding]) := by
  have hne : ∀ y ∈ xs, y.target ≠ x.target := by
    intro y hy htarget
    have hdisjoint : y.target.overlaps x.target = false := hapart _ (h.binding_mem hy)
    rw [htarget, overlaps_self] at hdisjoint
    cases hdisjoint
  constructor
  case argument => exact List.forall_mem_append.2 ⟨h.argument, List.forall_mem_singleton.2 hstands⟩
  case unnumbered =>
    exact List.pairwise_append.2 ⟨h.unnumbered, List.pairwise_singleton _ _,
      fun z hz _ hx => List.mem_singleton.1 hx ▸ hfresh z hz⟩
  case target =>
    simp only [List.mem_append, List.mem_singleton]
    rintro z (hz | rfl) z' (hz' | rfl)
    · exact h.target z hz z' hz'
    · exact ⟨fun heq => absurd heq (hne z hz), fun heq => absurd heq (hother z hz)⟩
    · exact ⟨fun heq => absurd heq.symm (hne z' hz'),
        fun heq => absurd ⟨heq.1.symm, heq.2.symm⟩ (hother z' hz')⟩
    · simp
  case first =>
    intro before z after hsplit hbefore
    rcases List.eq_nil_or_concat after with rfl | ⟨after', last, rfl⟩
    · obtain ⟨rfl, hz⟩ := List.append_inj' hsplit rfl
      obtain rfl := (List.cons.inj hz).1
      exact hfirst hbefore
    · rw [List.concat_eq_append, ← List.cons_append, ← List.append_assoc] at hsplit
      exact h.first before z after' (List.append_inj' hsplit rfl).1 hbefore
  case apart =>
    exact List.pairwise_append.2 ⟨h.apart, List.pairwise_singleton _ _,
      fun b hb _ hx => List.mem_singleton.1 hx ▸ hapart b hb⟩
  case origin =>
    intro b hb z hz hidentifier
    rw [List.mem_append, List.mem_singleton] at hb hz
    rcases hb with hb | rfl <;> rcases hz with hz | rfl
    · exact h.origin b hb z hz hidentifier
    · obtain ⟨y, hy, rfl⟩ := h.mem_bindings hb
      exact absurd hidentifier.symm (hne y hy)
    · exact absurd hidentifier (hne z hz)
    · exact ⟨rfl, rfl⟩
  case listed =>
    have hmem : x.target ∉ xs.map (·.target) := by
      intro hmem
      obtain ⟨y, hy, htarget⟩ := List.mem_map.1 hmem
      exact hne y hy htarget
    rw [List.map_append, h.listed, List.map_append, List.map_singleton, List.map_singleton,
      eraseDups_concat_of_notMem hmem]
    rfl

end Shares

/-! ### The scan -/

open Step (result_bind_ok)

variable {p p' : Progress} {o : Occurrence} {argument target : BindingIdentifier}

theorem with_bindings (h : p.bindings = p.registered) :
    { p with bindings := p.registered, registered := p.registered } = p := by
  obtain ⟨_, bindings, registered, _, _, _⟩ := p
  obtain rfl : bindings = registered := h
  rfl

theorem register_ok {b : ParameterBinding} (h : p.register b = .ok p')
    (hbindings : p.bindings = p.registered) (hnew : ∀ b' ∈ p.registered, (b' == b) = false) :
    p' = { p with bindings := p.registered ++ [b], registered := p.registered ++ [b] } ∧
      ∀ b' ∈ p.registered, b'.bindsTo b = false := by
  obtain ⟨bindings, hadd, hp'⟩ := result_bind_ok.1 h
  rw [hbindings] at hadd
  obtain ⟨rfl, hapart⟩ := addBinding_ok hadd hnew
  exact ⟨(Except.ok.inj hp').symm, hapart⟩

theorem freshIdentifier_eq (p : Progress) (argument : BindingIdentifier) :
    ∃ labels, (p.freshIdentifier argument).2 = { p with labels } ∧
      (labels = p.labels ∨ labels = p.labels.allocate.2) := by
  cases argument with
  | named => exact ⟨p.labels, rfl, .inl rfl⟩
  | indexed | namedAndIndexed => exact ⟨_, rfl, .inr rfl⟩

theorem binding_beq (x y : Assigned) (h : (x.binding == y.binding) = true) :
    x.argument = y.argument ∧ x.kind = y.kind := by
  have h : (x.target == y.target && x.argument == y.argument && x.kind == y.kind) = true := h
  simp only [Bool.and_eq_true, beq_iff_eq] at h
  exact ⟨h.1.2, h.2⟩

theorem mem_ofArgument (h : Shares used xs p.registered) {b : ParameterBinding} :
    b ∈ p.ofArgument argument ↔ ∃ y ∈ xs, y.argument = argument ∧ b = y.binding := by
  have horigin (y : Assigned) : (y.binding.origin == .argument argument) = true ↔
      y.argument = argument := by
    change (y.argument == argument) = true ↔ _
    exact beq_iff_eq
  unfold Progress.ofArgument
  rw [List.mem_filter]
  constructor
  · rintro ⟨hb, hsame⟩
    obtain ⟨y, hy, rfl⟩ := h.mem_bindings hb
    exact ⟨y, hy, (horigin y).1 hsame, rfl⟩
  · rintro ⟨y, hy, hsame, rfl⟩
    exact ⟨h.binding_mem hy, (horigin y).2 hsame⟩

/-- An occurrence of a method argument joins those before it. -/
theorem assignArgument_ok (h : p.assignArgument argument (kindOf o) = .ok (target, p'))
    (hshares : Shares used xs p.registered) (hbindings : p.bindings = p.registered)
    (hstands : Assigned.StandsFor used ⟨o, argument, target⟩)
    (hfresh : ∀ z ∈ xs, z.isUnnumbered || o.marker == .unnumbered → z.argument ≠ argument) :
    ∃ bindings labels, Shares used (xs ++ [⟨o, argument, target⟩]) bindings ∧
      p' = { p with bindings, registered := bindings, labels } ∧
      (labels = p.labels ∨ labels = p.labels.allocate.2) := by
  unfold Progress.assignArgument at h
  split at h
  next hnone =>
    -- The argument has not occurred before.
    obtain ⟨q, hregister, hq⟩ := result_bind_ok.1 h
    obtain ⟨rfl, rfl⟩ := Prod.mk.inj (Except.ok.inj hq)
    have hother : ∀ y ∈ xs, y.argument ≠ argument := by
      intro y hy hsame
      have hmem := (mem_ofArgument hshares).2 ⟨y, hy, hsame, rfl⟩
      rw [hnone] at hmem
      cases hmem
    let x : Assigned := ⟨o, argument, argument⟩
    have hnew : ∀ b ∈ p.registered, (b == x.binding) = false := by
      intro b hb
      obtain ⟨y, hy, rfl⟩ := hshares.mem_bindings hb
      exact Bool.eq_false_iff.2 fun heq => hother y hy (binding_beq y x heq).1
    obtain ⟨rfl, hapart⟩ := register_ok hregister hbindings hnew
    exact ⟨_, p.labels, hshares.append_new (x := x) hapart
      (fun y hy hsame => hother y hy hsame.1) (fun _ => rfl) hstands hfresh, rfl, .inl rfl⟩
  next existing hsome =>
    dsimp only at h
    cases hfind : (p.ofArgument argument).find?
      (·.isCompatibleWith { identifier := argument, origin := .argument argument, kind := kindOf o })
    with
    | some b =>
      -- Some occurrence before prepares its value alike.
      rw [hfind] at h
      obtain ⟨rfl, rfl⟩ := Prod.mk.inj (Except.ok.inj h)
      obtain ⟨y, hy, rfl, rfl⟩ := (mem_ofArgument hshares).1 (List.mem_of_find?_eq_some hfind)
      have hcompatible := List.find?_some hfind
      have hkind := ((isCompatibleWith_binding y ⟨o, y.argument, y.argument⟩).1 hcompatible).2
      exact ⟨_, p.labels, hshares.append_shared hy rfl rfl hkind.symm hstands hfresh,
        (with_bindings hbindings).symm, .inl rfl⟩
    | none =>
      -- All occurrences before prepare their values otherwise.
      rw [hfind] at h
      obtain ⟨labels, hfreshIdentifier, hlabels⟩ := freshIdentifier_eq p argument
      obtain ⟨q, hregister, hq⟩ := result_bind_ok.1 h
      obtain ⟨rfl, rfl⟩ := Prod.mk.inj (Except.ok.inj hq)
      rw [hfreshIdentifier] at hregister
      let x : Assigned := ⟨o, argument, (p.freshIdentifier argument).1⟩
      have hother : ∀ y ∈ xs, ¬ (y.argument = argument ∧ y.kind = x.kind) := by
        rintro y hy ⟨hsame, hkind⟩
        refine absurd ((isCompatibleWith_binding y ⟨o, argument, argument⟩).2 ⟨hsame, hkind⟩) ?_
        exact List.find?_eq_none.1 hfind _ ((mem_ofArgument hshares).2 ⟨y, hy, hsame, rfl⟩)
      have hnew : ∀ b ∈ p.registered, (b == x.binding) = false := by
        intro b hb
        obtain ⟨y, hy, rfl⟩ := hshares.mem_bindings hb
        exact Bool.eq_false_iff.2 fun heq => hother y hy (binding_beq y x heq)
      obtain ⟨rfl, hapart⟩ := register_ok (b := x.binding) hregister hbindings hnew
      refine ⟨_, labels, hshares.append_new (x := x) hapart hother (fun hfirst => ?_) hstands hfresh,
        rfl, hlabels⟩
      obtain ⟨b, hb⟩ := List.exists_mem_of_ne_nil _ hsome
      obtain ⟨y, hy, hsame, -⟩ := (mem_ofArgument hshares).1 hb
      exact absurd hsame (hfirst y hy)

/-- What holds of the progress that is made with some occurrences. -/
structure Consistent (used : List Nat) (xs : List Assigned) (p : Progress) : Prop where
  shares : Shares used xs p.registered
  bindings : p.bindings = p.registered
  labels : p.labels.WellFormed
  positions : ∀ n ∈ used, n ∈ p.labels.used
  allocated : ∀ x ∈ xs, x.isUnnumbered = true → ∃ n ∈ p.labels.used, x.argument = .indexed n
  identified : ∀ x ∈ xs, x.isUnnumbered = false → p.identified = true
  unnumbered : ∀ x ∈ xs, x.isUnnumbered = true → p.unnumbered = true

theorem consistent_start (cs : List Char) :
    Consistent (positions cs) [] { labels := .ofUsed (positions cs) } where
  shares := ⟨by simp, .nil, by simp, by simp, .nil, by simp, by simp⟩
  bindings := rfl
  labels := Labels.wellFormed_ofUsed (nodup_positions cs)
  positions := fun _ hn => hn
  allocated := by simp
  identified := by simp
  unnumbered := by simp

namespace Consistent

theorem allocate (h : Consistent used xs p) :
    Consistent used xs { p with labels := p.labels.allocate.2, unnumbered := true } where
  shares := h.shares
  bindings := h.bindings
  labels := h.labels.allocate
  positions n hn := by
    rw [h.labels.used_allocate]
    exact List.mem_cons_of_mem _ (h.positions n hn)
  allocated x hx hunnumbered := by
    obtain ⟨n, hn, hargument⟩ := h.allocated x hx hunnumbered
    rw [h.labels.used_allocate]
    exact ⟨n, List.mem_cons_of_mem _ hn, hargument⟩
  identified := h.identified
  unnumbered _ _ _ := rfl

theorem identify (h : Consistent used xs p) :
    Consistent used xs { p with identified := true } where
  shares := h.shares
  bindings := h.bindings
  labels := h.labels
  positions := h.positions
  allocated := h.allocated
  identified _ _ _ := rfl
  unnumbered := h.unnumbered

/-- What a step leaves when it assigns an argument. -/
theorem assign (h : Consistent used xs p)
    (hassign : p.assignArgument argument (kindOf o) = .ok (target, p'))
    (hstands : Assigned.StandsFor used ⟨o, argument, target⟩)
    (hfresh : ∀ z ∈ xs, z.isUnnumbered || o.marker == .unnumbered → z.argument ≠ argument)
    (hidentified : (o.marker == .unnumbered) = false → p.identified = true)
    (hunnumbered : (o.marker == .unnumbered) = true →
      p.unnumbered = true ∧ ∃ n ∈ p.labels.used, argument = .indexed n) (text : List Char) :
    Consistent used (xs ++ [⟨o, argument, target⟩]) { p' with text } ∧ p'.text = p.text ∧
      p'.unnumbered = p.unnumbered := by
  obtain ⟨bindings, labels, hshares, rfl, hlabels⟩ :=
    assignArgument_ok hassign h.shares h.bindings hstands hfresh
  have hused : ∀ n ∈ p.labels.used, n ∈ labels.used := by
    intro n hn
    rcases hlabels with rfl | rfl
    · exact hn
    · rw [h.labels.used_allocate]
      exact List.mem_cons_of_mem _ hn
  refine ⟨?_, rfl, rfl⟩
  constructor
  case shares => exact hshares
  case bindings => rfl
  case labels =>
    rcases hlabels with rfl | rfl
    · exact h.labels
    · exact h.labels.allocate
  case positions => exact fun n hn => hused n (h.positions n hn)
  case allocated =>
    refine List.forall_mem_append.2 ⟨fun x hx hx' => ?_, List.forall_mem_singleton.2 fun hx' => ?_⟩
    · obtain ⟨n, hn, hargument⟩ := h.allocated x hx hx'
      exact ⟨n, hused n hn, hargument⟩
    · obtain ⟨n, hn, hargument⟩ := (hunnumbered hx').2
      exact ⟨n, hused n hn, hargument⟩
  case identified =>
    exact List.forall_mem_append.2 ⟨h.identified, List.forall_mem_singleton.2 hidentified⟩
  case unnumbered =>
    exact List.forall_mem_append.2
      ⟨h.unnumbered, List.forall_mem_singleton.2 fun hx => (hunnumbered hx).1⟩

/-- What a step leaves at a marker with a name or number, as long as there is none without. -/
theorem assign_identified {q : Progress} (h : Consistent used xs p)
    (hmarker : (o.marker == .unnumbered) = false) (hunmixed : p.unnumbered = false)
    (hassign : Progress.assignArgument { p with identified := true } argument (kindOf o) =
      .ok (target, q))
    (hstands : Assigned.StandsFor used ⟨o, argument, target⟩) :
    ∃ x : Assigned, x.occurrence = o ∧
      Consistent used (xs ++ [x])
        { q with text := q.text ++ (markerText (!q.unnumbered) target).toList } ∧
      q.text ++ (markerText (!q.unnumbered) target).toList =
        p.text ++ (Segment.marker x).extracted := by
  have hfresh : ∀ z ∈ xs, (z.isUnnumbered || o.marker == .unnumbered) = true →
      z.argument ≠ argument := by
    intro z hz hunnumbered
    rw [hmarker, Bool.or_false] at hunnumbered
    have hsome := h.unnumbered z hz hunnumbered
    rw [hunmixed] at hsome
    cases hsome
  obtain ⟨hconsistent, htext, hflag⟩ := h.identify.assign hassign hstands hfresh (fun _ => rfl)
    (fun hunnumbered => by rw [hmarker] at hunnumbered; cases hunnumbered)
    (q.text ++ (markerText (!q.unnumbered) target).toList)
  refine ⟨_, rfl, hconsistent, ?_⟩
  simp [htext, hflag, hunmixed, Segment.extracted, Assigned.isUnnumbered, hmarker]

end Consistent

/-- A step assigns an occurrence its argument and parameter. -/
theorem step_occurrence {s : Substituted} (hs : s.expressions = [])
    (h : Consistent used xs p) (hstep : step s p (.occurrence o) = .ok p') :
    ∃ x : Assigned, x.occurrence = o ∧ Consistent used (xs ++ [x]) p' ∧
      p'.text = p.text ++ (Segment.marker x).extracted := by
  have hnone (key : Option String) : key.bind s.expression? = none := by
    cases key with
    | none => rfl
    | some k => rw [Option.bind_some, Substituted.expression?, hs]; rfl
  cases hmarker : o.marker with
  | unnumbered =>
    simp only [step, argumentOf, hmarker, hnone] at hstep
    split at hstep
    · cases hstep
    next hunmixed =>
      obtain ⟨⟨target, q⟩, hassign, hp'⟩ := result_bind_ok.1 hstep
      have hall : ∀ z ∈ xs, z.isUnnumbered = true := by
        intro z hz
        by_contra hz'
        simp [h.identified z hz (Bool.eq_false_iff.2 hz')] at hunmixed
      have hnew : p.labels.allocate.1 ∉ p.labels.used := h.labels.allocate_notMem
      obtain ⟨hconsistent, htext, hflag⟩ := h.allocate.assign hassign
        (by
          rw [Assigned.StandsFor, hmarker]
          exact ⟨_, fun hmem => hnew (h.positions _ hmem), rfl⟩)
        (by
          intro z hz _ hsame
          obtain ⟨n, hn, hargument⟩ := h.allocated z hz (hall z hz)
          rw [hargument] at hsame
          exact hnew (BindingIdentifier.indexed.inj hsame ▸ hn))
        (by simp [hmarker])
        (fun _ => ⟨rfl, _, by rw [h.labels.used_allocate]; exact List.mem_cons_self, rfl⟩)
        (q.text ++ (markerText (!q.unnumbered) target).toList)
      refine ⟨_, rfl, Except.ok.inj hp' ▸ hconsistent, ?_⟩
      rw [← Except.ok.inj hp']
      simp [htext, hflag, Segment.extracted, Assigned.isUnnumbered, hmarker]
  | numbered _ | named _ =>
    simp only [step, argumentOf, hmarker, hnone] at hstep
    split at hstep
    · cases hstep
    next hunmixed =>
      obtain ⟨⟨target, q⟩, hassign, hp'⟩ := result_bind_ok.1 hstep
      rw [← Except.ok.inj hp']
      refine h.assign_identified (by rw [hmarker]; rfl) (by simpa using hunmixed) hassign ?_
      rw [Assigned.StandsFor, hmarker]

/-- All steps together assign all occurrences. -/
theorem foldlM_step {s : Substituted} (hs : s.expressions = []) (h : Consistent used xs p)
    {pieces : List Piece} (hrun : pieces.foldlM (step s) p = .ok p') :
    ∃ segments : List Segment, segments.map Segment.piece = pieces ∧
      Consistent used (xs ++ segments.filterMap Segment.assigned?) p' ∧
      p'.text = p.text ++ segments.flatMap Segment.extracted := by
  induction pieces generalizing xs p with
  | nil =>
    obtain rfl := Except.ok.inj hrun
    exact ⟨[], rfl, by simpa using h, by simp⟩
  | cons piece pieces ih =>
    obtain ⟨q, hstep, hrest⟩ := result_bind_ok.1 hrun
    cases piece with
    | text cs =>
      obtain rfl := Except.ok.inj hstep
      have h' : Consistent used xs { p with text := p.text ++ cs } :=
        ⟨h.shares, h.bindings, h.labels, h.positions, h.allocated, h.identified, h.unnumbered⟩
      obtain ⟨segments, hpieces, hconsistent, htext⟩ := ih h' hrest
      exact ⟨.text cs :: segments, congrArg (List.cons _) hpieces, hconsistent, by
        simp [htext, Segment.extracted]⟩
    | occurrence o =>
      obtain ⟨x, rfl, hx, hxtext⟩ := step_occurrence hs h hstep
      obtain ⟨segments, hpieces, hconsistent, htext⟩ := ih hx hrest
      refine ⟨.marker x :: segments, congrArg (List.cons _) hpieces, ?_, ?_⟩
      · simpa [Segment.assigned?] using hconsistent
      · simp [htext, hxtext]

/-- In a text without value expressions, occurrences of markers share a query parameter just if they
have the same argument and the same kind. The first occurrence of an argument keeps its own name or
number, no two bindings share a name or a position, each has the argument of its occurrences as its
origin, and they are listed in order of first occurrence. -/
theorem markers_share {query : String} {isNative : Bool} {r : ExtractedQuery}
    (hplain : ¬ HasExpressions query.toList) (h : parse query isNative = .ok r) :
    ∃ segments : List Segment, segments.map Segment.piece = pieces query.toList ∧
      r.query = String.ofList (segments.flatMap Segment.extracted) ∧
      Shares (positions query.toList) (segments.filterMap Segment.assigned?) r.bindings := by
  unfold parse extract at h
  dsimp only at h
  rw [substitute_eq hplain] at h
  obtain ⟨p, hrun, hr⟩ := result_bind_ok.1 h
  obtain ⟨segments, hpieces, hconsistent, htext⟩ :=
    foldlM_step rfl (consistent_start query.toList) hrun
  rw [← Except.ok.inj hr]
  refine ⟨segments, hpieces, congrArg String.ofList htext, ?_⟩
  change Shares _ _ p.bindings
  rw [hconsistent.bindings]
  exact hconsistent.shares

/-- Two markers of one name and kind share a parameter, and a third of another kind has its own. -/
theorem markers_share_names : ∃ r,
    parse "u.a like %:a% or u.b = :a or u.c like %:a% or u.d = :a_1_" false = .ok r ∧
    ∃ segments : List Segment,
      segments.map Segment.piece =
        pieces "u.a like %:a% or u.b = :a or u.c like %:a% or u.d = :a_1_".toList ∧
      r.query = String.ofList (segments.flatMap Segment.extracted) ∧
      Shares (positions "u.a like %:a% or u.b = :a or u.c like %:a% or u.d = :a_1_".toList)
        (segments.filterMap Segment.assigned?) r.bindings := by
  have haccepted : (parse "u.a like %:a% or u.b = :a or u.c like %:a% or u.d = :a_1_"
      false).toOption.map (·.query) =
        some "u.a like :a or u.b = :a_1 or u.c like :a or u.d = :a_1_" := by
    decide +kernel
  obtain ⟨r, hr, -⟩ := Step.exists_of_toOption_map haccepted
  exact ⟨r, hr, markers_share (by unfold HasExpressions; decide +kernel) hr⟩

end ExtractedQuery

end Jpql
