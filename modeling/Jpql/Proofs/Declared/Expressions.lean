import Jpql.Proofs.Declared.Pieces
import Jpql.Proofs.Token.Lexing
import Mathlib

/-! How the value expressions of a query text are replaced: one after the other, up to the first that
is not closed. What is replaced in front of a quote does not depend on what stands behind it, unless
an expression reaches over the quote. -/

namespace Jpql.Markers

variable {byIndex : Bool} {opened : Option Char} {s s' : Substituted} {cs rest body inner : List Char}
  {q : Char} {closed : Bool}

/-! ### Expressions -/

theorem expressionStart?_ok (h : expressionStart? cs = some body) :
    ∃ m, (m = ':' ∨ m = '?') ∧ cs = m :: '#' :: '\x7b' :: body := by
  unfold expressionStart? at h
  cases hcolon : Text.stripFront? [':', '#', '\x7b'] cs with
  | some b =>
    rw [hcolon] at h
    exact ⟨':', .inl rfl, (Text.append_of_stripFront? (hcolon.trans h)).symm⟩
  | none =>
    rw [hcolon] at h
    exact ⟨'?', .inr rfl, (Text.append_of_stripFront? h).symm⟩

theorem expressionStart?_front (hq : isQuote q = true) (cs t : List Char) :
    expressionStart? (cs ++ q :: t) = (expressionStart? cs).map (· ++ q :: t) := by
  have hmem : q ∉ [':', '#', '\x7b'] ∧ q ∉ ['?', '#', '\x7b'] := by
    rcases eq_of_isQuote hq with rfl | rfl <;> decide
  unfold expressionStart?
  rw [Text.stripFront?_front hmem.1, Text.stripFront?_front hmem.2, Option.map_or]

theorem map_cons_eq {c : Char} {found : Option (List Char × List Char)} :
    (found.map fun (inner, rest) => (c :: inner, rest)) = some (inner, rest) ↔
      ∃ inner', inner = c :: inner' ∧ found = some (inner', rest) := by
  constructor
  · intro h
    obtain ⟨⟨inner', rest'⟩, rfl, heq⟩ := Option.map_eq_some_iff.1 h
    obtain ⟨rfl, rfl⟩ := Prod.mk.inj heq
    exact ⟨inner', rfl, rfl⟩
  · rintro ⟨inner', rfl, rfl⟩
    rfl

theorem cutAtBrace?_ok {depth : Nat} (h : cutAtBrace? depth cs = some (inner, rest)) :
    inner ++ '\x7d' :: rest = cs := by
  induction cs generalizing depth inner with
  | nil => cases h
  | cons c cs ih =>
    have hmap {d : Nat} (h : ∃ inner', inner = c :: inner' ∧ cutAtBrace? d cs = some (inner', rest)) :
        inner ++ '\x7d' :: rest = c :: cs := by
      obtain ⟨inner', rfl, hcut⟩ := h
      exact congrArg (List.cons c) (ih hcut)
    unfold cutAtBrace? at h
    split at h
    · exact hmap (map_cons_eq.1 h)
    split at h
    next hclosing =>
      obtain rfl := eq_of_beq hclosing
      cases depth with
      | zero =>
        obtain ⟨rfl, rfl⟩ := Prod.mk.inj (Option.some.inj h)
        rfl
      | succ depth => exact hmap (map_cons_eq.1 h)
    next => exact hmap (map_cons_eq.1 h)

/-- An expression in front of the rest of a text. -/
theorem exists_taken (hstart : expressionStart? cs = some body)
    (hcut : cutAtBrace? 0 body = some (inner, rest)) :
    ∃ taken, taken ≠ [] ∧ taken ++ rest = cs := by
  obtain ⟨m, -, rfl⟩ := expressionStart?_ok hstart
  refine ⟨m :: '#' :: '\x7b' :: inner ++ ['\x7d'], by simp, ?_⟩
  rw [← cutAtBrace?_ok hcut]
  simp

/-- A brace that closes does so whatever stands behind it. -/
theorem cutAtBrace?_append {depth : Nat} (h : cutAtBrace? depth cs = some (inner, rest))
    (t : List Char) : cutAtBrace? depth (cs ++ t) = some (inner, rest ++ t) := by
  induction cs generalizing depth inner with
  | nil => cases h
  | cons c cs ih =>
    have hmap {d : Nat} (h : ∃ inner', inner = c :: inner' ∧ cutAtBrace? d cs = some (inner', rest)) :
        ∃ inner', inner = c :: inner' ∧ cutAtBrace? d (cs ++ t) = some (inner', rest ++ t) := by
      obtain ⟨inner', rfl, hcut⟩ := h
      exact ⟨inner', rfl, ih hcut⟩
    rw [List.cons_append]
    unfold cutAtBrace? at h ⊢
    split at h
    next hopening => exact (if_pos hopening).trans (map_cons_eq.2 (hmap (map_cons_eq.1 h)))
    next hopening =>
      rw [if_neg hopening]
      split at h
      next hclosing =>
        rw [if_pos hclosing]
        cases depth with
        | zero =>
          obtain ⟨rfl, rfl⟩ := Prod.mk.inj (Option.some.inj h)
          rfl
        | succ depth => exact map_cons_eq.2 (hmap (map_cons_eq.1 h))
      next hclosing => exact (if_neg hclosing).trans (map_cons_eq.2 (hmap (map_cons_eq.1 h)))

/-- How the value expressions of a text are replaced. The last argument says whether all that start
are closed. -/
inductive Replaces (byIndex : Bool) :
    (opened : Option Char) → Substituted → List Char → Substituted → (closed : Bool) → Prop
  | nil {opened : Option Char} {s : Substituted} : Replaces byIndex opened s [] s true
  | char {opened : Option Char} {s s' : Substituted} {c : Char} {cs : List Char} {closed : Bool}
      (hnone : opened.isSome = true ∨ expressionStart? (c :: cs) = none)
      (hrest : Replaces byIndex (quoteAfter opened c) { s with text := s.text ++ [c] } cs s' closed) :
      Replaces byIndex opened s (c :: cs) s' closed
  | expression {s s' : Substituted} {taken rest body inner : List Char} {closed : Bool}
      (hstart : expressionStart? (taken ++ rest) = some body)
      (hcut : cutAtBrace? 0 body = some (inner, rest))
      (hrest : Replaces byIndex (quoteAfterAll none taken)
        (s.push byIndex (Text.trim (String.ofList inner))) rest s' closed) :
      Replaces byIndex none s (taken ++ rest) s' closed
  | unclosed {s : Substituted} {cs body : List Char} (hstart : expressionStart? cs = some body)
      (hcut : cutAtBrace? 0 body = none) :
      Replaces byIndex none s cs { s with text := s.text ++ cs } false

theorem substituteFrom_cons (byIndex : Bool) (fuel : Nat) (opened : Option Char) (s : Substituted)
    (c : Char) (cs : List Char) :
    substituteFrom byIndex (fuel + 1) opened s (c :: cs) =
      match if opened.isSome then none else expressionStart? (c :: cs) with
      | some body =>
        match cutAtBrace? 0 body with
        | some (inner, rest) =>
          let taken := (c :: cs).take ((c :: cs).length - rest.length)
          substituteFrom byIndex fuel (quoteAfterAll opened taken)
            (s.push byIndex (Text.trim (String.ofList inner))) rest
        | none => { s with text := s.text ++ c :: cs }
      | none =>
        substituteFrom byIndex fuel (quoteAfter opened c) { s with text := s.text ++ [c] } cs := by
  exact rfl

theorem length_of_expression (hstart : expressionStart? cs = some body)
    (hcut : cutAtBrace? 0 body = some (inner, rest)) : rest.length < cs.length := by
  obtain ⟨taken, hne, rfl⟩ := exists_taken hstart hcut
  have hpos := List.length_pos_iff.2 hne
  rw [List.length_append]
  omega

/-- The step over an expression that is closed. -/
theorem substituteFrom_expression {taken : List Char}
    (hstart : expressionStart? (taken ++ rest) = some body)
    (hcut : cutAtBrace? 0 body = some (inner, rest)) (fuel : Nat) (s : Substituted) :
    substituteFrom byIndex (fuel + 1) none s (taken ++ rest) =
      substituteFrom byIndex fuel (quoteAfterAll none taken)
        (s.push byIndex (Text.trim (String.ofList inner))) rest := by
  obtain ⟨c, cs, hcons⟩ := List.exists_cons_of_length_pos
    (Nat.lt_of_le_of_lt (Nat.zero_le _) (length_of_expression hstart hcut))
  have htaken : (c :: cs).take ((c :: cs).length - rest.length) = taken := by
    rw [← hcons, List.length_append, Nat.add_sub_cancel, List.take_left]
  rw [hcons] at hstart ⊢
  simp only [substituteFrom_cons, Option.isSome_none, Bool.false_eq_true, if_false, hstart, hcut,
    htaken]

theorem replaces_substituteFrom (byIndex : Bool) {fuel : Nat} (h : cs.length ≤ fuel)
    (opened : Option Char) (s : Substituted) :
    ∃ closed, Replaces byIndex opened s cs (substituteFrom byIndex fuel opened s cs) closed := by
  induction fuel generalizing opened s cs with
  | zero =>
    obtain rfl := List.length_eq_zero_iff.1 (Nat.le_zero.1 h)
    exact ⟨true, by simpa [substituteFrom] using Replaces.nil⟩
  | succ fuel ih =>
    cases cs with
    | nil => exact ⟨true, .nil⟩
    | cons c cs =>
      have hchar (hnone : opened.isSome = true ∨ expressionStart? (c :: cs) = none) :
          ∃ closed, Replaces byIndex opened s (c :: cs)
            (substituteFrom byIndex (fuel + 1) opened s (c :: cs)) closed := by
        obtain ⟨closed, hrest⟩ := ih (Nat.le_of_succ_le_succ h) (quoteAfter opened c)
          { s with text := s.text ++ [c] }
        refine ⟨closed, .char hnone ?_⟩
        rw [substituteFrom_cons]
        rcases hnone with hopened | hnone
        · simpa [hopened] using hrest
        · simpa [hnone] using hrest
      cases opened with
      | some opening => exact hchar (.inl rfl)
      | none =>
        cases hstart : expressionStart? (c :: cs) with
        | none => exact hchar (.inr hstart)
        | some body =>
          cases hcut : cutAtBrace? 0 body with
          | none =>
            refine ⟨false, ?_⟩
            rw [substituteFrom_cons]
            simp only [Option.isSome_none, Bool.false_eq_true, if_false, hstart, hcut]
            exact .unclosed hstart hcut
          | some found =>
            obtain ⟨inner, rest⟩ := found
            obtain ⟨taken, -, hcons⟩ := exists_taken hstart hcut
            have hfuel : rest.length ≤ fuel :=
              Nat.le_of_lt_succ (Nat.lt_of_lt_of_le (length_of_expression hstart hcut) h)
            rw [← hcons] at hstart ⊢
            rw [substituteFrom_expression hstart hcut]
            obtain ⟨closed, hrest⟩ := ih hfuel (quoteAfterAll none taken)
              (s.push byIndex (Text.trim (String.ofList inner)))
            exact ⟨closed, .expression hstart hcut hrest⟩

namespace Replaces

/-- There is one way to replace the expressions of a text. -/
theorem substituteFrom_eq (h : Replaces byIndex opened s cs s' closed) {fuel : Nat}
    (hfuel : cs.length ≤ fuel) : substituteFrom byIndex fuel opened s cs = s' := by
  induction h generalizing fuel with
  | nil =>
    cases fuel with
    | zero => simp [substituteFrom]
    | succ fuel => rfl
  | char hnone _ ih =>
    obtain ⟨fuel, rfl⟩ := Nat.exists_eq_add_of_le' (Nat.le_trans (Nat.le_add_left 1 _) hfuel)
    rw [substituteFrom_cons, ← ih (Nat.le_of_succ_le_succ hfuel)]
    rcases hnone with hopened | hnone
    · simp [hopened]
    · simp [hnone]
  | expression hstart hcut _ ih =>
    have hlt := Nat.lt_of_lt_of_le (length_of_expression hstart hcut) hfuel
    obtain ⟨fuel, rfl⟩ := Nat.exists_eq_add_of_le' (Nat.succ_le_of_lt (Nat.zero_lt_of_lt hlt))
    rw [substituteFrom_expression hstart hcut, ih (Nat.le_of_lt_succ hlt)]
  | unclosed hstart hcut =>
    obtain ⟨m, -, rfl⟩ := expressionStart?_ok hstart
    obtain ⟨fuel, rfl⟩ := Nat.exists_eq_add_of_le' (Nat.le_trans (Nat.le_add_left 1 _) hfuel)
    simp [substituteFrom_cons, hstart, hcut]

/-- What is replaced in front of a quote does not depend on what stands behind it. -/
theorem append (hq : isQuote q = true) {t : List Char} {s₁ s₂ : Substituted}
    (h : Replaces byIndex opened s cs s₁ true)
    (h' : Replaces byIndex (quoteAfterAll opened cs) s₁ (q :: t) s₂ closed) :
    Replaces byIndex opened s (cs ++ q :: t) s₂ closed := by
  generalize hclosed : true = all at h
  induction h with
  | nil => exact h'
  | char hnone _ ih =>
    rw [List.cons_append]
    refine .char (hnone.imp_right fun hnone => ?_) (ih h' hclosed)
    rw [← List.cons_append, expressionStart?_front hq, hnone]
    rfl
  | expression hstart hcut _ ih =>
    rw [quoteAfterAll_append] at h'
    rw [List.append_assoc]
    refine .expression ?_ (cutAtBrace?_append hcut (q :: t)) (ih h' hclosed)
    rw [← List.append_assoc, expressionStart?_front hq, hstart]
    rfl
  | unclosed => cases hclosed

end Replaces

/-- A value expression that starts in the first text ends in the second. -/
def Spans (opened : Option Char) (front back : List Char) : Prop :=
  ∃ before start body, front = before ++ start ∧ quoteAfterAll opened before = none ∧
    expressionStart? start = some body ∧ cutAtBrace? 0 body = none ∧
      (cutAtBrace? 0 (body ++ back)).isSome = true

theorem not_spans {front back : List Char} (h : ∀ c ∈ front, c ≠ ':' ∧ c ≠ '?') :
    ¬ Spans opened front back := by
  rintro ⟨before, start, body, rfl, -, hstart, -⟩
  obtain ⟨m, hm, rfl⟩ := expressionStart?_ok hstart
  have hne := h m (by simp)
  exact hm.elim hne.1 hne.2

/-- Behind an expression that is not closed nothing is replaced. -/
theorem Replaces.append_unclosed (hq : isQuote q = true) {t : List Char}
    (h : Replaces byIndex opened s cs s' false) (hspans : ¬ Spans opened cs (q :: t)) :
    Replaces byIndex opened s (cs ++ q :: t) { s' with text := s'.text ++ q :: t } false := by
  generalize hclosed : false = all at h ⊢
  induction h with
  | nil => cases hclosed
  | @char opened _ _ c _ _ hnone _ ih =>
    rw [List.cons_append]
    refine .char (hnone.imp_right fun hnone => ?_) (ih ?_ hclosed)
    · rw [← List.cons_append, expressionStart?_front hq, hnone]
      rfl
    · rintro ⟨before, start, body, rfl, hbefore⟩
      exact hspans ⟨c :: before, start, body, rfl, hbefore⟩
  | @expression _ _ taken _ _ _ _ hstart hcut _ ih =>
    rw [List.append_assoc]
    refine .expression ?_ (cutAtBrace?_append hcut (q :: t)) (ih ?_ hclosed)
    · rw [← List.append_assoc, expressionStart?_front hq, hstart]
      rfl
    · rintro ⟨before, start, body, rfl, hbefore, hcuts⟩
      rw [← quoteAfterAll_append] at hbefore
      exact hspans ⟨taken ++ before, start, body, (List.append_assoc _ _ _).symm, hbefore, hcuts⟩
  | @unclosed s cs body hstart hcut =>
    have hfront : expressionStart? (cs ++ q :: t) = some (body ++ q :: t) := by
      rw [expressionStart?_front hq, hstart]
      rfl
    have hnone : cutAtBrace? 0 (body ++ q :: t) = none := by
      by_contra hsome
      exact hspans ⟨[], cs, body, rfl, rfl, hstart, hcut, Option.isSome_iff_ne_none.2 hsome⟩
    rw [List.append_assoc]
    exact .unclosed hfront hnone

/-- A relation that texts and markers keep is kept by the replacement. -/
theorem Replaces.simulate {byIndex' : Bool} {R : Substituted → Substituted → Prop}
    (htext : ∀ s t cs, R s t → R { s with text := s.text ++ cs } { t with text := t.text ++ cs })
    (hpush : ∀ s t expression, R s t → R (s.push byIndex expression) (t.push byIndex' expression))
    {t : Substituted} (h : Replaces byIndex opened s cs s' closed) (hst : R s t) :
    ∃ t', Replaces byIndex' opened t cs t' closed ∧ R s' t' := by
  induction h generalizing t with
  | nil => exact ⟨t, .nil, hst⟩
  | char hnone _ ih =>
    obtain ⟨t', hrest, hR⟩ := ih (htext _ _ _ hst)
    exact ⟨t', .char hnone hrest, hR⟩
  | expression hstart hcut _ ih =>
    obtain ⟨t', hrest, hR⟩ := ih (hpush _ _ _ hst)
    exact ⟨t', .expression hstart hcut hrest, hR⟩
  | unclosed hstart hcut => exact ⟨_, .unclosed hstart hcut, htext _ _ _ hst⟩

/-- What is left of a literal behind its opening quote is left as it is. -/
theorem Replaces.quoted {x back : List Char} (hq : isQuote q = true)
    (hx : ∀ c ∈ x, isQuote c = false)
    (h : Replaces byIndex none { s with text := s.text ++ (x ++ [q]) } back s' closed) :
    Replaces byIndex (some q) s (x ++ q :: back) s' closed := by
  induction x generalizing s with
  | nil =>
    have hclosing : quoteAfter (some q) q = none := if_pos (beq_self_eq_true q)
    refine .char (.inl rfl) ?_
    rw [hclosing]
    exact h
  | cons c x ih =>
    obtain ⟨hc, hx⟩ := List.forall_mem_cons.1 hx
    have hsame : quoteAfter (some q) c = some q :=
      quoteAfterAll_unquoted hq (List.forall_mem_singleton.2 hc)
    refine .char (.inl rfl) ?_
    rw [hsame]
    refine ih hx ?_
    simpa using h

/-- A literal is left as it is. -/
theorem Replaces.literal {x back : List Char} (hq : isQuote q = true)
    (hx : ∀ c ∈ x, isQuote c = false)
    (h : Replaces byIndex none { s with text := s.text ++ (q :: x ++ [q]) } back s' closed) :
    Replaces byIndex none s (q :: x ++ q :: back) s' closed := by
  have hopening : quoteAfter none q = some q := if_pos hq
  have hnone : expressionStart? (q :: (x ++ q :: back)) = none := by
    rw [← List.nil_append (q :: _), expressionStart?_front hq]
    rfl
  refine .char (.inr hnone) ?_
  rw [hopening]
  refine .quoted hq hx ?_
  simpa using h

/-- A text without markers is left as it is. -/
theorem Replaces.plain (h : ∀ c ∈ cs, c ≠ ':' ∧ c ≠ '?') (s : Substituted) :
    Replaces byIndex opened s cs { s with text := s.text ++ cs } true := by
  induction cs generalizing opened s with
  | nil =>
    rw [List.append_nil]
    exact .nil
  | cons c cs ih =>
    obtain ⟨hc, hcs⟩ := List.forall_mem_cons.1 h
    have hrest : Replaces byIndex (quoteAfter opened c) _ _ _ _ :=
      ih hcs { s with text := s.text ++ [c] }
    refine .char (.inr ?_) ?_
    · cases hstart : expressionStart? (c :: cs) with
      | none => rfl
      | some body =>
        obtain ⟨m, hm, heq⟩ := expressionStart?_ok hstart
        obtain rfl := (List.cons.inj heq).1
        exact (hm.elim hc.1 hc.2).elim
    · rwa [List.append_assoc] at hrest

/-! ### Quotes around expressions -/

theorem isQuote_of_quoteAfterAll (cs : List Char) :
    ∀ q ∈ quoteAfterAll none cs, isQuote q = true := by
  have hall : ∀ opened, (∀ q ∈ opened, isQuote q = true) → ∀ q ∈ quoteAfterAll opened cs,
      isQuote q = true := by
    induction cs with
    | nil => exact fun _ h => h
    | cons c cs ih =>
      intro opened hopened
      refine ih _ fun q hq => ?_
      unfold quoteAfter at hq
      split at hq <;> split at hq
      · exact Option.some.inj hq ▸ ‹_›
      · cases hq
      · cases hq
      · exact hopened q hq
  exact hall none (by simp)

/-- The marker of an expression leaves open what is open. -/
theorem quoteAfterAll_push (s : Substituted) (byIndex : Bool) (expression : String) :
    quoteAfterAll none (s.push byIndex expression).text = quoteAfterAll none s.text := by
  have hunquoted {m : List Char} (hm : ∀ c ∈ m, isQuote c = false) :
      quoteAfterAll (quoteAfterAll none s.text) m = quoteAfterAll none s.text := by
    cases hopened : quoteAfterAll none s.text with
    | none => exact quoteAfterAll_none hm
    | some q =>
      have hq := isQuote_of_quoteAfterAll s.text q hopened
      exact quoteAfterAll_unquoted hq hm
  have hdigits (n : Nat) : ∀ c ∈ (toString n).toList, isQuote c = false := by
    intro c hc
    have hdigit := Lexer.isDigit_of_mem_toString hc
    rw [Bool.eq_false_iff]
    intro hquote
    rcases eq_of_isQuote hquote with rfl | rfl <;> cases hdigit
  unfold Substituted.push
  split
  · rw [quoteAfterAll_append]
    exact hunquoted (List.forall_mem_cons.2 ⟨rfl, hdigits _⟩)
  · rw [quoteAfterAll_append]
    refine hunquoted (List.forall_mem_cons.2 ⟨rfl, ?_⟩)
    rw [String.toList_append]
    exact List.forall_mem_append.2 ⟨by simp [isQuote], hdigits _⟩

/-- Whether a quote is open behind a text with its expressions replaced does not depend on how they
are marked. -/
theorem quoteAfterAll_substitute (byIndex byIndex' : Bool) (labels labels' : Labels)
    (cs : List Char) :
    quoteAfterAll none (substitute byIndex labels cs).text =
      quoteAfterAll none (substitute byIndex' labels' cs).text := by
  obtain ⟨closed, h⟩ := replaces_substituteFrom byIndex (Nat.le_refl cs.length) none { labels }
  obtain ⟨t, ht, hsame⟩ : ∃ t, Replaces byIndex' none { labels := labels' } cs t closed ∧
      quoteAfterAll none (substituteFrom byIndex cs.length none { labels } cs).text =
        quoteAfterAll none t.text :=
    h.simulate (R := fun s t => quoteAfterAll none s.text = quoteAfterAll none t.text)
      (fun s t cs hst => by rw [quoteAfterAll_append, quoteAfterAll_append, hst])
      (fun s t expression hst => by rw [quoteAfterAll_push, quoteAfterAll_push, hst]) rfl
  rw [substitute, hsame, substitute, ht.substituteFrom_eq (Nat.le_refl _)]

end Jpql.Markers
