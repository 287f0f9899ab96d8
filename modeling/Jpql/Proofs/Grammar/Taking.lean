import Jpql.Grammar
import Jpql.Proofs.Token.Lexing
import Mathlib

/-! Runs of parsers on lexemes. A parser takes some lexemes for a result if, on any tokens with these
lexemes, it succeeds with that result and leaves tokens with the lexemes behind. Where the tokens
stand does not matter, so that runs can be put together from the runs of their parts. -/

namespace Jpql

namespace Lexeme

def eof : Lexeme := ⟨.eof, ""⟩

/-- The lexeme `n` places ahead. -/
def ahead (n : Nat) (input : List Lexeme) : Lexeme := input[n]?.getD eof

def isKeyword (l : Lexeme) (keyword : String) : Bool :=
  l.kind == .keyword && eqIgnoringCase l.literal keyword

def isAnyWord (l : Lexeme) : Bool := l.kind == .identifier || l.kind == .keyword

def isWord (l : Lexeme) (word : String) : Bool := l.isAnyWord && eqIgnoringCase l.literal word

def isPunctuator (l : Lexeme) (p : String) : Bool := l.kind == .punctuator && l.literal == p

@[simp] theorem ahead_nil (n : Nat) : ahead n [] = eof := rfl

@[simp] theorem ahead_zero (l : Lexeme) (input : List Lexeme) : ahead 0 (l :: input) = l := rfl

@[simp] theorem ahead_succ (n : Nat) (l : Lexeme) (input : List Lexeme) :
    ahead (n + 1) (l :: input) = ahead n input := rfl

theorem kind_word_of_isReserved {w : String} (h : isReserved w = false) :
    (word w).kind = .identifier := by simp [word, h]

theorem isKeyword_word {w : String} (h : isReserved w = false) (k : String) :
    (word w).isKeyword k = false := by simp [isKeyword, kind_word_of_isReserved h]

/-- A keyword is no other keyword. -/
theorem isKeyword_eq_false {l : Lexeme} {k k' : String} (h : l.isKeyword k = true)
    (hk : eqIgnoringCase k k' = false) : l.isKeyword k' = false := by
  simp only [isKeyword, Bool.and_eq_true, eqIgnoringCase, beq_iff_eq] at h
  rw [eqIgnoringCase, ← h.2] at hk
  rw [isKeyword, eqIgnoringCase, hk, Bool.and_false]

@[simp] theorem isAnyWord_word (w : String) : (word w).isAnyWord = true := by
  unfold isAnyWord word
  split <;> rfl

@[simp] theorem isPunctuator_word (w p : String) : (word w).isPunctuator p = false := by
  unfold isPunctuator word
  split <;> rfl

end Lexeme

namespace Grammar

open Jpql.Grammar.Parser
open Lexeme (ahead)

variable {α β : Type}

/-- The end of the text is marked as such. -/
def Setting.Ends (s : Setting) : Prop := s.eof.lexeme = .eof

def Takes (s : Setting) (p : Parser α) (input : List Lexeme) (a : α) (rest : List Lexeme) : Prop :=
  ∀ ts : List Token, ts.map Token.lexeme = input →
    ∃ ts' : List Token, ts'.map Token.lexeme = rest ∧ p s ts = .ok (a, ts')

/-- The parser fails on tokens with these lexemes. -/
def Rejects (s : Setting) (p : Parser α) (input : List Lexeme) : Prop :=
  ∀ ts : List Token, ts.map Token.lexeme = input → ∃ e, p s ts = .error e

variable {s : Setting} {p : Parser α} {f : α → Parser β} {input rest behind : List Lexeme} {a : α}
  {b : β}

/-! ### Steps -/

namespace Takes

theorem pure (a : α) (input : List Lexeme) : Takes s (Pure.pure a) input a input :=
  fun ts h => ⟨ts, h, rfl⟩

theorem bind (hp : Takes s p input a rest) (hf : Takes s (f a) rest b behind) :
    Takes s (p >>= f) input b behind := by
  intro ts h
  obtain ⟨ts', h', hp⟩ := hp ts h
  obtain ⟨ts'', h'', hf⟩ := hf ts' h'
  refine ⟨ts'', h'', ?_⟩
  rw [bind_eq, hp, ← hf]

/-- On the same lexemes a parser has the same result. -/
theorem unique {a' : α} {rest' : List Lexeme} (h : Takes s p input a rest)
    (h' : Takes s p input a' rest') : a = a' := by
  let ts : List Token := input.map fun l => ⟨l.kind, l.literal, {}⟩
  have hts : ts.map Token.lexeme = input := by
    rw [List.map_map]
    exact List.map_id _
  obtain ⟨_, -, hp⟩ := h ts hts
  obtain ⟨_, -, hp'⟩ := h' ts hts
  rw [hp, Except.ok.injEq, Prod.mk.injEq] at hp'
  exact hp'.1

theorem map (g : α → β) (hp : Takes s p input a rest) : Takes s (g <$> p) input (g a) rest :=
  hp.bind (.pure _ _)

theorem ite_true {c : Bool} {p q : Parser α} (hc : c = true) (h : Takes s p input a rest) :
    Takes s (if c then p else q) input a rest := by rwa [if_pos hc]

theorem ite_false {c : Bool} {p q : Parser α} (hc : c = false) (h : Takes s q input a rest) :
    Takes s (if c then p else q) input a rest := by rwa [hc, if_neg (by decide)]

theorem bounded {p : Nat → Parser α} (h : Takes s (p input.length) input a rest) :
    Takes s (Parser.bounded p) input a rest := by
  intro ts hts
  obtain ⟨ts', h', hp⟩ := h ts hts
  refine ⟨ts', h', ?_⟩
  rw [← hts, List.length_map] at hp
  exact hp

theorem attempt_some (h : Takes s p input a rest) : Takes s (attempt p) input (some a) rest := by
  intro ts hts
  obtain ⟨ts', h', hp⟩ := h ts hts
  refine ⟨ts', h', ?_⟩
  simp only [attempt, hp]

theorem attempt_none (h : Rejects s p input) : Takes s (attempt p) input none input := by
  intro ts hts
  obtain ⟨e, he⟩ := h ts hts
  refine ⟨ts, hts, ?_⟩
  simp only [attempt, he]

/-- A parser that looks ahead goes on with a token that has the lexeme there. -/
theorem peekAt {f : Token → Parser β} (he : s.Ends) (n : Nat)
    (h : ∀ t : Token, t.lexeme = ahead n input → Takes s (f t) input b rest) :
    Takes s (Grammar.peekAt n >>= f) input b rest := by
  intro ts hts
  refine h (ts[n]?.getD s.eof) ?_ ts hts
  rw [ahead, ← hts, List.getElem?_map]
  cases ts[n]? with
  | none => exact he
  | some t => rfl

theorem current {f : Token → Parser β} (he : s.Ends)
    (h : ∀ t : Token, t.lexeme = ahead 0 input → Takes s (f t) input b rest) :
    Takes s (Grammar.current >>= f) input b rest := .peekAt he 0 h

end Takes

namespace Rejects

theorem bind_left (hp : Rejects s p input) : Rejects s (p >>= f) input := by
  intro ts h
  obtain ⟨e, he⟩ := hp ts h
  refine ⟨e, ?_⟩
  rw [bind_eq, he]

theorem bind_right (hp : Takes s p input a rest) (hf : Rejects s (f a) rest) :
    Rejects s (p >>= f) input := by
  intro ts h
  obtain ⟨ts', h', hp⟩ := hp ts h
  obtain ⟨e, he⟩ := hf ts' h'
  refine ⟨e, ?_⟩
  rw [bind_eq, hp, ← he]

theorem ite_true {c : Bool} {p q : Parser α} (hc : c = true) (h : Rejects s p input) :
    Rejects s (if c then p else q) input := by rwa [if_pos hc]

theorem ite_false {c : Bool} {p q : Parser α} (hc : c = false) (h : Rejects s q input) :
    Rejects s (if c then p else q) input := by rwa [hc, if_neg (by decide)]

theorem reject (c : Rejection) (input : List Lexeme) :
    Rejects s (Grammar.reject c : Parser α) input := fun _ _ => ⟨_, rfl⟩

end Rejects

/-! ### Tests -/

theorem takes_dialect (input : List Lexeme) : Takes s dialect input s.dialect input :=
  fun ts h => ⟨ts, h, rfl⟩

theorem takes_setting (input : List Lexeme) : Takes s setting input s input :=
  fun ts h => ⟨ts, h, rfl⟩

theorem takes_atEnd (input : List Lexeme) : Takes s atEnd input input.isEmpty input := by
  intro ts h
  refine ⟨ts, h, ?_⟩
  rw [← h, List.isEmpty_map]
  rfl

variable (he : s.Ends)

include he

theorem takes_atKeyword (k : String) (input : List Lexeme) :
    Takes s (atKeyword k) input ((ahead 0 input).isKeyword k) input :=
  .current he fun t ht => by
    rw [← ht]
    exact .pure _ _

theorem takes_atAnyKeyword (ks : List String) (input : List Lexeme) :
    Takes s (atAnyKeyword ks) input (ks.any (ahead 0 input).isKeyword) input :=
  .current he fun t ht => by
    rw [← ht]
    exact .pure _ _

theorem takes_atWord (w : String) (input : List Lexeme) :
    Takes s (atWord w) input ((ahead 0 input).isWord w) input :=
  .current he fun t ht => by
    rw [← ht]
    exact .pure _ _

theorem takes_atPunctuator (p : String) (input : List Lexeme) :
    Takes s (atPunctuator p) input ((ahead 0 input).isPunctuator p) input :=
  .current he fun t ht => by
    rw [← ht]
    exact .pure _ _

theorem takes_nextIsOpenParen (input : List Lexeme) :
    Takes s nextIsOpenParen input ((ahead 1 input).isPunctuator "(") input :=
  .peekAt he 1 fun t ht => by
    rw [← ht]
    exact .pure _ _

/-! ### Single tokens -/

omit he in
theorem takes_advance (l : Lexeme) (rest : List Lexeme) :
    Takes s advance (l :: rest) l.literal rest := by
  rintro (_ | ⟨t, ts⟩) h
  · cases h
  · obtain ⟨rfl, hrest⟩ := List.cons.inj h
    exact ⟨ts, hrest, rfl⟩

omit he in
theorem takes_eatIf_true (l : Lexeme) (rest : List Lexeme) :
    Takes s (eatIf true) (l :: rest) (some l.literal) rest :=
  .ite_true rfl ((takes_advance l rest).bind (.pure _ _))

omit he in
theorem takes_eatIf_false (input : List Lexeme) : Takes s (eatIf false) input none input :=
  .ite_false rfl (.pure _ _)

theorem takes_eatKeyword {l : Lexeme} {k : String} (h : l.isKeyword k = true)
    (rest : List Lexeme) : Takes s (eatKeyword k) (l :: rest) (some l.literal) rest :=
  (takes_atKeyword he k _).bind (by rw [Lexeme.ahead_zero, h]; exact takes_eatIf_true l rest)

theorem takes_eatKeyword_none {k : String} (h : (ahead 0 input).isKeyword k = false) :
    Takes s (eatKeyword k) input none input :=
  (takes_atKeyword he k _).bind (by rw [h]; exact takes_eatIf_false input)

theorem takes_eatWord {l : Lexeme} {w : String} (h : l.isWord w = true) (rest : List Lexeme) :
    Takes s (eatWord w) (l :: rest) (some l.literal) rest :=
  (takes_atWord he w _).bind (by rw [Lexeme.ahead_zero, h]; exact takes_eatIf_true l rest)

theorem takes_eatWord_none {w : String} (h : (ahead 0 input).isWord w = false) :
    Takes s (eatWord w) input none input :=
  (takes_atWord he w _).bind (by rw [h]; exact takes_eatIf_false input)

theorem takes_eatPunctuator {l : Lexeme} {p : String} (h : l.isPunctuator p = true)
    (rest : List Lexeme) : Takes s (eatPunctuator p) (l :: rest) true rest :=
  (takes_atPunctuator he p _).bind <|
    Takes.bind (by rw [Lexeme.ahead_zero, h]; exact takes_eatIf_true l rest) (.pure _ _)

theorem takes_eatPunctuator_false {p : String} (h : (ahead 0 input).isPunctuator p = false) :
    Takes s (eatPunctuator p) input false input :=
  (takes_atPunctuator he p _).bind <|
    Takes.bind (by rw [h]; exact takes_eatIf_false input) (.pure _ _)

theorem takes_eatAnyKeyword {l : Lexeme} {ks : List String} (h : ks.any l.isKeyword = true)
    (rest : List Lexeme) : Takes s (eatAnyKeyword ks) (l :: rest) (some l.literal) rest := by
  induction ks with
  | nil => cases h
  | cons k ks ih =>
    cases hk : l.isKeyword k with
    | true => exact (takes_eatKeyword he hk rest).bind (.pure _ _)
    | false =>
      rw [List.any_cons, hk, Bool.false_or] at h
      exact (takes_eatKeyword_none he (show (ahead 0 (l :: rest)).isKeyword k = false from hk)).bind (ih h)

theorem takes_eatAnyKeyword_none {ks : List String}
    (h : ∀ k ∈ ks, (ahead 0 input).isKeyword k = false) :
    Takes s (eatAnyKeyword ks) input none input := by
  induction ks with
  | nil => exact .pure _ _
  | cons k ks ih =>
    obtain ⟨hk, hks⟩ := List.forall_mem_cons.1 h
    exact (takes_eatKeyword_none he hk).bind (ih hks)

theorem takes_eatAnyWord {l : Lexeme} {ws : List String} (h : ws.any l.isWord = true)
    (rest : List Lexeme) : Takes s (eatAnyWord ws) (l :: rest) (some l.literal) rest := by
  induction ws with
  | nil => cases h
  | cons w ws ih =>
    cases hw : l.isWord w with
    | true => exact (takes_eatWord he hw rest).bind (.pure _ _)
    | false =>
      rw [List.any_cons, hw, Bool.false_or] at h
      exact (takes_eatWord_none he (show (ahead 0 (l :: rest)).isWord w = false from hw)).bind (ih h)

theorem takes_expectKeyword {l : Lexeme} {k : String} (h : l.isKeyword k = true)
    (rest : List Lexeme) : Takes s (expectKeyword k) (l :: rest) l.literal rest :=
  (takes_eatKeyword he h rest).bind (.pure _ _)

theorem takes_expectPunctuator {l : Lexeme} {p : String} (h : l.isPunctuator p = true)
    (rest : List Lexeme) : Takes s (expectPunctuator p) (l :: rest) () rest :=
  (takes_eatPunctuator he h rest).bind (.ite_true rfl (.pure _ _))

theorem takes_expectName {l : Lexeme} (h : l.isAnyWord = true) (rest : List Lexeme) :
    Takes s expectName (l :: rest) l.literal rest :=
  .current he fun t ht => .ite_true (by rw [Lexeme.ahead_zero] at ht; rw [← ht] at h; exact h)
    (takes_advance l rest)

/-! ### Repetition -/

omit he in
theorem length_le_flatMap {γ δ : Type} {lexemes : γ → List δ} {xs : List γ}
    (h : ∀ x ∈ xs, lexemes x ≠ []) : xs.length ≤ (xs.flatMap lexemes).length := by
  induction xs with
  | nil => simp
  | cons x xs ih =>
    obtain ⟨hx, hxs⟩ := List.forall_mem_cons.1 h
    have := List.length_pos_iff.2 hx
    have := ih hxs
    simp only [List.flatMap_cons, List.length_append, List.length_cons]
    omega

theorem takes_commaTail_nil {item : Parser α}
    (hend : (ahead 0 rest).isPunctuator "," = false) (n : Nat) :
    Takes s (commaTail item n) rest [] rest := by
  cases n with
  | zero => exact .pure _ _
  | succ n => exact (takes_eatPunctuator_false he hend).bind (.ite_false rfl (.pure _ _))

section Lists

-- Items of a list, each of which is taken in front of whatever `follows` allows.
variable {γ : Type} {item : Parser α} {lexemes : γ → List Lexeme} {value : γ → α}
  (follows : List Lexeme → Prop)

theorem takes_commaTail {xs : List γ}
    (hitem : ∀ x ∈ xs, ∀ rest, follows rest → Takes s item (lexemes x ++ rest) (value x) rest)
    (hcomma : ∀ rest, follows (.punctuator "," :: rest)) (hrest : follows rest)
    (hend : (ahead 0 rest).isPunctuator "," = false) {n : Nat} (hn : xs.length ≤ n) :
    Takes s (commaTail item n) ((xs.flatMap fun x => .punctuator "," :: lexemes x) ++ rest)
      (xs.map value) rest := by
  induction xs generalizing n with
  | nil => exact takes_commaTail_nil he hend n
  | cons x xs ih =>
    obtain ⟨n, rfl⟩ : ∃ k, n = k + 1 := ⟨n - 1, by simp at hn; omega⟩
    have hrun := ih (fun x hx => hitem x (by simp [hx])) (n := n) (by simpa using hn)
    have hfollows : follows ((xs.flatMap fun x => .punctuator "," :: lexemes x) ++ rest) := by
      cases xs with
      | nil => exact hrest
      | cons y ys => exact hcomma _
    rw [List.flatMap_cons, List.append_assoc, List.cons_append]
    refine (takes_eatPunctuator he (by decide) _).bind (.ite_true rfl ?_)
    exact (hitem x (by simp) _ hfollows).bind (hrun.bind (.pure _ _))

theorem takes_commaList {x : γ} {xs : List γ}
    (hitem : ∀ y ∈ x :: xs, ∀ rest, follows rest → Takes s item (lexemes y ++ rest) (value y) rest)
    (hcomma : ∀ rest, follows (.punctuator "," :: rest)) (hrest : follows rest)
    (hend : (ahead 0 rest).isPunctuator "," = false) :
    Takes s (commaList item) (Lexeme.commaed lexemes x xs ++ rest) ((x :: xs).map value) rest := by
  have hfollows : follows ((xs.flatMap fun x => .punctuator "," :: lexemes x) ++ rest) := by
    cases xs with
    | nil => exact hrest
    | cons y ys => exact hcomma _
  have hlength : xs.length ≤ (xs.flatMap fun y => .punctuator "," :: lexemes y).length :=
    length_le_flatMap fun _ _ => List.cons_ne_nil _ _
  rw [Lexeme.commaed, List.append_assoc]
  refine (hitem x (by simp) _ hfollows).bind (Takes.bind (.bounded ?_) (.pure _ _))
  refine takes_commaTail he follows (fun y hy => hitem y (by simp [hy])) hcomma hrest hend ?_
  rw [List.length_append]
  omega

omit he in
theorem takes_itemsWhile_nil {test : Parser Bool} (hend : Takes s test rest false rest) (n : Nat) :
    Takes s (itemsWhile test item n) rest [] rest := by
  cases n with
  | zero => exact .pure _ _
  | succ n => exact hend.bind (.ite_false rfl (.pure _ _))

omit he in
theorem takes_itemsWhile_cons {test : Parser Bool} {as : List α} {n : Nat}
    (htest : Takes s test input true input) (hitem : Takes s item input a rest)
    (hrest : Takes s (itemsWhile test item n) rest as behind) :
    Takes s (itemsWhile test item (n + 1)) input (a :: as) behind :=
  htest.bind (.ite_true rfl (hitem.bind (hrest.bind (.pure _ _))))

omit he in
theorem takes_itemsWhile {test : Parser Bool} {xs : List γ}
    (htest : ∀ x ∈ xs, ∀ rest, Takes s test (lexemes x ++ rest) true (lexemes x ++ rest))
    (hitem : ∀ x ∈ xs, ∀ rest, follows rest → Takes s item (lexemes x ++ rest) (value x) rest)
    (hnext : ∀ x ∈ xs, ∀ rest, follows (lexemes x ++ rest)) (hrest : follows rest)
    (hend : Takes s test rest false rest) {n : Nat} (hn : xs.length ≤ n) :
    Takes s (itemsWhile test item n) (xs.flatMap lexemes ++ rest) (xs.map value) rest := by
  induction xs generalizing n with
  | nil => exact takes_itemsWhile_nil hend n
  | cons x xs ih =>
    obtain ⟨n, rfl⟩ : ∃ k, n = k + 1 := ⟨n - 1, by simp at hn; omega⟩
    have hrun := ih (fun x hx => htest x (by simp [hx])) (fun x hx => hitem x (by simp [hx]))
      (fun x hx => hnext x (by simp [hx])) (n := n) (by simpa using hn)
    have hfollows : follows (xs.flatMap lexemes ++ rest) := by
      cases xs with
      | nil => exact hrest
      | cons y ys =>
        rw [List.flatMap_cons, List.append_assoc]
        exact hnext y (by simp) _
    rw [List.flatMap_cons, List.append_assoc]
    exact takes_itemsWhile_cons (htest x (by simp) _) (hitem x (by simp) _ hfollows) hrun

omit he in
theorem takes_manyWhile {test : Parser Bool} {xs : List γ}
    (htest : ∀ x ∈ xs, ∀ rest, Takes s test (lexemes x ++ rest) true (lexemes x ++ rest))
    (hitem : ∀ x ∈ xs, ∀ rest, follows rest → Takes s item (lexemes x ++ rest) (value x) rest)
    (hnext : ∀ x ∈ xs, ∀ rest, follows (lexemes x ++ rest)) (hrest : follows rest)
    (hend : Takes s test rest false rest) (hne : ∀ x ∈ xs, lexemes x ≠ []) :
    Takes s (manyWhile test item) (xs.flatMap lexemes ++ rest) (xs.map value) rest := by
  refine .bounded (takes_itemsWhile follows htest hitem hnext hrest hend ?_)
  have := length_le_flatMap hne
  rw [List.length_append]
  omega

end Lists

/-! ### Names -/

/-- No path goes on here. -/
def EndsPath (rest : List Lexeme) : Prop := (ahead 0 rest).isPunctuator "." = false

theorem takes_pathSteps (names : List String) (hrest : EndsPath rest) :
    Takes s pathSteps ((names.flatMap fun n => [Lexeme.punctuator ".", .word n]) ++ rest) names rest := by
  have hstep (input : List Lexeme) :
      Takes s atPathStep input ((ahead 0 input).isPunctuator "." && (ahead 1 input).isAnyWord)
        input := by
    refine .current he fun t ht => .peekAt he 1 fun next hnext => ?_
    rw [← ht, ← hnext]
    exact .pure _ _
  have hend : Takes s atPathStep rest false rest := by
    have := hstep rest
    rwa [hrest] at this
  have hitem (n : String) (rest : List Lexeme) :
      Takes s (advance >>= fun _ => advance) ([Lexeme.punctuator ".", .word n] ++ rest) n rest :=
    (takes_advance (.punctuator ".") _).bind (takes_advance (.word n) rest)
  have htest (n : String) (rest : List Lexeme) : Takes s atPathStep
      ([Lexeme.punctuator ".", .word n] ++ rest) true ([Lexeme.punctuator ".", .word n] ++ rest) := by
    have hnext : (ahead 1 ([Lexeme.punctuator ".", .word n] ++ rest)).isAnyWord = true :=
      Lexeme.isAnyWord_word n
    have := hstep ([Lexeme.punctuator ".", .word n] ++ rest)
    rwa [hnext] at this
  have hrun := takes_manyWhile (fun _ => True) (fun n (_ : n ∈ names) => htest n)
    (fun n _ rest _ => hitem n rest) (fun _ _ _ => trivial) trivial hend
    (fun _ _ => List.cons_ne_nil _ _)
  rwa [List.map_id'] at hrun

end Grammar

end Jpql
