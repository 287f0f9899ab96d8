import Jpql.Proofs.Grammar.Comparison

/-! Fast and backtracking parses compared. A parser is settled when its fast run either stays
undecided or does the same as its backtracking run, and its backtracking run always decides. Sequences
of settled parsers are settled, and so by induction on the depth of the rules is the whole grammar. -/

namespace Jpql.Grammar

open Jpql.Grammar.Parser
open Comparison

variable {α : Type}

/-- The setting of a parse that goes over to another mode. -/
def Setting.inMode (s : Setting) (m : Mode) : Setting := { s with mode := m }

structure Settled (p : Parser α) : Prop where
  fast (s : Setting) (ts : List Token) : p (s.inMode .fast) ts = .error .undecided ∨
    p (s.inMode .fast) ts = p (s.inMode .backtracking) ts
  decides (s : Setting) (ts : List Token) : p (s.inMode .backtracking) ts ≠ .error .undecided

/-- The outcomes of a fast run and of the backtracking run beside it. -/
def modes : Comparison where
  Dialects d e := d = e
  Modes m n := m = .fast ∧ n = .backtracking
  Rel x y := (x = .error .undecided ∨ x = y) ∧ y ≠ .error .undecided
  missingSelect := by rintro d _ rfl; rfl
  paging := by rintro d _ rfl; rfl
  accepts := by rintro d _ name rfl h; exact h
  rejects := by
    rintro d _ name rfl h h'
    rw [h] at h'
    cases h'
  same h := ⟨.inr rfl, h⟩
  andThen := by
    rintro α β x y f g ⟨hx, hy⟩ hfg
    rcases hx with rfl | rfl
    · refine ⟨.inl rfl, ?_⟩
      rcases y with e | ⟨a, rest⟩
      · simpa [Outcome.andThen] using hy
      · exact (hfg a rest).2
    · rcases x with e | ⟨a, rest⟩
      · exact ⟨.inr rfl, by simpa [Outcome.andThen] using hy⟩
      · exact hfg a rest

theorem settled_iff {p : Parser α} : Settled p ↔ modes.Keeps p := by
  constructor
  · rintro ⟨hfast, hdecides⟩ ⟨d, _, eof⟩ ⟨_, _, _⟩ ⟨rfl, rfl, rfl, rfl⟩ ts
    exact ⟨hfast ⟨d, .fast, eof⟩ ts, hdecides ⟨d, .fast, eof⟩ ts⟩
  · intro h
    have hpair (s : Setting) : modes.Pair (s.inMode .fast) (s.inMode .backtracking) :=
      ⟨rfl, rfl, rfl, rfl⟩
    exact ⟨fun s ts => (h (hpair s) ts).1, fun s ts => (h (hpair s) ts).2⟩

/-! ### Two opening parentheses -/

section Parentheses

variable {r : Rules}

/-- The one place where the modes part: there a fast parse is undecided, and a backtracking one has
an answer whatever the attempted query comes to. -/
theorem keeps_nestedQuery? : modes.Keeps (nestedQuery? r) := by
  refine keeps_nextIsOpenParen.bind fun next => ?_
  cases next with
  | false => exact .pure _
  | true =>
    rintro ⟨d, _, eof⟩ ⟨_, _, _⟩ ⟨rfl, rfl, rfl, rfl⟩ ts
    refine ⟨.inl rfl, ?_⟩
    show attempt (parenthesizedQuery r) ⟨d, .backtracking, eof⟩ ts ≠ _
    unfold attempt
    split
    · nofun
    · nofun

variable (hr : modes.KeepsRules r)

include hr

theorem keeps_parenthesized : modes.Keeps (parenthesized r) := by
  refine keeps_nestedQuery?.bind fun query => ?_
  cases query with
  | some query => exact .pure _
  | none => exact keeps_withoutQuery hr

theorem keeps_inTest (left : Expr) (words : String) : modes.Keeps (inTest r left words) := by
  refine (keeps_atPunctuator "(").bind fun _ =>
    .ite ((keeps_operand hr (keeps_parenthesized hr)).bind fun _ => .pure _) ?_
  refine keeps_nestedQuery?.bind fun query => ?_
  cases query with
  | some query => exact .pure _
  | none => exact keeps_listWithoutQuery hr left words

end Parentheses

/-! ### The grammar -/

theorem keepsRules_modes (n : Nat) : modes.KeepsRules (rules n) := by
  induction n with
  | zero => exact ⟨fun _ => keeps_noAlternative, keeps_noAlternative⟩
  | succ n ih =>
    exact ⟨keeps_expression ih (keeps_parenthesized ih) (keeps_inTest ih), keeps_selectStatement ih⟩

theorem settled_statement (n : Nat) : Settled (statement (rules n)) :=
  settled_iff.2 (keeps_statement (keepsRules_modes n))

theorem parseTokens_eq (tokens : List Token) (d : Dialect) (m : Mode) :
    parseTokens tokens d m =
      (statement (rules (tokens.length + 1))
        (Setting.inMode ⟨d, m, tokens.getLast?.getD ⟨.eof, "", {}⟩⟩ m) tokens.dropLast).map (·.1) := rfl

theorem parseTokens_fast (tokens : List Token) (d : Dialect) :
    parseTokens tokens d .fast = .error .undecided ∨
      parseTokens tokens d .fast = parseTokens tokens d .backtracking := by
  rw [parseTokens_eq, parseTokens_eq]
  rcases (settled_statement (tokens.length + 1)).fast ⟨d, .fast, _⟩ tokens.dropLast
    with h | h
  · exact .inl (by rw [h]; rfl)
  · exact .inr (congrArg (Except.map (·.1)) h)

theorem parseTokens_backtracking_ne (tokens : List Token) (d : Dialect) :
    parseTokens tokens d .backtracking ≠ .error .undecided := by
  rw [parseTokens_eq]
  intro h
  refine (settled_statement (tokens.length + 1)).decides
    ⟨d, .backtracking, tokens.getLast?.getD ⟨.eof, "", {}⟩⟩ tokens.dropLast ?_
  rcases hs : statement (rules (tokens.length + 1)) _ tokens.dropLast with e | a
  · rw [hs] at h
    simpa [Except.map] using h
  · rw [hs] at h
    simp [Except.map] at h

/-- Parsing comes to what backtracking alone would. -/
theorem parse_eq_backtracking (query : String) (d : Dialect) :
    parse query d = (parseTokens (tokenize query) d .backtracking).mapError
      (·.toError query d ((tokenize query).headD ⟨.eof, "", {}⟩)) := by
  unfold parse
  rcases parseTokens_fast (tokenize query) d with h | h
  · simp only [h]
  · simp only [h]
    split
    next hb => exact absurd hb (parseTokens_backtracking_ne _ d)
    next => rfl

/-- A fast parse that decides has the outcome of the backtracking parse, a statement or a rejection
alike; the backtracking parse always decides; so parsing comes to what backtracking alone would. -/
theorem fast_parse_exact (query : String) (d : Dialect) :
    (∀ s, parseTokens (tokenize query) d .fast = .ok s →
      parseTokens (tokenize query) d .backtracking = .ok s) ∧
    (∀ place cause, parseTokens (tokenize query) d .fast = .error (.rejected place cause) →
      parseTokens (tokenize query) d .backtracking = .error (.rejected place cause)) ∧
    parseTokens (tokenize query) d .backtracking ≠ .error .undecided ∧
    parse query d = (parseTokens (tokenize query) d .backtracking).mapError
      (·.toError query d ((tokenize query).headD ⟨.eof, "", {}⟩)) := by
  have hfast := parseTokens_fast (tokenize query) d
  refine ⟨fun s h => ?_, fun place cause h => ?_, parseTokens_backtracking_ne _ d,
    parse_eq_backtracking query d⟩
  · rw [h] at hfast
    exact (hfast.resolve_left nofun).symm
  · rw [h] at hfast
    exact (hfast.resolve_left nofun).symm

end Jpql.Grammar
