import Jpql.Proofs.Token.Lexing
import Jpql.Text.CaseMapping
import Mathlib

/-! What a character in lower case is: itself, a character that lower case leaves alone, or for the
one capital with a dot an `i` and the dot. A character that another one becomes is no capital of
ASCII and no separator. -/

namespace Jpql.Text

namespace CaseRun

/-- The code point that a run maps another one to. -/
def target (r : CaseRun) (n : Nat) : Nat := (n + r.shift).toNat

/-- Whether what the first run maps to is not covered by the second one: it stands before or behind
all of that run, or in its gaps. -/
def avoids (r s : CaseRun) : Bool :=
  Nat.blt s.last (r.target r.first) || Nat.blt (r.target r.last) s.first ||
    (s.step == 2 && (r.step == 2 || r.first == r.last) && r.target r.first % 2 != s.first % 2)

theorem covers_iff {r : CaseRun} {n : Nat} :
    r.covers n = true ↔ r.first ≤ n ∧ n ≤ r.last ∧ (n - r.first) % r.step = 0 := by
  simp [covers, and_assoc]

theorem not_covers_target {r s : CaseRun} (hr : 0 < r.target r.first) (h : r.avoids s = true) {n : Nat}
    (hn : r.covers n = true) : s.covers (r.target n) = false := by
  obtain ⟨hfirst, hlast, hstep⟩ := covers_iff.1 hn
  rw [← Bool.not_eq_true, covers_iff]
  rintro ⟨hfirst', hlast', hstep'⟩
  simp only [avoids, Bool.or_eq_true, Bool.and_eq_true, Nat.blt_eq, beq_iff_eq, bne_iff_ne] at h
  unfold target at *
  rcases h with (h | h) | ⟨⟨hs, hr'⟩, hparity⟩
  · omega
  · omega
  · rw [hs] at hstep'
    rcases hr' with hr' | hr'
    · rw [hr'] at hstep
      omega
    · omega

end CaseRun

/-- What lower case changes beyond ASCII: the runs, and the capital with a dot. -/
def changedRuns : List CaseRun := ⟨304, 304, 1, 0⟩ :: lowerRuns

/-- A run in lower case maps to characters behind the capitals of ASCII, which are not changed
again. -/
theorem lowerRuns_settle : ∀ r ∈ lowerRuns, 95 < r.target r.first ∧
    (r.target r.last < 0xD800 ∨ 0xDFFF < r.target r.first ∧ r.target r.last < 0x110000) ∧
    changedRuns.all r.avoids = true := by
  decide +kernel

theorem lowerOf_settled {d : Char} (hbehind : 95 < d.toNat)
    (h : isAscii d = true ∨ ∀ r ∈ changedRuns, r.covers d.toNat = false) : lowerOf d = [d] := by
  unfold lowerOf
  split
  next hascii =>
    have hall : ∀ n ∈ List.range' 96 32, [(Char.ofNat n).toLower] = [Char.ofNat n] := by
      decide +kernel
    have hhigh : d.toNat < 128 := by simpa [isAscii] using hascii
    exact Lexer.forall_char_range (fun d => [d.toLower] = [d]) 96 32 hall hbehind hhigh
  next hascii =>
    obtain ⟨hspecial, hruns⟩ := List.forall_mem_cons.1 (h.resolve_left hascii)
    have hspecial : (d.toNat == 304) = false := by
      rw [beq_eq_false_iff_ne]
      intro heq
      rw [heq] at hspecial
      cases hspecial
    have hlookup : lowerSpecial.lookup d.toNat = none := by
      rw [lowerSpecial, List.lookup, hspecial, List.lookup]
    have hfind : lowerRuns.find? (·.covers d.toNat) = none := by
      rw [List.find?_eq_none]
      exact fun r hr => Bool.not_eq_true _ ▸ hruns r hr
    rw [mapCase, hlookup, hfind]

/-- What a character becomes in lower case. -/
theorem lowerOf_cases (c : Char) :
    lowerOf c = [c] ∨ (∃ d, lowerOf c = [d] ∧ lowerOf d = [d] ∧ 95 < d.toNat) ∨
      lowerOf c = ['i', '\u0307'] := by
  by_cases hascii : isAscii c = true
  · have hall : ∀ n ∈ List.range' 0 128, (Char.ofNat n).toLower = Char.ofNat n ∨
        95 < (Char.ofNat n).toLower.toNat ∧ isAscii (Char.ofNat n).toLower = true := by
      decide +kernel
    have hhigh : c.toNat < 0 + 128 := by simpa [isAscii] using hascii
    rw [lowerOf, if_pos hascii]
    rcases Lexer.forall_char_range (fun c => c.toLower = c ∨ 95 < c.toLower.toNat ∧
      isAscii c.toLower = true) 0 128 hall (Nat.zero_le _) hhigh with hsame | ⟨hbehind, hlower⟩
    · exact .inl (by rw [hsame])
    · exact .inr (.inl ⟨c.toLower, rfl, lowerOf_settled hbehind (.inl hlower), hbehind⟩)
  · rw [lowerOf, if_neg hascii, mapCase]
    cases hlookup : lowerSpecial.lookup c.toNat with
    | some codes =>
      rw [lowerSpecial, List.lookup] at hlookup
      split at hlookup
      next =>
        obtain rfl := Option.some.inj hlookup
        exact .inr (.inr rfl)
      next => cases hlookup
    | none =>
      cases hfind : lowerRuns.find? (·.covers c.toNat) with
      | none => exact .inl rfl
      | some r =>
        obtain ⟨hbehind, hvalid, havoids⟩ := lowerRuns_settle r (List.mem_of_find?_eq_some hfind)
        have hcovers : r.covers c.toNat = true := by simpa using List.find?_some hfind
        obtain ⟨hfirst, hlast, -⟩ := CaseRun.covers_iff.1 hcovers
        obtain ⟨hlow, hhigh⟩ : r.target r.first ≤ r.target c.toNat ∧
            r.target c.toNat ≤ r.target r.last := by
          unfold CaseRun.target
          omega
        have htoNat : (Char.ofNat (r.target c.toNat)).toNat = r.target c.toNat := by
          rw [Char.toNat_ofNat, if_pos]
          unfold Nat.isValidChar
          omega
        refine .inr (.inl ⟨_, rfl, lowerOf_settled ?_ (.inr fun s hs => ?_), ?_⟩)
        · change 95 < (Char.ofNat (r.target c.toNat)).toNat
          omega
        · change s.covers (Char.ofNat (r.target c.toNat)).toNat = false
          rw [htoNat]
          exact CaseRun.not_covers_target (by omega) (List.all_eq_true.1 havoids s hs) hcovers
        · change 95 < (Char.ofNat (r.target c.toNat)).toNat
          omega

/-- What a character becomes that lower case changes. -/
theorem lt_of_mem_lowerOf {c : Char} (h : lowerOf c ≠ [c]) : ∀ d ∈ lowerOf c, 95 < d.toNat := by
  rcases lowerOf_cases c with heq | ⟨d, heq, -, hd⟩ | heq
  · exact absurd heq h
  · rw [heq]
    simpa using hd
  · rw [heq]
    simp

end Jpql.Text
