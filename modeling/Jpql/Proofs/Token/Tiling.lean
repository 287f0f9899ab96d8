import Jpql.Proofs.Token.Lexing
import Mathlib.Data.List.Chain

/-! Where tokens stand. Each token but the last has its characters at its offset; tokens follow one
another, with nothing but blanks and comments before, between and behind them; and lines and columns
count the line breaks in front of a token. The last token is the end of the text. Scanning keeps to
this token by token: a gap is skipped, a token is scanned, and the rest is tiled behind both. -/

namespace Jpql

/-- The characters of a text between two offsets. -/
def slice (text : List Char) (start stop : Nat) : List Char := (text.drop start).take (stop - start)

theorem slice_append (front cs behind : List Char) :
    slice (front ++ (cs ++ behind)) front.length (front.length + cs.length) = cs := by
  simp [slice]

def Token.start (t : Token) : Nat := t.position.offset

def Token.stop (t : Token) : Nat := t.position.offset + t.literal.length

/-! ### Places -/

namespace Position

/-- The place behind the front of a text: its characters, its line breaks, and the characters behind
the last of these. -/
def behind (front : List Char) : Position :=
  ⟨front.length, 1 + front.count '\n', (front.reverse.takeWhile (· != '\n')).length⟩

theorem behind_concat (front : List Char) (c : Char) :
    behind (front ++ [c]) = (behind front).next c := by
  by_cases hc : c = '\n'
  · subst hc
    simp [behind, next, Nat.add_assoc]
  · simp [behind, next, hc]

theorem advance_behind (front cs : List Char) : (behind front).advance cs = behind (front ++ cs) := by
  induction cs generalizing front with
  | nil => rw [List.append_nil]; rfl
  | cons c cs ih =>
    rw [advance, List.foldl_cons, ← advance, ← behind_concat, ih, List.append_assoc]
    rfl

end Position

namespace Lexer

/-! ### Gaps -/

/-- Blanks and comments. A line comment goes through the next line break, a block comment through the
next `*/`. At the end of a text either may be left open. -/
inductive Filler : (atEnd : Bool) → List Char → Prop
  | nil {atEnd : Bool} : Filler atEnd []
  | blank {atEnd : Bool} {c : Char} {cs : List Char} (hc : Text.isBlank c = true)
      (h : Filler atEnd cs) : Filler atEnd (c :: cs)
  | lineComment {atEnd : Bool} {body cs : List Char} (hbody : '\n' ∉ body) (h : Filler atEnd cs) :
      Filler atEnd ('-' :: '-' :: (body ++ '\n' :: cs))
  | blockComment {atEnd : Bool} {body cs : List Char} (hbody : ¬ ['*', '/'] <:+: body)
      (h : Filler atEnd cs) : Filler atEnd ('/' :: '*' :: (body ++ '*' :: '/' :: cs))
  | openLine {body : List Char} (hbody : '\n' ∉ body) : Filler true ('-' :: '-' :: body)
  | openBlock {body : List Char} (hbody : ¬ ['*', '/'] <:+: body) : Filler true ('/' :: '*' :: body)

variable {atEnd : Bool} {c : Char} {cs : List Char}

theorem Filler.line_cons (h : Filler atEnd ('-' :: '-' :: cs)) (hc : c ≠ '\n') :
    Filler atEnd ('-' :: '-' :: c :: cs) := by
  have hmem {body : List Char} (hbody : '\n' ∉ body) : '\n' ∉ c :: body :=
    List.not_mem_cons_of_ne_of_not_mem hc.symm hbody
  cases h with
  | blank hblank => exact absurd hblank (by decide)
  | lineComment hbody h => exact .lineComment (hmem hbody) h
  | openLine hbody => exact .openLine (hmem hbody)

theorem Filler.block_cons (h : Filler atEnd ('/' :: '*' :: cs)) (hc : c = '*' → cs.head? ≠ some '/') :
    Filler atEnd ('/' :: '*' :: c :: cs) := by
  have hends {body : List Char} (hbody : ¬ ['*', '/'] <:+: body)
      (hhead : c = '*' → body.head? ≠ some '/') : ¬ ['*', '/'] <:+: c :: body := by
    rw [List.infix_cons_iff]
    rintro (⟨rest, hrest⟩ | hends)
    · obtain ⟨rfl, rfl⟩ := List.cons.inj hrest
      exact hhead rfl rfl
    · exact hbody hends
  cases h with
  | blank hblank => exact absurd hblank (by decide)
  | @blockComment _ body _ hbody h =>
    refine .blockComment (hends hbody fun hstar hhead => hc hstar ?_) h
    cases body with
    | nil => cases hhead
    | cons d body => exact hhead
  | openBlock hbody => exact .openBlock (hends hbody hc)

/-- What has been read of a comment where its body starts. -/
def Gap.opening : Gap → List Char
  | .blank => []
  | .lineComment => ['-', '-']
  | .blockComment => ['/', '*']

/-- A skipped gap is filler; it leaves a comment open only if it takes all that is left. -/
theorem skip_filler (gap : Gap) (cs : List Char) :
    Filler (skip gap cs).2.isEmpty (gap.opening ++ (skip gap cs).1) := by
  fun_induction skip gap cs with
  | case1 gap =>
    cases gap with
    | blank => exact .nil
    | lineComment => exact .openLine (List.not_mem_nil)
    | blockComment => exact .openBlock (by simp)
  | case2 cs gap rest hskip ih => rwa [hskip] at ih
  | case3 cs gap rest hskip ih => rwa [hskip] at ih
  | case4 c cs _ _ hc gap rest hskip ih =>
    rw [hskip] at ih
    exact .blank hc ih
  | case5 => exact .nil
  | case6 c cs gap rest hskip ih =>
    rw [hskip] at ih
    by_cases hc : c = '\n'
    · rw [hc] at ih ⊢
      exact .lineComment List.not_mem_nil ih
    · have hcomment : (c == '\n') = false := by simpa using hc
      rw [hcomment] at ih
      exact ih.line_cons hc
  | case7 cs gap rest hskip ih =>
    rw [hskip] at ih
    exact .blockComment (by simp) ih
  | case8 c cs hclose gap rest hskip ih =>
    -- the gap is a front of the text, so the comment is not closed here either
    have hfront := skip_append .blockComment cs
    rw [hskip] at ih hfront
    refine ih.block_cons fun hc hhead => ?_
    obtain ⟨gap, rfl⟩ := List.head?_eq_some_iff.1 hhead
    exact hclose (gap ++ rest) hc hfront.symm

/-! ### Tokens -/

theorem scan_kind (c : Char) (cs : List Char) : (scan c cs).1 ≠ .eof := by
  unfold scan number
  repeat' split
  all_goals dsimp only
  all_goals (try split) <;> exact TokenKind.noConfusion

/-- The tokens stand in the text from an offset on. -/
structure Tiling (text : List Char) (offset : Nat) (ts : List Token) : Prop where
  /-- The last token is the end of the text, and no other is. -/
  ends : ∃ (body : List Token) (last : Token), ts = body ++ [last] ∧ last.kind = .eof ∧
    last.literal = "" ∧ last.start = text.length ∧ ∀ t ∈ body, t.kind ≠ .eof
  literal : ∀ t ∈ ts, t.kind ≠ .eof →
    t.literal ≠ "" ∧ slice text t.start t.stop = t.literal.toList
  behind : ∀ t ∈ ts, offset ≤ t.start
  ordered : ts.Pairwise fun t u => t.start < u.start ∧ t.stop ≤ u.start
  front : ∀ t ∈ ts.head?, Filler (t.kind == .eof) (slice text offset t.start)
  gaps : ts.IsChain fun t u => Filler (u.kind == .eof) (slice text t.stop u.start)
  lines : ∀ t ∈ ts, t.position.line = 1 + (text.take t.start).count '\n'
  columns : ∀ t ∈ ts,
    t.position.column = ((text.take t.start).reverse.takeWhile (· != '\n')).length

variable {front gap literal rest : List Char} {kind : TokenKind} {ts : List Token}

theorem Tiling.done (hgap : Filler true gap) :
    Tiling (front ++ gap) front.length [⟨.eof, "", .behind (front ++ gap)⟩] where
  ends := ⟨[], _, rfl, rfl, rfl, rfl, by simp⟩
  literal := by simp
  behind := by simp [Token.start, Position.behind]
  ordered := List.pairwise_singleton _ _
  front := by
    have hslice := slice_append front gap []
    rw [List.append_nil] at hslice
    simpa [Token.start, Position.behind, hslice] using hgap
  gaps := .singleton _
  lines := by
    simp only [List.forall_mem_singleton, Token.start, Position.behind, List.take_length]
  columns := by
    simp only [List.forall_mem_singleton, Token.start, Position.behind, List.take_length]

theorem Tiling.token
    (h : Tiling (front ++ (gap ++ (literal ++ rest))) (front ++ (gap ++ literal)).length ts)
    (hgap : Filler false gap) (hkind : kind ≠ .eof) (hliteral : literal ≠ []) :
    Tiling (front ++ (gap ++ (literal ++ rest))) front.length
      (⟨kind, String.ofList literal, .behind (front ++ gap)⟩ :: ts) := by
  have hpos := List.length_pos_iff.2 hliteral
  have hstart : Token.start ⟨kind, String.ofList literal, .behind (front ++ gap)⟩ =
      (front ++ gap).length := rfl
  have hstop : Token.stop ⟨kind, String.ofList literal, .behind (front ++ gap)⟩ =
      (front ++ (gap ++ literal)).length := by
    simp [Token.stop, Position.behind, Nat.add_assoc]
  have htake : (front ++ (gap ++ (literal ++ rest))).take (front ++ gap).length = front ++ gap := by
    rw [← List.append_assoc, List.take_left]
  constructor
  · obtain ⟨body, last, rfl, heof, hempty, hlast, hbody⟩ := h.ends
    exact ⟨_ :: body, last, rfl, heof, hempty, hlast, List.forall_mem_cons.2 ⟨hkind, hbody⟩⟩
  · refine List.forall_mem_cons.2 ⟨fun _ => ⟨by simpa using hliteral, ?_⟩, h.literal⟩
    have hslice := slice_append (front ++ gap) literal rest
    rw [hstart, hstop]
    simpa [Nat.add_assoc] using hslice
  · refine List.forall_mem_cons.2 ⟨by simp [hstart], fun t ht => ?_⟩
    have := h.behind t ht
    simp only [List.length_append] at this
    omega
  · refine List.pairwise_cons.2 ⟨fun t ht => ?_, h.ordered⟩
    have := h.behind t ht
    rw [hstart, hstop]
    simp only [List.length_append] at this ⊢
    omega
  · have hslice := slice_append front gap (literal ++ rest)
    have hnot : (kind == TokenKind.eof) = false := by simpa using hkind
    simpa [hstart, hslice, hnot] using hgap
  · refine List.isChain_cons.2 ⟨fun t ht => ?_, h.gaps⟩
    rw [hstop]
    exact h.front t ht
  · refine List.forall_mem_cons.2 ⟨?_, h.lines⟩
    rw [hstart, htake]
    rfl
  · refine List.forall_mem_cons.2 ⟨?_, h.columns⟩
    rw [hstart, htake]
    rfl

/-- Each token is scanned behind the gap in front of it, and the rest is read behind both. -/
theorem tiling_tokensFrom {fuel : Nat} {front cs : List Char} (h : cs.length ≤ fuel) :
    Tiling (front ++ cs) front.length (tokensFrom fuel (.behind front) cs) := by
  induction fuel generalizing front cs with
  | zero =>
    obtain rfl : cs = [] := List.length_eq_zero_iff.1 (Nat.le_zero.1 h)
    rw [tokensFrom_end rfl, Position.advance_behind]
    exact .done .nil
  | succ fuel ih =>
    have hgap : Filler (skip .blank cs).2.isEmpty (skip .blank cs).1 := skip_filler .blank cs
    have hcs := skip_append .blank cs
    cases hrest : (skip .blank cs).2 with
    | nil =>
      rw [tokensFrom_end hrest, Position.advance_behind]
      rw [hrest] at hgap hcs
      rw [List.append_nil] at hcs
      rw [hcs] at hgap ⊢
      exact .done hgap
    | cons c ds =>
      rw [tokensFrom_token hrest, Position.advance_behind, Position.advance_behind,
        List.append_assoc]
      rw [hrest] at hgap hcs
      rw [← scan_append c ds] at hcs
      have hbehind : (scan c ds).2.2.length ≤ fuel := by
        have hskip := length_skip .blank cs
        have := length_scan c ds
        rw [hrest, List.length_cons] at hskip
        omega
      have htiles := @ih (front ++ ((skip .blank cs).1 ++ (scan c ds).2.1)) _ hbehind
      have htext : front ++ ((skip .blank cs).1 ++ (scan c ds).2.1) ++ (scan c ds).2.2 =
          front ++ ((skip .blank cs).1 ++ ((scan c ds).2.1 ++ (scan c ds).2.2)) := by
        simp only [List.append_assoc]
      rw [htext] at htiles
      have htoken := htiles.token hgap (scan_kind c ds) (scan_ne_nil c ds)
      rwa [hcs] at htoken

end Lexer

theorem tokenize_tiles (text : String) : Lexer.Tiling text.toList 0 (tokenize text) :=
  @Lexer.tiling_tokensFrom _ [] _ (Nat.le_of_eq String.length_toList)

end Jpql
