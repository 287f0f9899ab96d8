import Jpql.Proofs.Rendering.Building
import Jpql.Proofs.Token.Names
import Mathlib.Data.List.Forall2

/-! The lexemes of streams that are put together. A stream writes some lexemes if, behind whatever
text, it is written as a piece that spells them; so the stream can be followed by others. -/

namespace Jpql.Rendering

open Lexer (Spelled)

/-- The piece of text that a stream adds, whatever stands before it. -/
structure Adds (r : Rendering) (s : String) : Prop where
  ne_empty : s ≠ ""
  unspaced : endsWithSpace s = false
  renders : ∀ out, renderInto out r = out ++ s

/-- The stream adds a piece that spells the lexemes. -/
structure Writes (r : Rendering) (ls : List Lexeme) : Prop where
  toTokens : r.toTokens ≠ []
  piece : ∃ s, r.Adds s ∧ Spelled s.toList ls

theorem endsWithSpace_append (out : String) {s : String} (hs : s ≠ "") :
    endsWithSpace (out ++ s) = endsWithSpace s := by
  have hlist : s.toList ≠ [] := by simpa using hs
  obtain ⟨cs, c, hc⟩ := List.eq_nil_or_concat s.toList |>.resolve_left hlist
  simp [endsWithSpace, hc]

theorem spaceEnded_append (out : String) {s : String} (hs : s ≠ "")
    (h : endsWithSpace s = false) : spaceEnded (out ++ s) = out ++ s ++ " " := by
  rw [spaceEnded, endsWithSpace_append out hs, h]
  rfl

theorem Writes.lexes {r : Rendering} {ls : List Lexeme} (h : r.Writes ls) :
    Lexer.Lexes r.render.toList ls := by
  obtain ⟨s, hadds, hs⟩ := h.piece
  rw [render, hadds.renders, String.empty_append]
  exact hs.lexes

theorem writes_text {s : String} {ls : List Lexeme} (hne : s ≠ "") (hend : endsWithSpace s = false)
    (h : Spelled s.toList ls) : (text s).Writes ls :=
  ⟨by simp [text], s, ⟨hne, hend, fun out => renderInto_text out s⟩, h⟩

theorem writes_word {w : String} {ls : List Lexeme} (hne : w ≠ "") (hend : endsWithSpace w = false)
    (h : Spelled w.toList ls) : (word w).Writes ls :=
  ⟨by simp [word], w, ⟨hne, hend, fun out => renderInto_word out w⟩, h⟩

theorem Adds.unique {r : Rendering} {s t : String} (h : r.Adds s) (out : String)
    (ht : renderInto out r = out ++ t) : s = t := by
  have hsame := congrArg String.toList ((h.renders out).symm.trans ht)
  rw [String.toList_append, String.toList_append] at hsame
  exact String.toList_injective (List.append_cancel_left hsame)

theorem writes_text_iff {s : String} {ls : List Lexeme} : (text s).Writes ls ↔
    s ≠ "" ∧ endsWithSpace s = false ∧ Spelled s.toList ls := by
  refine ⟨fun ⟨_, t, hadds, ht⟩ => ?_, fun ⟨hne, hend, h⟩ => writes_text hne hend h⟩
  obtain rfl := hadds.unique "" (renderInto_text "" s)
  exact ⟨hadds.ne_empty, hadds.unspaced, ht⟩

theorem writes_word_iff {w : String} {ls : List Lexeme} : (word w).Writes ls ↔
    w ≠ "" ∧ endsWithSpace w = false ∧ Spelled w.toList ls := by
  refine ⟨fun ⟨_, t, hadds, ht⟩ => ?_, fun ⟨hne, hend, h⟩ => writes_word hne hend h⟩
  obtain rfl := hadds.unique "" (renderInto_word "" w)
  exact ⟨hadds.ne_empty, hadds.unspaced, ht⟩

theorem toTokens_ne_nil {rs : List Rendering} {lss : List (List Lexeme)}
    (h : List.Forall₂ Writes rs lss) : ∀ r ∈ rs, r.toTokens ≠ [] := by
  induction h with
  | nil => simp
  | cons hr _ ih => exact List.forall_mem_cons.2 ⟨hr.toTokens, ih⟩

theorem writes_spaced {r : Rendering} {ls : List Lexeme} {rs : List Rendering}
    {lss : List (List Lexeme)} (hr : r.Writes ls) (hrs : List.Forall₂ Writes rs lss) :
    (spaced (r :: rs)).Writes (ls ++ lss.flatten) := by
  have hfold : ∀ {s : String} {ls : List Lexeme}, s ≠ "" → endsWithSpace s = false →
      Spelled s.toList ls → ∃ s', s' ≠ "" ∧ endsWithSpace s' = false ∧
        (∀ out, rs.foldl (fun out s => renderInto (spaceEnded out) s) (out ++ s) = out ++ s') ∧
        Spelled s'.toList (ls ++ lss.flatten) := by
    induction hrs with
    | nil =>
      intro s ls hne hend hs
      exact ⟨s, hne, hend, fun out => rfl, by simpa using hs⟩
    | @cons _ ls' _ _ hr _ ih =>
      intro s ls hne hend hs
      obtain ⟨-, t, hadds, ht⟩ := hr
      have hspelled : Spelled (s ++ " " ++ t).toList (ls ++ ls') := by simpa using hs.spaced ht
      obtain ⟨s', hne', hend', htext, hs'⟩ := ih (s := s ++ " " ++ t)
        (by simp [String.append_eq_empty_iff, hne])
        (by rw [endsWithSpace_append _ hadds.ne_empty, hadds.unspaced]) hspelled
      refine ⟨s', hne', hend', fun out => ?_, by simpa using hs'⟩
      rw [List.foldl_cons, spaceEnded_append out hne hend, hadds.renders, ← htext]
      simp only [String.append_assoc]
  obtain ⟨htokens, s, hadds, hs⟩ := hr
  obtain ⟨s', hne, hend, htext, hs'⟩ := hfold hadds.ne_empty hadds.unspaced hs
  refine ⟨?_, s', ⟨hne, hend, fun out => ?_⟩, hs'⟩
  · rw [toTokens_spaced]
    simp [htokens]
  · rw [renderInto_spaced htokens (toTokens_ne_nil hrs), hadds.renders, htext]
    rw [hadds.renders]
    simp [String.append_eq_empty_iff, hadds.ne_empty]

theorem writes_commaSeparated {α : Type} {rendering : α → Rendering} {lexemes : α → List Lexeme}
    {x : α} {xs : List α} (hx : (rendering x).Writes (lexemes x))
    (hxs : ∀ y ∈ xs, (rendering y).Writes (lexemes y)) :
    (commaSeparated ((x :: xs).map rendering)).Writes (Lexeme.commaed lexemes x xs) := by
  have hfold : ∀ {s : String} {ls : List Lexeme}, s ≠ "" → endsWithSpace s = false →
      Spelled s.toList ls → ∃ s', s' ≠ "" ∧ endsWithSpace s' = false ∧
        (∀ out, (xs.map rendering).foldl (fun out s => renderInto (out ++ ", ") s) (out ++ s) =
          out ++ s') ∧
        Spelled s'.toList (ls ++ xs.flatMap fun y => .punctuator "," :: lexemes y) := by
    induction xs with
    | nil =>
      intro s ls hne hend hs
      exact ⟨s, hne, hend, fun out => rfl, by simpa using hs⟩
    | cons y ys ih =>
      intro s ls hne hend hs
      obtain ⟨-, t, hadds, ht⟩ := hxs y (by simp)
      have hspelled : Spelled (s ++ ", " ++ t).toList (ls ++ .punctuator "," :: lexemes y) := by
        simpa using hs.comma ht
      obtain ⟨s', hne', hend', htext, hs'⟩ := ih (fun y hy => hxs y (by simp [hy]))
        (s := s ++ ", " ++ t) (by simp [String.append_eq_empty_iff, hne])
        (by rw [endsWithSpace_append _ hadds.ne_empty, hadds.unspaced]) hspelled
      refine ⟨s', hne', hend', fun out => ?_, by simpa using hs'⟩
      rw [List.map_cons, List.foldl_cons, hadds.renders, ← htext]
      simp only [String.append_assoc]
  obtain ⟨htokens, s, hadds, hs⟩ := hx
  obtain ⟨s', hne, hend, htext, hs'⟩ := hfold hadds.ne_empty hadds.unspaced hs
  have hall : ∀ r ∈ xs.map rendering, r.toTokens ≠ [] := by
    simpa using fun y hy => (hxs y hy).toTokens
  refine ⟨?_, s', ⟨hne, hend, fun out => ?_⟩, hs'⟩
  · rw [List.map_cons, toTokens_commaSeparated htokens]
    simp [htokens]
  · rw [List.map_cons, renderInto_commaSeparated htokens hall, hadds.renders, htext]

/-- What is written between parentheses, which may be nothing. -/
theorem writes_enclosed {r : Rendering} {s : String} {ls : List Lexeme}
    (hr : ∀ out, renderInto out r = out ++ s) (hs : Spelled s.toList ls) :
    (parenthesized r).Writes (.punctuator "(" :: ls ++ [Lexeme.punctuator ")"]) := by
  refine ⟨by simp, "(" ++ s ++ ")", ⟨?_, ?_, fun out => ?_⟩, ?_⟩
  · simp [String.append_eq_empty_iff]
  · rw [endsWithSpace_append _ (by decide)]
    rfl
  · rw [(renderInto_parenthesized r out).1, hr]
    simp only [String.append_assoc]
  · simpa using Lexer.spelled_parens hs

theorem writes_parenthesized {r : Rendering} {ls : List Lexeme} (h : r.Writes ls) :
    (parenthesized r).Writes (.punctuator "(" :: ls ++ [Lexeme.punctuator ")"]) :=
  have ⟨_, hadds, hs⟩ := h.piece
  writes_enclosed hadds.renders hs

theorem writes_parens {r : Rendering} {ls : List Lexeme} (h : r.Writes ls) :
    (call "" r).Writes (.punctuator "(" :: ls ++ [Lexeme.punctuator ")"]) := by
  obtain ⟨-, s, hadds, hs⟩ := writes_parenthesized h
  refine ⟨by simp [call], s, ⟨hadds.ne_empty, hadds.unspaced, fun out => ?_⟩, hs⟩
  rw [renderInto_call_parenthesized, String.append_empty, hadds.renders]

theorem writes_call_of {name : String} {ls₀ : List Lexeme} (hname : (text name).Writes ls₀)
    {r : Rendering} {ls : List Lexeme} (h : (parenthesized r).Writes ls) :
    (call name r).Writes (ls₀ ++ ls) := by
  obtain ⟨-, s, hadds, hs⟩ := h
  obtain ⟨-, -, hspelled⟩ := writes_text_iff.1 hname
  -- the name ends where the parenthesis opens
  have hopen : ∃ t, s = "(" ++ t := by
    obtain ⟨t, ht⟩ := exists_renderInto ("" ++ "(") r
    refine ⟨t ++ ")", hadds.unique "" ?_⟩
    rw [(renderInto_parenthesized r "").1, ht]
    simp only [String.append_assoc, String.empty_append]
  obtain ⟨t, rfl⟩ := hopen
  refine ⟨by simp [call], name ++ ("(" ++ t), ⟨?_, ?_, fun out => ?_⟩, ?_⟩
  · simp [String.append_eq_empty_iff]
  · rw [endsWithSpace_append _ hadds.ne_empty, hadds.unspaced]
  · rw [renderInto_call_parenthesized, hadds.renders, String.append_assoc]
  · rw [String.toList_append]
    exact hspelled.append hs (by simp) (by simp [Lexer.Delimits, Lexer.delimiters])

/-! ### Words -/

theorem unspaced_of_notMem {s : String} (h : ' ' ∉ s.toList) : endsWithSpace s = false := by
  unfold endsWithSpace
  rw [beq_eq_false_iff_ne]
  exact fun hlast => h (List.mem_of_getLast? hlast)

theorem ne_empty_of_isWord {w : String} (h : Lexer.isWord w = true) : w ≠ "" := by
  rintro rfl
  exact absurd h (by decide)

theorem unspaced_of_isWord {w : String} (h : Lexer.isWord w = true) : endsWithSpace w = false := by
  obtain ⟨c, cs, hw, hc, hcs⟩ := Lexer.exists_of_isWord h
  refine unspaced_of_notMem fun hmem => ?_
  rw [hw] at hmem
  rcases List.mem_cons.1 hmem with rfl | hmem
  · exact absurd hc (by decide)
  · exact absurd (hcs _ hmem) (by decide)

theorem unspaced_of_isName {name : String} (h : Lexer.IsName name) :
    name ≠ "" ∧ endsWithSpace name = false := by
  cases h with
  | word h => exact ⟨ne_empty_of_isWord h, unspaced_of_isWord h⟩
  | @quoted quote cs hquote hname hcs =>
    have hlast : (quote :: cs).getLast? = some quote := by
      rw [List.getLast?_cons, hcs.getLast?]
      rfl
    refine ⟨?_, ?_⟩
    · rintro rfl
      cases hname
    · rw [endsWithSpace, hname, hlast]
      rcases hquote with rfl | hquote
      · decide
      · refine beq_eq_false_iff_ne.2 fun h => ?_
        obtain rfl := Option.some.inj h
        exact absurd hquote (by decide)

theorem unspaced_dotted {first : String} {names : List String} (hfirst : Lexer.IsName first)
    (hnames : ∀ n ∈ names, Lexer.IsName n) :
    ".".intercalate (first :: names) ≠ "" ∧
      endsWithSpace (".".intercalate (first :: names)) = false := by
  induction names generalizing first with
  | nil => simpa using unspaced_of_isName hfirst
  | cons n names ih =>
    obtain ⟨hn, htail⟩ := List.forall_mem_cons.1 hnames
    obtain ⟨hne, hend⟩ := ih hn htail
    rw [String.intercalate_cons_cons, endsWithSpace_append _ hne, hend]
    simp [String.append_eq_empty_iff]

theorem writes_name {w : String} (h : Lexer.isWord w = true) : (text w).Writes [.word w] :=
  writes_text (ne_empty_of_isWord h) (unspaced_of_isWord h) (Lexer.spelled_word h)

theorem writes_call {name : String} (hname : Lexer.isWord name = true) {r : Rendering}
    {ls : List Lexeme} (h : r.Writes ls) :
    (call name r).Writes (.word name :: .punctuator "(" :: ls ++ [Lexeme.punctuator ")"]) :=
  writes_call_of (writes_name hname) (writes_parenthesized h)

theorem writes_keyword {w : String} (h : Lexer.isWord w = true) : (word w).Writes [.word w] :=
  writes_word (ne_empty_of_isWord h) (unspaced_of_isWord h) (Lexer.spelled_word h)

theorem writes_phrase {t : String}
    (h : ∀ w ∈ t.toList.splitOn ' ', Lexer.isWord (String.ofList w) = true)
    (hend : endsWithSpace t = false) : (word t).Writes (Lexeme.phrase t) := by
  refine writes_word ?_ hend (Lexer.spelled_phrase h)
  rintro rfl
  exact absurd (h [] (by decide)) (by decide)

theorem writes_dotted {first : String} {names : List String} (hfirst : Lexer.IsName first)
    (hnames : ∀ n ∈ names, Lexer.IsName n) :
    (text (".".intercalate (first :: names))).Writes (Lexeme.dotted first names) :=
  have ⟨hne, hend⟩ := unspaced_dotted hfirst hnames
  writes_text hne hend (Lexer.spelled_dotted hfirst hnames)

theorem writes_operator {op : String} (h : op ∈ Lexer.comparisonOperators) :
    (word op).Writes [.operator op] := by
  have hall : ∀ op ∈ Lexer.comparisonOperators, op ≠ "" ∧ endsWithSpace op = false := by decide
  exact writes_word (hall op h).1 (hall op h).2 (Lexer.spelled_operator h)

theorem writes_parameter (n : Nat) :
    (text ("?" ++ toString n)).Writes [⟨.parameter, "?" ++ toString n⟩] := by
  refine writes_text (by simp [String.append_eq_empty_iff]) (unspaced_of_notMem fun hmem => ?_)
    (by simpa using Lexer.spelled_parameter n)
  rw [String.toList_append, Nat.toString_eq_repr, Nat.toList_repr] at hmem
  rcases List.mem_append.1 hmem with hmark | hdigits
  · exact absurd hmark (by decide)
  · exact absurd (Nat.isDigit_of_mem_toDigits (by decide) (by decide) hdigits) (by decide)

theorem writes_quoted {c : Char} (h : c ≠ '\'') :
    (text (String.ofList ['\'', c, '\''])).Writes [⟨.string, String.ofList ['\'', c, '\'']⟩] := by
  refine writes_text (by simp [String.ext_iff]) ?_ (by simpa using Lexer.spelled_quoted h)
  simp [endsWithSpace]

end Jpql.Rendering
