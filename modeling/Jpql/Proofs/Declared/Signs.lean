import Jpql.Proofs.Declared.Unnumbered
import Jpql.Proofs.Declared.Wildcards

/-! The markers of a query text, found at their signs alone. Outside quotes every `?` and `:` is
looked at by itself; cutting the text into pieces, with the words and wildcards around a marker,
finds the same markers in the same order. -/

namespace Jpql.Markers

/-- The markers at the signs outside quotes. -/
def markersFrom : (opened before : Option Char) → List Char → List Marker
  | _, _, [] => []
  | opened, before, c :: cs =>
    (if opened.isSome then [] else ((marker? before (c :: cs)).map (·.1)).toList) ++
      markersFrom (quoteAfter opened c) (some c) cs

/-- Neither the sign of a marker nor a quote. -/
def IsUnsigned (c : Char) : Prop := c ≠ '?' ∧ c ≠ ':' ∧ isQuote c = false

variable {opened before : Option Char} {cs ds rest : List Char} {q : Char}

/-- Without signs there is no marker. -/
theorem markersFrom_unsigned (h : ∀ c ∈ cs, IsUnsigned c) (before : Option Char)
    (rest : List Char) :
    markersFrom none before (cs ++ rest) = markersFrom none (cs.getLast?.or before) rest := by
  induction cs generalizing before with
  | nil => rfl
  | cons c cs ih =>
    obtain ⟨⟨hnumber, hname, hquote⟩, hcs⟩ := List.forall_mem_cons.1 h
    have hstays : quoteAfter none c = none := if_neg (Bool.eq_false_iff.1 hquote)
    rw [List.cons_append, markersFrom, marker?_eq_none ⟨hnumber, hname⟩, hstays, ih hcs,
      List.getLast?_cons]
    cases cs.getLast? <;> rfl

/-- Inside quotes there is no marker. -/
theorem markersFrom_quoted (hq : isQuote q = true) (h : ∀ c ∈ cs, isQuote c = false)
    (before : Option Char) (rest : List Char) :
    markersFrom (some q) before (cs ++ rest) =
      markersFrom (some q) (cs.getLast?.or before) rest := by
  induction cs generalizing before with
  | nil => rfl
  | cons c cs ih =>
    obtain ⟨hc, hcs⟩ := List.forall_mem_cons.1 h
    have hstays : quoteAfter (some q) c = some q :=
      quoteAfterAll_unquoted hq (List.forall_mem_singleton.2 hc)
    rw [List.cons_append, markersFrom, hstays, ih hcs, List.getLast?_cons]
    cases cs.getLast? <;> rfl

/-! ### Around a marker -/

theorem isUnsigned_of {p : Char → Bool} {c : Char} (hc : p c = true)
    (h : p '?' = false ∧ p ':' = false ∧ p '\'' = false ∧ p '"' = false) : IsUnsigned c := by
  obtain ⟨hnumber, hname, hsingle, hdouble⟩ := h
  have hne {d : Char} (hd : p d = false) : c ≠ d := by
    rintro rfl
    rw [hd] at hc
    cases hc
  exact ⟨hne hnumber, hne hname, by simp [isQuote, hne hsingle, hne hdouble]⟩

theorem isUnsigned_keyword (cs : List Char) : ∀ c ∈ (optionalKeyword cs).1, IsUnsigned c := by
  have hspelled {word spelled : List Char}
      (hword : ∀ w ∈ word, Text.foldsTo w '?' = false ∧ Text.foldsTo w ':' = false ∧
        Text.foldsTo w '\'' = false ∧ Text.foldsTo w '"' = false)
      (h : List.Forall₂ (fun w c => Text.foldsTo w c = true) word spelled) :
      ∀ c ∈ spelled, IsUnsigned c := by
    induction h with
    | nil => exact List.forall_mem_nil _
    | cons hfold _ ih =>
      obtain ⟨hw, hword⟩ := List.forall_mem_cons.1 hword
      exact List.forall_mem_cons.2 ⟨isUnsigned_of hfold hw, ih hword⟩
  unfold optionalKeyword
  cases hlike : Text.stripFolded? "like ".toList cs with
  | some found =>
    obtain ⟨spelled, rest⟩ := found
    exact hspelled (by simp [Text.foldsTo]) (Text.forall₂_of_stripFolded? hlike)
  | none =>
    cases hin : Text.stripFolded? "in ".toList cs with
    | some found =>
      obtain ⟨spelled, rest⟩ := found
      exact hspelled (by simp [Text.foldsTo]) (Text.forall₂_of_stripFolded? hin)
    | none => exact List.forall_mem_nil _

theorem isUnsigned_optionalChar {w : Char} (hw : IsUnsigned w) (cs : List Char) :
    ∀ c ∈ (optionalChar w cs).1, IsUnsigned c := by
  rcases optionalChar_fst w cs with h | h <;> rw [h]
  · exact List.forall_mem_nil _
  · exact List.forall_mem_singleton.2 hw

theorem isUnsigned_around :
    IsUnsigned ' ' ∧ IsUnsigned '(' ∧ IsUnsigned '%' ∧ IsUnsigned ')' := by
  refine ⟨?_, ?_, ?_, ?_⟩ <;> exact ⟨by decide, by decide, by decide⟩

theorem isUnsigned_leadIn (cs : List Char) : ∀ c ∈ (leadIn cs).1, IsUnsigned c := by
  obtain ⟨hblank, hopening, -⟩ := isUnsigned_around
  simp only [leadIn, List.forall_mem_append]
  exact ⟨⟨isUnsigned_keyword _, isUnsigned_optionalChar hblank _⟩,
    isUnsigned_optionalChar hopening _⟩

/-- Only the first character of a marker is a sign. -/
theorem Marker.Spelled.unsigned {m : Marker} {c : Char} (h : m.Spelled (c :: cs)) :
    ∀ c ∈ cs, IsUnsigned c := by
  intro d hd
  cases m with
  | unnumbered =>
    obtain ⟨-, rfl⟩ := List.cons.inj h
    cases hd
  | numbered n =>
    obtain ⟨digits, heq, hn⟩ := h
    obtain ⟨-, rfl⟩ := List.cons.inj heq
    exact isUnsigned_of (isDigit_of_position? hn d hd) (by decide)
  | named name =>
    obtain ⟨heq, hchars⟩ := h
    obtain ⟨-, rfl⟩ := List.cons.inj heq
    exact isUnsigned_of (hchars d hd) (by decide)

/-- A sign with a marker behind it is the start of an occurrence. -/
theorem marker?_of_occurrence?_eq_none {c : Char} (h : occurrence? before (c :: cs) = none) :
    marker? before (c :: cs) = none := by
  by_cases hc : c ≠ '?' ∧ c ≠ ':'
  · exact marker?_eq_none hc before cs
  · have hlead : leadIn (c :: cs) = ([], c :: cs) ∧ optionalChar '%' (c :: cs) = ([], c :: cs) := by
      obtain rfl | rfl : c = '?' ∨ c = ':' := by simpa [or_iff_not_imp_left] using hc
      · simp [leadIn, optionalKeyword, optionalChar, Text.stripFolded?, Text.foldsTo]
      · simp [leadIn, optionalKeyword, optionalChar, Text.stripFolded?, Text.foldsTo]
    rw [occurrence?_eq, hlead.1] at h
    simp only [hlead.2, List.append_nil, List.getLast?_nil, Option.none_or] at h
    exact Option.map_eq_none_iff.1 h

/-- An occurrence has one sign, and its marker is found there. -/
theorem occurrence?_sign {lead closing : List Char} {o : Occurrence}
    (h : occurrence? before cs = some (lead, o, closing, rest)) :
    ∃ (front : List Char) (sign : Char) (tail : List Char),
      front ++ sign :: tail = lead ++ o.decorated.toList ++ closing ∧
      (sign = '?' ∨ sign = ':') ∧ (∀ c ∈ front, IsUnsigned c) ∧ (∀ c ∈ tail, IsUnsigned c) ∧
      (marker? (front.getLast?.or before) (sign :: (tail ++ rest))).map (·.1) = some o.marker := by
  rw [occurrence?_eq] at h
  obtain ⟨⟨m, spelled, behind⟩, hmarker, heq⟩ := Option.map_eq_some_iff.1 h
  simp only [Prod.mk.injEq] at heq
  obtain ⟨rfl, rfl, rfl, rfl⟩ := heq
  obtain ⟨hcut, hspelled⟩ := marker?_ok hmarker
  obtain ⟨sign, tail, rfl⟩ := List.exists_cons_of_length_pos hspelled.length_pos
  have hsign : sign = '?' ∨ sign = ':' := by
    obtain ⟨ds, h | h⟩ := hspelled.head
    · exact .inl (List.cons.inj h).1
    · exact .inr (List.cons.inj h).1
  obtain ⟨-, -, hpercent, hparenthesis⟩ := isUnsigned_around
  refine ⟨(leadIn cs).1 ++ (optionalChar '%' (leadIn cs).2).1, sign,
    tail ++ (optionalChar '%' behind).1 ++ (optionalChar ')' (optionalChar '%' behind).2).1, ?_,
    hsign, ?_, ?_, ?_⟩
  · rw [String.toList_ofList]
    simp only [List.append_assoc, List.cons_append]
  · exact List.forall_mem_append.2 ⟨isUnsigned_leadIn cs, isUnsigned_optionalChar hpercent _⟩
  · exact List.forall_mem_append.2 ⟨List.forall_mem_append.2 ⟨hspelled.unsigned,
      isUnsigned_optionalChar hpercent _⟩, isUnsigned_optionalChar hparenthesis _⟩
  · have hbehind : tail ++ (optionalChar '%' behind).1 ++
        (optionalChar ')' (optionalChar '%' behind).2).1 ++
          (optionalChar ')' (optionalChar '%' behind).2).2 = tail ++ behind := by
      rw [List.append_assoc, optionalChar_append, List.append_assoc, optionalChar_append]
    rw [hbehind, ← List.cons_append, hcut, hmarker]
    rfl

/-- What is found of an occurrence at its sign. -/
theorem markersFrom_occurrence {taken lead closing : List Char} {o : Occurrence}
    (h : occurrence? before (taken ++ rest) = some (lead, o, closing, rest)) :
    markersFrom none before (taken ++ rest) =
      o.marker :: markersFrom none (taken.getLast?.or before) rest := by
  obtain ⟨front, sign, tail, hsplit, hsign, hfront, htail, hmarker⟩ := occurrence?_sign h
  obtain rfl : taken = front ++ sign :: tail := by
    rw [hsplit]
    exact (List.append_cancel_right (occurrence?_ok h).1).symm
  have hunquoted : quoteAfter none sign = none := by
    rcases hsign with rfl | rfl <;> rfl
  rw [List.append_assoc, markersFrom_unsigned hfront, List.cons_append, markersFrom, hmarker,
    hunquoted, markersFrom_unsigned htail, List.getLast?_append, List.getLast?_cons]
  cases tail.getLast? <;> rfl

/-- The pieces of a text have the markers that are found at its signs. -/
theorem Cuts.markers {ps : List Piece} (h : Cuts opened before cs ps)
    (hopened : ∀ q ∈ opened, isQuote q = true) :
    (ps.filterMap Piece.occurrence?).map (·.marker) = markersFrom opened before cs := by
  induction h with
  | nil => rfl
  | @char opened before c cs ps hnone _ ih =>
    have hnext : ∀ q ∈ quoteAfter opened c, isQuote q = true := by
      unfold quoteAfter
      split <;> split <;> simp_all
    rw [markersFrom, marker?_of_occurrence?_eq_none hnone, ← ih hnext]
    cases opened <;> rfl
  | @quoted opened before taken rest _ _ _ _ hq hsome _ ih =>
    obtain ⟨q, rfl⟩ := Option.isSome_iff_exists.1 hq
    have hquote := hopened q rfl
    have htaken : ∀ c ∈ taken, isQuote c = false :=
      List.append_cancel_right (occurrence?_ok hsome).1 ▸ occurrence?_unquoted hsome
    have hstays := quoteAfterAll_unquoted hquote htaken
    rw [hstays] at ih
    rw [markersFrom_quoted hquote htaken, ← ih hopened]
    rfl
  | @marker before taken rest _ _ _ _ hsome _ ih =>
    have htaken : ∀ c ∈ taken, isQuote c = false :=
      List.append_cancel_right (occurrence?_ok hsome).1 ▸ occurrence?_unquoted hsome
    have hstays := quoteAfterAll_none htaken
    rw [hstays] at ih
    rw [markersFrom_occurrence hsome, ← ih hopened]
    rfl

theorem markers_pieces (cs : List Char) :
    (occurrences cs).map (·.marker) = markersFrom none none cs :=
  (cuts_pieces cs).markers (by simp)

end Jpql.Markers
