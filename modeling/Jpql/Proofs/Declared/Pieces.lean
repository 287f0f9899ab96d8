import Jpql.Declared.Markers
import Mathlib

/-! How a query text is cut into pieces. The pieces put together are the text again, no marker reaches
over a quote, and the pieces in front of a quote do not depend on what stands behind it. -/

namespace Jpql

namespace Text

variable {q : Char} {word : List Char}

theorem stripFront?_front (hq : q ∉ word) (cs t : List Char) :
    stripFront? word (cs ++ q :: t) = (stripFront? word cs).map (· ++ q :: t) := by
  induction word generalizing cs with
  | nil => rfl
  | cons w ws ih =>
    obtain ⟨hw, hws⟩ := not_or.1 (mt List.mem_cons.2 hq)
    cases cs with
    | nil => simp [stripFront?, Ne.symm hw]
    | cons c cs =>
      simp only [List.cons_append, stripFront?]
      split
      · exact ih hws cs
      · rfl

theorem stripFolded?_front (hq : ∀ w ∈ word, foldsTo w q = false) (cs t : List Char) :
    stripFolded? word (cs ++ q :: t) = (stripFolded? word cs).map fun (spelled, rest) =>
      (spelled, rest ++ q :: t) := by
  induction word generalizing cs with
  | nil => rfl
  | cons w ws ih =>
    obtain ⟨hw, hws⟩ := List.forall_mem_cons.1 hq
    cases cs with
    | nil => simp [stripFolded?, hw]
    | cons c cs =>
      simp only [List.cons_append, stripFolded?]
      split
      · rw [ih hws cs, Option.map_map, Option.map_map]
        rfl
      · rfl

end Text

namespace Markers

variable {before opened : Option Char} {cs rest : List Char} {q : Char}

/-- What a piece is in the text. -/
def Piece.source : Piece → List Char
  | .text cs => cs
  | .occurrence o => o.decorated.toList

/-! ### Quotes -/

theorem eq_of_isQuote (h : isQuote q = true) : q = '\'' ∨ q = '"' := by
  simpa [isQuote] using h

theorem quoteAfterAll_append (opened : Option Char) (cs ds : List Char) :
    quoteAfterAll opened (cs ++ ds) = quoteAfterAll (quoteAfterAll opened cs) ds :=
  List.foldl_append

/-- Outside quotes nothing but a quote changes anything. -/
theorem quoteAfterAll_none (h : ∀ c ∈ cs, isQuote c = false) : quoteAfterAll none cs = none := by
  induction cs with
  | nil => rfl
  | cons c cs ih =>
    obtain ⟨hc, hcs⟩ := List.forall_mem_cons.1 h
    have hstep : quoteAfter none c = none := if_neg (Bool.eq_false_iff.1 hc)
    rw [quoteAfterAll, List.foldl_cons, hstep]
    exact ih hcs

/-- Inside quotes nothing but the same quote changes anything. -/
theorem quoteAfterAll_unquoted (hq : isQuote q = true) (h : ∀ c ∈ cs, isQuote c = false) :
    quoteAfterAll (some q) cs = some q := by
  induction cs with
  | nil => rfl
  | cons c cs ih =>
    obtain ⟨hc, hcs⟩ := List.forall_mem_cons.1 h
    have hne : (c == q) = false := by
      rw [beq_eq_false_iff_ne]
      rintro rfl
      rw [hq] at hc
      cases hc
    have hstep : quoteAfter (some q) c = some q := by simp [quoteAfter, hne]
    rw [quoteAfterAll, List.foldl_cons, hstep]
    exact ih hcs

/-- A quote is no part of a marker or of what may stand around it. -/
structure Unmarked (q : Char) : Prop where
  like : ∀ w ∈ "like ".toList, Text.foldsTo w q = false
  inside : ∀ w ∈ "in ".toList, Text.foldsTo w q = false
  around : q ≠ ' ' ∧ q ≠ '(' ∧ q ≠ '%' ∧ q ≠ ')'
  marker : q ≠ '?' ∧ q ≠ ':'
  digit : Text.isDecimalDigit q = false
  continues : continuesMarker q = false
  name : isNameChar q = false

theorem unmarked_of_isQuote (h : isQuote q = true) : Unmarked q := by
  rcases eq_of_isQuote h with rfl | rfl
  · exact ⟨by simp [Text.foldsTo], by simp [Text.foldsTo], by decide, by decide, rfl, rfl, rfl⟩
  · exact ⟨by simp [Text.foldsTo], by simp [Text.foldsTo], by decide, by decide, rfl, rfl, rfl⟩

/-! ### Around a marker -/

theorem optionalChar_append (w : Char) (cs : List Char) :
    (optionalChar w cs).1 ++ (optionalChar w cs).2 = cs := by
  unfold optionalChar
  split
  · split <;> rfl
  · rfl

theorem optionalChar_fst (w : Char) (cs : List Char) :
    (optionalChar w cs).1 = [] ∨ (optionalChar w cs).1 = [w] := by
  unfold optionalChar
  split
  · split
    next heq => exact .inr (by rw [eq_of_beq heq])
    next => exact .inl rfl
  · exact .inl rfl

theorem optionalChar_front {w : Char} (hw : q ≠ w) (cs t : List Char) :
    optionalChar w (cs ++ q :: t) = ((optionalChar w cs).1, (optionalChar w cs).2 ++ q :: t) := by
  cases cs with
  | nil => simp [optionalChar, hw]
  | cons c cs =>
    simp only [List.cons_append, optionalChar]
    split <;> rfl

theorem optionalKeyword_append (cs : List Char) :
    (optionalKeyword cs).1 ++ (optionalKeyword cs).2 = cs := by
  unfold optionalKeyword
  cases hlike : Text.stripFolded? "like ".toList cs with
  | some s => exact (Text.append_of_stripFolded? hlike).1
  | none =>
    cases hin : Text.stripFolded? "in ".toList cs with
    | some s => exact (Text.append_of_stripFolded? hin).1
    | none => rfl

theorem optionalKeyword_front (hq : Unmarked q) (cs t : List Char) :
    optionalKeyword (cs ++ q :: t) =
      ((optionalKeyword cs).1, (optionalKeyword cs).2 ++ q :: t) := by
  unfold optionalKeyword
  rw [Text.stripFolded?_front hq.like, Text.stripFolded?_front hq.inside]
  cases Text.stripFolded? "like ".toList cs with
  | some s => rfl
  | none =>
    cases Text.stripFolded? "in ".toList cs with
    | some s => rfl
    | none => rfl

/-! ### Markers -/

/-- The characters of a marker. -/
def Marker.Spelled : Marker → List Char → Prop
  | .unnumbered, cs => cs = ['?']
  | .numbered n, cs => ∃ digits, cs = '?' :: digits ∧ position? digits = some n
  | .named name, cs => cs = ':' :: name.toList ∧ ∀ c ∈ name.toList, isNameChar c = true

theorem Marker.Spelled.head {m : Marker} {spelled : List Char} (h : m.Spelled spelled) :
    ∃ cs, spelled = '?' :: cs ∨ spelled = ':' :: cs := by
  cases m with
  | unnumbered => exact ⟨[], .inl h⟩
  | numbered n =>
    obtain ⟨digits, hspelled, -⟩ := h
    exact ⟨digits, .inl hspelled⟩
  | named name => exact ⟨_, .inr h.1⟩

theorem Marker.Spelled.length_pos {m : Marker} {spelled : List Char} (h : m.Spelled spelled) :
    0 < spelled.length := by
  obtain ⟨cs, rfl | rfl⟩ := h.head <;> exact Nat.succ_pos _

theorem isDigit_of_position? {digits : List Char} {n : Nat} (h : position? digits = some n) :
    ∀ c ∈ digits, c.isDigit = true := by
  unfold position? at h
  split at h
  next hdigits => exact List.all_eq_true.1 (Bool.and_eq_true_iff.1 hdigits).2
  next => cases h

/-- A marker holds no wildcard. -/
theorem Marker.Spelled.percent_notMem {m : Marker} {spelled : List Char} (h : m.Spelled spelled) :
    '%' ∉ spelled := by
  cases m with
  | unnumbered =>
    obtain rfl := h
    decide
  | numbered n =>
    obtain ⟨digits, rfl, hn⟩ := h
    intro hmem
    have hdigit := isDigit_of_position? hn '%' ((List.mem_cons.1 hmem).resolve_left (by decide))
    cases hdigit
  | named name =>
    obtain ⟨rfl, hname⟩ := h
    intro hmem
    have hchar := hname '%' ((List.mem_cons.1 hmem).resolve_left (by decide))
    cases hchar

theorem marker?_ok {m : Marker} {spelled : List Char}
    (h : marker? before cs = some (m, spelled, rest)) :
    spelled ++ rest = cs ∧ m.Spelled spelled := by
  unfold marker? at h
  split at h
  next cs =>
    dsimp only at h
    split at h
    · cases h
    split at h
    next hempty =>
      obtain ⟨rfl, rfl, rfl⟩ := by simpa using h
      have hnone : cs.takeWhile Text.isDecimalDigit = [] := List.isEmpty_iff.1 hempty
      have hcut := List.takeWhile_append_dropWhile (p := Text.isDecimalDigit) (l := cs)
      rw [hnone, List.nil_append] at hcut
      exact ⟨congrArg _ hcut, rfl⟩
    next =>
      obtain ⟨n, hn, heq⟩ := Option.map_eq_some_iff.1 h
      obtain ⟨rfl, rfl, rfl⟩ := by simpa using heq
      exact ⟨congrArg _ List.takeWhile_append_dropWhile, _, rfl, hn⟩
  next cs =>
    dsimp only at h
    split at h
    · cases h
    · obtain ⟨rfl, rfl, rfl⟩ := by simpa using h
      refine ⟨congrArg _ List.takeWhile_append_dropWhile, ?_⟩
      rw [Marker.Spelled, String.toList_ofList]
      exact ⟨rfl, fun c hc => List.mem_takeWhile_imp hc⟩
  next => cases h

theorem takeWhile_front {p : Char → Bool} (hq : p q = false) (cs t : List Char) :
    (cs ++ q :: t).takeWhile p = cs.takeWhile p := by
  induction cs with
  | nil => simp [hq]
  | cons c cs ih => simp [List.takeWhile_cons, ih]

theorem dropWhile_front {p : Char → Bool} (hq : p q = false) (cs t : List Char) :
    (cs ++ q :: t).dropWhile p = cs.dropWhile p ++ q :: t := by
  induction cs with
  | nil => simp [hq]
  | cons c cs ih =>
    simp only [List.cons_append, List.dropWhile_cons]
    split
    · exact ih
    · rfl

theorem marker?_eq_none {c : Char} (h : c ≠ '?' ∧ c ≠ ':') (before : Option Char)
    (cs : List Char) : marker? before (c :: cs) = none := by
  unfold marker?
  split
  next heq => exact absurd (List.cons.inj heq).1 h.1
  next heq => exact absurd (List.cons.inj heq).1 h.2
  next => rfl

theorem marker?_front (hq : Unmarked q) (before : Option Char) (cs t : List Char) :
    marker? before (cs ++ q :: t) =
      (marker? before cs).map fun (m, spelled, rest) => (m, spelled, rest ++ q :: t) := by
  have hhead (cs : List Char) :
      (cs ++ q :: t).head?.any continuesMarker = cs.head?.any continuesMarker := by
    cases cs with
    | nil => simp [hq.continues]
    | cons c cs => rfl
  cases cs with
  | nil => exact marker?_eq_none hq.marker before t
  | cons c cs =>
    rw [List.cons_append]
    by_cases hc : c ≠ '?' ∧ c ≠ ':'
    · rw [marker?_eq_none hc, marker?_eq_none hc]
      rfl
    · obtain rfl | rfl : c = '?' ∨ c = ':' := by simpa [or_iff_not_imp_left] using hc
      · simp only [marker?, takeWhile_front hq.digit, dropWhile_front hq.digit, hhead]
        split
        · rfl
        split
        · rfl
        · rw [Option.map_map]
          rfl
      · simp only [marker?, takeWhile_front hq.name, dropWhile_front hq.name]
        split <;> rfl

/-! ### Occurrences -/

/-- What may stand in front of a marker and its wildcard, and the text from there on. -/
def leadIn (cs : List Char) : List Char × List Char :=
  let (keyword, cs) := optionalKeyword cs
  let (blank, cs) := optionalChar ' ' cs
  let (opening, cs) := optionalChar '(' cs
  (keyword ++ blank ++ opening, cs)

theorem leadIn_append (cs : List Char) : (leadIn cs).1 ++ (leadIn cs).2 = cs := by
  simp only [leadIn, List.append_assoc, optionalChar_append, optionalKeyword_append]

theorem leadIn_front (hq : Unmarked q) (cs t : List Char) :
    leadIn (cs ++ q :: t) = ((leadIn cs).1, (leadIn cs).2 ++ q :: t) := by
  simp only [leadIn, optionalKeyword_front hq, optionalChar_front hq.around.1,
    optionalChar_front hq.around.2.1]

/-- An occurrence with what it is made of. -/
theorem occurrence?_eq (before : Option Char) (cs : List Char) :
    occurrence? before cs =
      let lead := leadIn cs
      let left := optionalChar '%' lead.2
      (marker? ((lead.1 ++ left.1).getLast?.or before) left.2).map fun (marker, spelled, behind) =>
        let right := optionalChar '%' behind
        let closing := optionalChar ')' right.2
        (lead.1, ⟨Text.trim (String.ofList (optionalKeyword cs).1),
          String.ofList (left.1 ++ spelled ++ right.1), marker⟩, closing.1, closing.2) :=
  Option.map_eq_bind.symm

/-- What an occurrence consists of: its marker, and a wildcard on either side or none. -/
structure Occurrence.Decorated (o : Occurrence) (left spelled right : List Char) : Prop where
  before : left = [] ∨ left = ['%']
  behind : right = [] ∨ right = ['%']
  marker : o.marker.Spelled spelled
  decorated : o.decorated.toList = left ++ spelled ++ right

theorem occurrence?_ok {lead closing : List Char} {o : Occurrence}
    (h : occurrence? before cs = some (lead, o, closing, rest)) :
    lead ++ o.decorated.toList ++ closing ++ rest = cs ∧
      ∃ left spelled right, o.Decorated left spelled right := by
  rw [occurrence?_eq] at h
  obtain ⟨⟨m, spelled, behind⟩, hmarker, heq⟩ := Option.map_eq_some_iff.1 h
  simp only [Prod.mk.injEq] at heq
  obtain ⟨hlead, ho, hclosing, hrest⟩ := heq
  subst hlead ho hclosing hrest
  obtain ⟨hcut, hspelled⟩ := marker?_ok hmarker
  refine ⟨?_, _, spelled, _, optionalChar_fst _ _, optionalChar_fst _ _, hspelled,
    String.toList_ofList⟩
  simp [optionalChar_append, hcut, leadIn_append]

theorem occurrence?_front (hq : Unmarked q) (before : Option Char) (cs t : List Char) :
    occurrence? before (cs ++ q :: t) =
      (occurrence? before cs).map fun (lead, o, closing, rest) =>
        (lead, o, closing, rest ++ q :: t) := by
  obtain ⟨-, -, hpercent, hclosing⟩ := hq.around
  simp only [occurrence?_eq, leadIn_front hq, optionalKeyword_front hq,
    optionalChar_front hpercent, marker?_front hq, Option.map_map]
  refine congrArg (Option.map · _) (funext ?_)
  rintro ⟨m, spelled, behind⟩
  simp only [Function.comp, optionalChar_front hpercent, optionalChar_front hclosing]

theorem occurrence?_append (hq : Unmarked q) {taken lead closing : List Char} {o : Occurrence}
    (h : occurrence? before (taken ++ rest) = some (lead, o, closing, rest)) (t : List Char) :
    occurrence? before (taken ++ (rest ++ q :: t)) = some (lead, o, closing, rest ++ q :: t) := by
  rw [← List.append_assoc, occurrence?_front hq, h]
  rfl

theorem occurrence?_length {lead closing : List Char} {o : Occurrence}
    (h : occurrence? before cs = some (lead, o, closing, rest)) : rest.length < cs.length := by
  obtain ⟨hcut, left, spelled, right, ho⟩ := occurrence?_ok h
  have hpos := ho.marker.length_pos
  have hlength := congrArg List.length hcut
  simp only [List.length_append, ho.decorated] at hlength
  omega

/-- No quote belongs to an occurrence. -/
theorem occurrence?_unquoted {lead closing : List Char} {o : Occurrence}
    (h : occurrence? before cs = some (lead, o, closing, rest)) :
    ∀ c ∈ lead ++ o.decorated.toList ++ closing, isQuote c = false := by
  intro c hc
  rw [Bool.eq_false_iff]
  intro hquote
  obtain ⟨front, back, hsplit⟩ := List.append_of_mem hc
  obtain ⟨hcut, -⟩ := occurrence?_ok h
  -- What is found in front of the quote ends there, and so does not reach over it.
  have hfound := occurrence?_front (unmarked_of_isQuote hquote) before front (back ++ rest)
  rw [← List.cons_append, ← List.append_assoc, ← hsplit, hcut, h] at hfound
  obtain ⟨⟨_, _, _, rest'⟩, -, heq⟩ := Option.map_eq_some_iff.1 hfound.symm
  simp only [Prod.mk.injEq] at heq
  have hlength := congrArg List.length heq.2.2.2
  simp only [List.length_append, List.length_cons] at hlength
  omega

/-! ### Pieces -/

/-- How a text is cut into pieces: at the first place where an occurrence can start, one character
after the other before it. -/
inductive Cuts : (opened before : Option Char) → List Char → List Piece → Prop
  | nil {opened before : Option Char} : Cuts opened before [] []
  | char {opened before : Option Char} {c : Char} {cs : List Char} {ps : List Piece}
      (hnone : occurrence? before (c :: cs) = none)
      (hrest : Cuts (quoteAfter opened c) (some c) cs ps) :
      Cuts opened before (c :: cs) (.text [c] :: ps)
  | quoted {opened before : Option Char} {taken rest lead closing : List Char} {o : Occurrence}
      {ps : List Piece} (hopened : opened.isSome = true)
      (hsome : occurrence? before (taken ++ rest) = some (lead, o, closing, rest))
      (hrest : Cuts (quoteAfterAll opened taken) (taken.getLast?.or before) rest ps) :
      Cuts opened before (taken ++ rest) (.text taken :: ps)
  | marker {before : Option Char} {taken rest lead closing : List Char} {o : Occurrence}
      {ps : List Piece}
      (hsome : occurrence? before (taken ++ rest) = some (lead, o, closing, rest))
      (hrest : Cuts (quoteAfterAll none taken) (taken.getLast?.or before) rest ps) :
      Cuts none before (taken ++ rest) (.text lead :: .occurrence o :: .text closing :: ps)

theorem piecesFrom_cons (fuel : Nat) (opened before : Option Char) (c : Char) (cs : List Char) :
    piecesFrom (fuel + 1) opened before (c :: cs) =
      match occurrence? before (c :: cs) with
      | some (lead, o, closing, rest) =>
        let taken := (c :: cs).take ((c :: cs).length - rest.length)
        let pieces := piecesFrom fuel (quoteAfterAll opened taken) (taken.getLast?.or before) rest
        if opened.isSome then .text taken :: pieces
        else .text lead :: .occurrence o :: .text closing :: pieces
      | none => .text [c] :: piecesFrom fuel (quoteAfter opened c) (some c) cs := by
  exact rfl

theorem piecesFrom_occurrence {taken lead closing : List Char} {o : Occurrence}
    (h : occurrence? before (taken ++ rest) = some (lead, o, closing, rest)) (fuel : Nat)
    (opened : Option Char) :
    piecesFrom (fuel + 1) opened before (taken ++ rest) =
      let pieces := piecesFrom fuel (quoteAfterAll opened taken) (taken.getLast?.or before) rest
      if opened.isSome then .text taken :: pieces
      else .text lead :: .occurrence o :: .text closing :: pieces := by
  have hpos := Nat.lt_of_le_of_lt (Nat.zero_le _) (occurrence?_length h)
  obtain ⟨c, cs, hcons⟩ := List.exists_cons_of_length_pos hpos
  have htaken : (c :: cs).take ((c :: cs).length - rest.length) = taken := by
    rw [← hcons, List.length_append, Nat.add_sub_cancel, List.take_left]
  rw [hcons] at h ⊢
  simp only [piecesFrom_cons, h, htaken]

theorem cuts_piecesFrom {fuel : Nat} (h : cs.length ≤ fuel) (opened before : Option Char) :
    Cuts opened before cs (piecesFrom fuel opened before cs) := by
  induction fuel generalizing opened before cs with
  | zero =>
    obtain rfl := List.length_eq_zero_iff.1 (Nat.le_zero.1 h)
    exact .nil
  | succ fuel ih =>
    cases cs with
    | nil => exact .nil
    | cons c cs =>
      cases hoccurrence : occurrence? before (c :: cs) with
      | none =>
        rw [piecesFrom_cons, hoccurrence]
        exact .char hoccurrence (ih (Nat.le_of_succ_le_succ h) _ _)
      | some found =>
        obtain ⟨lead, o, closing, rest⟩ := found
        obtain ⟨hcut, -⟩ := occurrence?_ok hoccurrence
        have hfuel : rest.length ≤ fuel :=
          Nat.le_of_lt_succ (Nat.lt_of_lt_of_le (occurrence?_length hoccurrence) h)
        rw [← hcut] at hoccurrence ⊢
        rw [piecesFrom_occurrence hoccurrence]
        cases opened with
        | some opening => exact .quoted rfl hoccurrence (ih hfuel _ _)
        | none => exact .marker hoccurrence (ih hfuel _ _)

theorem cuts_pieces (cs : List Char) : Cuts none none cs (pieces cs) :=
  cuts_piecesFrom (Nat.le_refl _) none none

theorem occurrence?_nil (before : Option Char) : occurrence? before [] = none := by
  cases h : occurrence? before [] with
  | none => rfl
  | some found =>
    obtain ⟨lead, o, closing, rest⟩ := found
    exact absurd (occurrence?_length h) (Nat.not_lt_zero _)

namespace Cuts

variable {ps ps' : List Piece}

/-- There is one way to cut a text. -/
theorem piecesFrom_eq (h : Cuts opened before cs ps) {fuel : Nat} (hfuel : cs.length ≤ fuel) :
    piecesFrom fuel opened before cs = ps := by
  induction h generalizing fuel with
  | nil => cases fuel <;> rfl
  | char hnone _ ih =>
    obtain ⟨fuel, rfl⟩ := Nat.exists_eq_add_of_le' (Nat.le_trans (Nat.le_add_left 1 _) hfuel)
    rw [piecesFrom_cons, hnone, ih (Nat.le_of_succ_le_succ hfuel)]
  | quoted hopened hsome _ ih =>
    have hlt := Nat.lt_of_lt_of_le (occurrence?_length hsome) hfuel
    obtain ⟨fuel, rfl⟩ := Nat.exists_eq_add_of_lt (Nat.lt_of_le_of_lt (Nat.zero_le _) hlt)
    rw [Nat.zero_add] at hlt ⊢
    rw [piecesFrom_occurrence hsome, ih (Nat.le_of_lt_succ hlt)]
    exact if_pos hopened
  | marker hsome _ ih =>
    have hlt := Nat.lt_of_lt_of_le (occurrence?_length hsome) hfuel
    obtain ⟨fuel, rfl⟩ := Nat.exists_eq_add_of_lt (Nat.lt_of_le_of_lt (Nat.zero_le _) hlt)
    rw [Nat.zero_add] at hlt ⊢
    rw [piecesFrom_occurrence hsome, ih (Nat.le_of_lt_succ hlt)]
    rfl

/-- The pieces put together are the text. -/
theorem sources (h : Cuts opened before cs ps) : ps.flatMap Piece.source = cs := by
  induction h with
  | nil => rfl
  | char _ _ ih => exact congrArg _ ih
  | quoted _ _ _ ih => exact congrArg _ ih
  | marker hsome _ ih =>
    obtain ⟨hcut, -⟩ := occurrence?_ok hsome
    simp [Piece.source, ih, ← hcut]

/-- An occurrence among the pieces has been found with the piece before it as its lead. -/
theorem occurrence (h : Cuts opened before cs ps) {front after : List Piece} {o : Occurrence}
    (hps : ps = front ++ .occurrence o :: after) :
    ∃ front' lead closing, front = front' ++ [Piece.text lead] ∧
      ∃ b ds rest, occurrence? b ds = some (lead, o, closing, rest) := by
  induction h generalizing front with
  | nil => simp at hps
  | char _ _ ih | quoted _ _ _ ih =>
    cases front with
    | nil => cases hps
    | cons p front =>
      obtain ⟨front', lead, closing, rfl, hfound⟩ := ih (List.cons.inj hps).2
      exact ⟨p :: front', lead, closing, rfl, hfound⟩
  | marker hsome _ ih =>
    rcases front with _ | ⟨p, _ | ⟨p', _ | ⟨p'', front⟩⟩⟩
    · cases hps
    · simp only [List.cons_append, List.nil_append, List.cons.injEq, Piece.occurrence.injEq] at hps
      obtain ⟨rfl, rfl, -⟩ := hps
      exact ⟨[], _, _, rfl, _, _, _, hsome⟩
    · cases hps
    · obtain ⟨front', lead, closing, rfl, hfound⟩ :=
        ih (List.cons.inj (List.cons.inj (List.cons.inj hps).2).2).2
      exact ⟨p :: p' :: p'' :: front', lead, closing, rfl, hfound⟩

/-- What is cut in front of a quote does not depend on what stands behind it. -/
theorem append (hq : isQuote q = true) {t : List Char} (h : Cuts opened before cs ps)
    (h' : Cuts (quoteAfterAll opened cs) (cs.getLast?.or before) (q :: t) ps') :
    Cuts opened before (cs ++ q :: t) (ps ++ ps') := by
  have hunmarked := unmarked_of_isQuote hq
  have hlast (ds es : List Char) (b : Option Char) :
      (ds ++ es).getLast?.or b = es.getLast?.or (ds.getLast?.or b) := by
    rw [List.getLast?_append, Option.or_assoc]
  induction h with
  | nil => exact h'
  | @char opened before c cs _ hnone _ ih =>
    rw [List.cons_append, List.cons_append]
    refine .char ?_ (ih ?_)
    · rw [← List.cons_append, occurrence?_front hunmarked, hnone]
      rfl
    · rw [← List.singleton_append, hlast] at h'
      exact h'
  | quoted hopened hsome _ ih =>
    rw [hlast, quoteAfterAll_append] at h'
    rw [List.append_assoc]
    exact .quoted hopened (occurrence?_append hunmarked hsome t) (ih h')
  | marker hsome _ ih =>
    rw [hlast, quoteAfterAll_append] at h'
    rw [List.append_assoc]
    exact .marker (occurrence?_append hunmarked hsome t) (ih h')

/-- A quote is a piece of its own. -/
theorem quote (hq : isQuote q = true) (h : Cuts (quoteAfter opened q) (some q) cs ps) :
    Cuts opened before (q :: cs) (.text [q] :: ps) := by
  refine .char ?_ h
  rw [← List.nil_append (q :: cs), occurrence?_front (unmarked_of_isQuote hq), occurrence?_nil]
  rfl

/-- Inside quotes all is text. -/
theorem texts (h : Cuts (some q) before cs ps) (hq : isQuote q = true)
    (hcs : ∀ c ∈ cs, isQuote c = false) : ∀ p ∈ ps, p = .text p.source := by
  generalize hopened : some q = opened at h
  induction h with
  | nil => exact List.forall_mem_nil _
  | char _ _ ih =>
    subst hopened
    obtain ⟨hc, hcs⟩ := List.forall_mem_cons.1 hcs
    have hsame := quoteAfterAll_unquoted hq (List.forall_mem_singleton.2 hc)
    exact List.forall_mem_cons.2 ⟨rfl, ih hcs hsame.symm⟩
  | quoted _ _ _ ih =>
    subst hopened
    obtain ⟨htaken, hrest⟩ := List.forall_mem_append.1 hcs
    exact List.forall_mem_cons.2 ⟨rfl, ih hrest (quoteAfterAll_unquoted hq htaken).symm⟩
  | marker _ _ _ => cases hopened

end Cuts

/-- The pieces of a text with a literal. -/
theorem pieces_literal {front x : List Char} (hq : isQuote q = true)
    (hfront : quoteAfterAll none front = none) (hx : ∀ c ∈ x, isQuote c = false) :
    ∃ ps : List Piece, (∀ p ∈ ps, p = .text p.source) ∧ ps.flatMap Piece.source = q :: x ++ [q] ∧
      ∀ back, pieces (front ++ q :: x ++ q :: back) =
        pieces front ++ ps ++ piecesFrom back.length none (some q) back := by
  have hinside := cuts_piecesFrom (Nat.le_refl x.length) (some q) (some q)
  have hopening : quoteAfter none q = some q := if_pos hq
  have hclosing : quoteAfter (some q) q = none := if_pos (beq_self_eq_true q)
  refine ⟨.text [q] :: piecesFrom x.length (some q) (some q) x ++ [Piece.text [q]], ?_, ?_, fun back => ?_⟩
  · have htexts := hinside.texts hq hx
    simp only [List.cons_append, List.forall_mem_cons, List.forall_mem_append]
    exact ⟨rfl, htexts, rfl, List.forall_mem_nil _⟩
  · simp [hinside.sources, Piece.source]
  · have hback := cuts_piecesFrom (Nat.le_refl back.length) none (some q)
    have hliteral : Cuts (quoteAfterAll none front) (front.getLast?.or none) (q :: (x ++ q :: back))
        (.text [q] :: (piecesFrom x.length (some q) (some q) x ++
          .text [q] :: piecesFrom back.length none (some q) back)) := by
      refine .quote hq ?_
      rw [hfront, hopening]
      refine hinside.append hq (.quote hq ?_)
      rw [quoteAfterAll_unquoted hq hx, hclosing]
      exact hback
    have hall := ((cuts_pieces front).append hq hliteral).piecesFrom_eq (Nat.le_refl _)
    rw [pieces, List.append_assoc, List.cons_append, hall]
    simp

end Markers

end Jpql
