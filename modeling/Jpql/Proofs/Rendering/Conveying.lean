import Jpql.Proofs.Rendering.Lexemes
import Jpql.Proofs.Rendering.Spacing

/-! Streams that are written as they were read. A row of streams conveys the lexemes that its members
write one after the other, and each way to put streams together turns a row into one stream that
conveys the same. Only signs are written without a blank behind them: a minus in front of another one
would start a comment, so a stream conveys its lexemes under the condition that no sign meets one. -/

namespace Jpql

namespace Lexer

theorem Lexes.unique {cs : List Char} {ls ls' : List Lexeme} (h : Lexes cs ls) (h' : Lexes cs ls') :
    ls = ls' := by
  induction h generalizing ls' with
  | done h =>
    cases h' with
    | done => rfl
    | token h₁ => simp [h] at h₁
  | token h hscan _ ih =>
    cases h' with
    | done h₁ => simp [h] at h₁
    | token h₁ hscan₁ hrest =>
      obtain ⟨rfl, rfl⟩ := List.cons.inj (h.symm.trans h₁)
      cases hscan.symm.trans hscan₁
      rw [ih hrest]

theorem Spelled.unique {cs : List Char} {ls ls' : List Lexeme} (h : Spelled cs ls)
    (h' : Spelled cs ls') : ls = ls' := h.lexes.unique h'.lexes

theorem spelled_punctuator {c : Char} (hc : isPunctuator c = true) :
    Spelled [c] [.punctuator (String.ofList [c])] :=
  fun _ _ hrest hls => .punctuator hc (fun _ => hrest.startsWith (by decide)) hls

theorem Lexes.sign {c : Char} (hc : c = '-' ∨ c = '+') {cs : List Char} {ls : List Lexeme}
    (hcs : c = '-' → startsWith (· == '-') cs = false) (h : Lexes cs ls) :
    Lexes (c :: cs) (.operator (String.ofList [c]) :: ls) := by
  have hstart : isIdentifierStart '-' = false ∧ isIdentifierStart '+' = false := by decide
  have hscan : scan c cs = (.operator, [c], cs) := by
    rcases hc with rfl | rfl <;> cases cs <;>
      simp [scan, hstart, isPunctuator, isOperatorPair, isOperator]
  refine .scanned ⟨?_, hcs, ?_⟩ hscan h
  · rcases hc with rfl | rfl <;> decide
  · rcases hc with rfl | rfl <;> simp

end Lexer

open Lexer (Spelled)

namespace Rendering

/-! ### Signs -/

/-- No sign stands in front of a text that starts with a minus. -/
def signsApart : List QueryToken → Bool
  | [] => true
  | t :: ts =>
    !(t == .plain "-" && (ts.flatMap (·.value.toList)).head? == some '-') && signsApart ts

theorem signsApart_append {ts us : List QueryToken} (h : signsApart (ts ++ us) = true) :
    signsApart ts = true ∧ signsApart us = true := by
  induction ts with
  | nil => exact ⟨rfl, h⟩
  | cons t ts ih =>
    obtain ⟨ht, h⟩ := Bool.and_eq_true_iff.1 h
    obtain ⟨hts, hus⟩ := ih h
    refine ⟨Bool.and_eq_true_iff.2 ⟨?_, hts⟩, hus⟩
    -- what stands behind the sign starts as it does in the whole row
    cases hvalues : ts.flatMap (·.value.toList) with
    | nil => simp
    | cons c cs => simpa [hvalues] using ht

theorem signsApart_of_mem {rs : List Rendering} (h : signsApart (rs.flatMap toTokens) = true) :
    ∀ r ∈ rs, signsApart r.toTokens = true := by
  induction rs with
  | nil => exact List.forall_mem_nil _
  | cons r rs ih =>
    obtain ⟨hr, hrs⟩ := signsApart_append h
    exact List.forall_mem_cons.2 ⟨hr, ih hrs⟩

@[simp] theorem signsApart_singleton (t : QueryToken) : signsApart [t] = true := by
  simp [signsApart]

/-- A text starts as its tokens do, unless with a blank. -/
theorem TextOf.head? {ts : List QueryToken} {out : String} (h : TextOf ts out) :
    (out = "" → ts.flatMap (·.value.toList) = []) ∧ ∀ c, c ≠ ' ' → out.toList.head? = some c →
      (ts.flatMap (·.value.toList)).head? = some c := by
  induction h with
  | nil => exact ⟨fun _ => rfl, fun _ _ h => h⟩
  | @glued ts out t _ ih =>
    obtain ⟨hempty, hhead⟩ := ih
    refine ⟨fun h => ?_, fun c hc h => ?_⟩
    · obtain ⟨rfl, ht⟩ := String.append_eq_empty_iff.1 h
      simp [hempty rfl, ht]
    · by_cases hout : out = ""
      · subst hout
        simpa [hempty rfl] using h
      · have hne : out.toList ≠ [] := by simpa using hout
        rw [String.toList_append, List.head?_append_of_ne_nil _ hne] at h
        simp [hhead c hc h]
  | @blank ts out t _ _ _ ih =>
    obtain ⟨hempty, hhead⟩ := ih
    refine ⟨fun h => ?_, fun c hc h => ?_⟩
    · simp [String.append_eq_empty_iff] at h
    · by_cases hout : out = ""
      · subst hout
        exact absurd (by simpa using h) (Ne.symm hc)
      · have hne : out.toList ≠ [] := by simpa using hout
        rw [String.toList_append, String.toList_append, List.append_assoc,
          List.head?_append_of_ne_nil _ hne] at h
        simp [hhead c hc h]

/-- A sign in front of an operand. -/
theorem writes_signed {op : String} (hop : op = "-" ∨ op = "+") {r : Rendering} {ls : List Lexeme}
    (h : r.Writes ls) (hapart : signsApart ((text op).addInline r).toTokens = true) :
    ((text op).addInline r).Writes (.operator op :: ls) := by
  obtain ⟨htokens, s, hadds, hs⟩ := h
  have hplain : (text op).Plain := plain_ofToken rfl
  have hne : op ≠ "" := by
    rcases hop with rfl | rfl <;> decide
  refine ⟨by simp [text], op ++ s, ⟨by simp [String.append_eq_empty_iff, hne], ?_, fun out => ?_⟩,
    fun rest ls' hrest hls => ?_⟩
  · rw [endsWithSpace_append _ hadds.ne_empty, hadds.unspaced]
  · rw [(hplain.addInline (by simp [text]) htokens out).1, renderInto_text, hadds.renders]
    simp only [String.append_assoc]
  · have hbehind := hs hrest hls
    rcases hop with rfl | rfl
    · have hdash : Lexer.startsWith (· == '-') (s.toList ++ rest) = false := by
        have htext := textOf_render r
        rw [render, hadds.renders, String.empty_append] at htext
        obtain ⟨c, cs, hc⟩ := List.exists_cons_of_ne_nil (by simpa using hadds.ne_empty : s.toList ≠ [])
        rw [hc]
        refine beq_eq_false_iff_ne.2 ?_
        rintro rfl
        have hhead := htext.head?.2 '-' (by decide) (by rw [hc]; rfl)
        simp [text, signsApart, QueryToken.plain, hhead] at hapart
      rw [String.toList_append, List.append_assoc]
      exact .sign (.inl rfl) (fun _ => hdash) hbehind
    · rw [String.toList_append, List.append_assoc]
      exact .sign (.inr rfl) (by simp) hbehind

/-! ### Rows -/

/-- The stream is written as these lexemes, as long as no sign in it meets another. -/
structure Conveys (r : Rendering) (ls : List Lexeme) : Prop where
  toTokens : r.toTokens ≠ []
  writes : signsApart r.toTokens = true → r.Writes ls

theorem Writes.conveys {r : Rendering} {ls : List Lexeme} (h : r.Writes ls) : r.Conveys ls :=
  ⟨h.toTokens, fun _ => h⟩

/-- The streams of the row are written as these lexemes, one after the other. -/
inductive Convey : List Rendering → List Lexeme → Prop
  | nil : Convey [] []
  | cons {r : Rendering} {rs : List Rendering} {ls ls' : List Lexeme} :
    r.Conveys ls → Convey rs ls' → Convey (r :: rs) (ls ++ ls')

variable {r s : Rendering} {rs rs' ss ss' : List Rendering} {ls ls' : List Lexeme}

theorem Conveys.convey (h : r.Conveys ls) : Convey [r] ls := by
  simpa using Convey.cons h .nil

theorem convey_singleton (h : Convey [r] ls) : r.Conveys ls := by
  rcases h with _ | ⟨hr, ⟨⟩⟩
  simpa using hr

theorem Convey.append (h : Convey rs ls) (h' : Convey rs' ls') : Convey (rs ++ rs') (ls ++ ls') := by
  induction h with
  | nil => exact h'
  | cons hr _ ih =>
    rw [List.append_assoc]
    exact .cons hr ih

theorem Convey.split (h : Convey (rs ++ rs') ls) :
    ∃ l l', Convey rs l ∧ Convey rs' l' ∧ l ++ l' = ls := by
  induction rs generalizing ls with
  | nil => exact ⟨[], ls, .nil, h, rfl⟩
  | cons r rs ih =>
    rcases h with _ | ⟨hr, h⟩
    obtain ⟨l, l', hl, hl', rfl⟩ := ih h
    exact ⟨_, l', .cons hr hl, hl', List.append_assoc _ _ _⟩

theorem Convey.toTokens (h : Convey rs ls) : ∀ r ∈ rs, r.toTokens ≠ [] := by
  induction h with
  | nil => exact List.forall_mem_nil _
  | cons hr _ ih => exact List.forall_mem_cons.2 ⟨hr.toTokens, ih⟩

theorem Convey.writes (h : Convey rs ls) (hapart : ∀ r ∈ rs, signsApart r.toTokens = true) :
    ∃ lss, List.Forall₂ Writes rs lss ∧ lss.flatten = ls := by
  induction h with
  | nil => exact ⟨[], .nil, rfl⟩
  | @cons r rs ls ls' hr _ ih =>
    obtain ⟨hrapart, hapart⟩ := List.forall_mem_cons.1 hapart
    obtain ⟨lss, hlss, rfl⟩ := ih hapart
    exact ⟨ls :: lss, .cons (hr.writes hrapart) hlss, rfl⟩

/-- The other row conveys what the first one does. -/
def Becomes (rs rs' : List Rendering) : Prop := ∀ ls, Convey rs ls → Convey rs' ls

namespace Becomes

theorem refl (rs : List Rendering) : Becomes rs rs := fun _ => id

theorem trans (h : Becomes rs rs') (h' : Becomes rs' ss) : Becomes rs ss :=
  fun ls hls => h' ls (h ls hls)

theorem append (h : Becomes rs rs') (h' : Becomes ss ss') : Becomes (rs ++ ss) (rs' ++ ss') := by
  intro ls hls
  obtain ⟨l, l', hl, hl', rfl⟩ := hls.split
  exact (h l hl).append (h' l' hl')

theorem cons (r : Rendering) (h : Becomes rs rs') : Becomes (r :: rs) (r :: rs') :=
  (refl [r]).append h

/-- A stream that is put together from those of the row. -/
theorem one (htokens : (∀ s ∈ rs, s.toTokens ≠ []) → r.toTokens ≠ [])
    (hwrites : signsApart r.toTokens = true → (∀ s ∈ rs, signsApart s.toTokens = true) ∧
      ∀ lss, List.Forall₂ Writes rs lss → r.Writes lss.flatten) : Becomes rs [r] := by
  intro ls hls
  refine Conveys.convey ⟨htokens hls.toTokens, fun hapart => ?_⟩
  obtain ⟨hmembers, hrow⟩ := hwrites hapart
  obtain ⟨lss, hlss, rfl⟩ := hls.writes hmembers
  exact hrow lss hlss

end Becomes

/-! ### Streams from rows -/

@[simp] theorem toTokens_word (w : String) : (word w).toTokens = [.expression w] := rfl

@[simp] theorem toTokens_text (s : String) : (text s).toTokens = [.plain s] := rfl

theorem becomes_spaced (r : Rendering) (rs : List Rendering) :
    Becomes (r :: rs) [spaced (r :: rs)] := by
  refine .one (fun h => ?_) fun hapart => ⟨?_, ?_⟩
  · rw [toTokens_spaced]
    simp [h r (List.mem_cons_self ..)]
  · rw [toTokens_spaced] at hapart
    exact signsApart_of_mem hapart
  · rintro _ (_ | ⟨hr, hrs⟩)
    exact writes_spaced hr hrs

theorem becomes_text (w : String) : Becomes [word w] [text w] := by
  refine .one (fun _ => by simp) fun _ => ⟨by simp, ?_⟩
  rintro _ (_ | ⟨hw, _ | _⟩)
  rw [List.flatten_singleton]
  exact writes_text_iff.2 (writes_word_iff.1 hw)

/-- Words that belong together are one. -/
theorem becomes_pair (v w : String) : Becomes [word v, word w] [word (v ++ " " ++ w)] := by
  refine .one (fun _ => by simp) fun _ => ⟨by simp, ?_⟩
  rintro _ (_ | ⟨hv, _ | ⟨hw, _ | _⟩⟩)
  obtain ⟨hv, -, hvs⟩ := writes_word_iff.1 hv
  obtain ⟨hw, hend, hws⟩ := writes_word_iff.1 hw
  refine writes_word (by simp [String.append_eq_empty_iff, hv]) ?_ ?_
  · rw [endsWithSpace_append _ hw, hend]
  · simpa using hvs.spaced hws

theorem becomes_words {ws : List String} (hws : ws ≠ []) :
    Becomes (ws.map word) [word (" ".intercalate ws)] := by
  induction ws with
  | nil => exact absurd rfl hws
  | cons w ws ih =>
    cases ws with
    | nil => exact .refl _
    | cons v ws =>
      rw [String.intercalate_cons_cons]
      exact ((ih (List.cons_ne_nil _ _)).cons (word w)).trans (becomes_pair _ _)

/-- A punctuator as a stream of its own. -/
theorem writes_punctuator {c : Char} (hc : Lexer.isPunctuator c = true)
    (h : (text (String.ofList [c])).Writes ls) : ls = [.punctuator (String.ofList [c])] := by
  have hspelled := (writes_text_iff.1 h).2.2
  rw [String.toList_ofList] at hspelled
  exact hspelled.unique (Lexer.spelled_punctuator hc)

theorem signsApart_parenthesized (h : signsApart (parenthesized r).toTokens = true) :
    signsApart r.toTokens = true := by
  rw [toTokens_parenthesized, List.cons_append] at h
  exact (signsApart_append (Bool.and_eq_true_iff.1 h).2).1

theorem becomes_parenthesized (r : Rendering) :
    Becomes [text "(", r, text ")"] [parenthesized r] := by
  refine .one (fun _ => by simp) fun hapart => ⟨?_, ?_⟩
  · simpa using signsApart_parenthesized hapart
  · rintro _ (_ | ⟨hopen, _ | ⟨hr, _ | ⟨hclose, _ | _⟩⟩⟩)
    obtain rfl := writes_punctuator (c := '(') (by decide) hopen
    obtain rfl := writes_punctuator (c := ')') (by decide) hclose
    simpa using writes_parenthesized hr

theorem becomes_unit : Becomes [text "(", text ")"] [parenthesized .empty] := by
  refine .one (fun _ => by simp) fun hapart => ⟨by simp, ?_⟩
  rintro _ (_ | ⟨hopen, _ | ⟨hclose, _ | _⟩⟩)
  obtain rfl := writes_punctuator (c := '(') (by decide) hopen
  obtain rfl := writes_punctuator (c := ')') (by decide) hclose
  exact @writes_enclosed _ "" [] (fun out => by simp [renderInto]) fun _ _ _ h => h

theorem becomes_call_of (name : String) (r : Rendering) :
    Becomes [text name, parenthesized r] [call name r] := by
  refine .one (fun _ => by simp [call]) fun hapart => ⟨?_, ?_⟩
  · have htokens : (call name r).toTokens = [text name, parenthesized r].flatMap toTokens := by
      simp [call, text]
    rw [htokens] at hapart
    exact signsApart_of_mem hapart
  · rintro _ (_ | ⟨hname, _ | ⟨hr, _ | _⟩⟩)
    simpa using writes_call_of hname hr

/-- Streams with commas between them. -/
def separated : List Rendering → List Rendering
  | [] => []
  | r :: rs => r :: rs.flatMap fun r => [text ",", r]

theorem writes_separated {lss : List (List Lexeme)}
    (h : List.Forall₂ Writes (rs.flatMap fun r => [text ",", r]) lss) :
    ∃ xs : List (Rendering × List Lexeme), xs.map Prod.fst = rs ∧ (∀ x ∈ xs, x.1.Writes x.2) ∧
      lss.flatten = xs.flatMap fun x => .punctuator "," :: x.2 := by
  induction rs generalizing lss with
  | nil =>
    cases h
    exact ⟨[], rfl, List.forall_mem_nil _, rfl⟩
  | cons r rs ih =>
    rcases h with _ | ⟨hcomma, _ | ⟨hr, h⟩⟩
    obtain rfl := writes_punctuator (c := ',') (by decide) hcomma
    obtain ⟨xs, rfl, hxs, htext⟩ := ih h
    refine ⟨(r, _) :: xs, rfl, List.forall_mem_cons.2 ⟨hr, hxs⟩, ?_⟩
    rw [List.flatten_cons, List.flatten_cons, htext]
    rfl

theorem becomes_commaSeparated (r : Rendering) (rs : List Rendering) :
    Becomes (separated (r :: rs)) [commaSeparated (r :: rs)] := by
  intro ls hls
  have hr : r.toTokens ≠ [] := hls.toTokens r (List.mem_cons_self ..)
  refine Becomes.one (fun _ => ?_) (fun hapart => ⟨?_, ?_⟩) ls hls
  · rw [toTokens_commaSeparated hr]
    simp [hr]
  · rw [toTokens_commaSeparated hr] at hapart
    obtain ⟨hfirst, hrest⟩ := signsApart_append hapart
    have hmembers : ∀ s ∈ rs, signsApart s.toTokens = true := by
      clear hapart hls
      induction rs with
      | nil => exact List.forall_mem_nil _
      | cons s rs ih =>
        obtain ⟨hs, hrs⟩ := signsApart_append hrest
        exact List.forall_mem_cons.2 ⟨(Bool.and_eq_true_iff.1 hs).2, ih hrs⟩
    refine List.forall_mem_cons.2 ⟨hfirst, fun s hs => ?_⟩
    obtain ⟨t, ht, hs⟩ := List.mem_flatMap.1 hs
    rcases List.mem_cons.1 hs with rfl | hs
    · exact signsApart_singleton _
    · rw [List.mem_singleton.1 hs]
      exact hmembers t ht
  · rintro _ (_ | ⟨hr, hrs⟩)
    obtain ⟨xs, rfl, hxs, htext⟩ := writes_separated hrs
    rw [List.flatten_cons, htext]
    exact @writes_commaSeparated _ Prod.fst Prod.snd (r, _) xs hr hxs

theorem becomes_list (rs : List Rendering) :
    Becomes (text "(" :: separated rs ++ [text ")"]) [parenthesized (commaSeparated rs)] := by
  cases rs with
  | nil => exact becomes_unit
  | cons r rs =>
    exact (((becomes_commaSeparated r rs).append (.refl [text ")"])).cons _).trans
      (becomes_parenthesized _)

theorem becomes_call (name : String) (rs : List Rendering) :
    Becomes (text name :: text "(" :: separated rs ++ [text ")"]) [call name (commaSeparated rs)] :=
  ((becomes_list rs).cons (text name)).trans (becomes_call_of name _)

theorem becomes_signed {op : String} (hop : op = "-" ∨ op = "+") (r : Rendering) :
    Becomes [text op, r] [(text op).addInline r] := by
  refine .one (fun _ => by simp) fun hapart => ⟨?_, ?_⟩
  · rw [toTokens_addInline] at hapart
    simpa using (signsApart_append hapart).2
  · rintro _ (_ | ⟨hsign, _ | ⟨hr, _ | _⟩⟩)
    have hspelled := (writes_text_iff.1 hsign).2.2.lexes
    have hop' : Lexer.Lexes op.toList [.operator op] := by
      rcases hop with rfl | rfl
      · exact Lexer.Lexes.sign (.inl rfl) (fun _ => rfl) Lexer.lexes_nil
      · exact Lexer.Lexes.sign (.inr rfl) (by simp) Lexer.lexes_nil
    obtain rfl := hspelled.unique hop'
    simpa using writes_signed hop hr hapart

/-- Words in braces. -/
theorem becomes_braces (parts : List String) :
    Becomes (text "\x7b" :: parts.map word ++ [text "\x7d"])
      [text ("\x7b" ++ " ".intercalate parts ++ "\x7d")] := by
  have hbraces {s : String} {ls : List Lexeme} (hs : Spelled s.toList ls) :
      (text ("\x7b" ++ s ++ "\x7d")).Writes (.punctuator "\x7b" :: ls ++ [Lexeme.punctuator "\x7d"]) := by
    refine writes_text (by simp [String.append_eq_empty_iff]) ?_ ?_
    · rw [endsWithSpace_append _ (by decide)]
      rfl
    · simpa using Lexer.spelled_braces hs
  have hinner : Becomes [text "\x7b", word (" ".intercalate parts), text "\x7d"]
      [text ("\x7b" ++ " ".intercalate parts ++ "\x7d")] := by
    refine .one (fun _ => by simp) fun _ => ⟨by simp, ?_⟩
    rintro _ (_ | ⟨hopen, _ | ⟨hs, _ | ⟨hclose, _ | _⟩⟩⟩)
    obtain rfl := writes_punctuator (c := '\x7b') (by decide) hopen
    obtain rfl := writes_punctuator (c := '\x7d') (by decide) hclose
    simpa using hbraces (writes_word_iff.1 hs).2.2
  cases parts with
  | nil =>
    refine .one (fun _ => by simp) fun _ => ⟨by simp, ?_⟩
    rintro _ (_ | ⟨hopen, _ | ⟨hclose, _ | _⟩⟩)
    obtain rfl := writes_punctuator (c := '\x7b') (by decide) hopen
    obtain rfl := writes_punctuator (c := '\x7d') (by decide) hclose
    exact @hbraces "" [] fun _ _ _ h => h
  | cons part parts =>
    exact (((becomes_words (List.cons_ne_nil part parts)).append (.refl [text "\x7d"])).cons _).trans
      hinner

end Rendering

end Jpql
