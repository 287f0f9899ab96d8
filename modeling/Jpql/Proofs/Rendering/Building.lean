import Jpql.Statement.Printer

/-! The tokens and the texts of streams that are put together. Streams with blanks between them are
written one after the other, each behind a blank unless one stands there already; streams with
commas between them and the arguments of a call are written without any further blanks. -/

namespace Jpql.Rendering

/-! ### Tokens -/

@[simp] theorem toTokens_ofToken (t : QueryToken) : (ofToken t).toTokens = [t] := rfl

theorem toTokens_spaced (rs : List Rendering) : (spaced rs).toTokens = rs.flatMap toTokens := by
  have h (acc : Rendering) :
      (rs.foldl addExpression acc).toTokens = acc.toTokens ++ rs.flatMap toTokens := by
    induction rs generalizing acc with
    | nil => simp
    | cons r rs ih => simp [ih]
  simpa [spaced, toTokens] using h .empty

@[simp] theorem toTokens_parenthesized (r : Rendering) :
    (parenthesized r).toTokens = .openParen :: r.toTokens ++ [QueryToken.closeParen] := by
  simp [parenthesized, addToken]

/-- Once a stream has tokens, each further item brings its separator along. -/
theorem toTokens_joinWith_foldl {post : Rendering → Rendering}
    (hpost : ∀ r, (post r).toTokens = r.toTokens) (sep : QueryToken) (items : List Rendering)
    {acc : Rendering} (hacc : acc.toTokens ≠ []) :
    (items.foldl (fun acc item =>
      (if acc.isEmpty then acc else acc.addToken sep).add (post item)) acc).toTokens =
      acc.toTokens ++ items.flatMap fun r => sep :: r.toTokens := by
  induction items generalizing acc with
  | nil => simp
  | cons r rs ih =>
    have hne : acc.isEmpty = false := by simpa using mt (isEmpty_iff acc).1 hacc
    rw [List.foldl_cons, ih (by simp [hne, addToken])]
    simp [hne, addToken, hpost]

theorem toTokens_commaSeparated {r : Rendering} (hr : r.toTokens ≠ []) (rs : List Rendering) :
    (commaSeparated (r :: rs)).toTokens =
      r.toTokens ++ rs.flatMap fun r => .comma :: r.toTokens := by
  have hempty : isEmpty .empty = true := rfl
  have hfirst (s : Rendering) : (addExpression .empty s).toTokens = s.toTokens := by
    simp [toTokens]
  rw [commaSeparated, concat, joinWith, List.map_cons, List.foldl_cons,
    toTokens_joinWith_foldl toTokens_toInline]
  · simp [hempty, hfirst, toTokens, List.flatMap_map]
  · simpa [hempty, hfirst, toTokens] using hr

/-! ### Texts -/

/-- A text with a blank at its end. -/
def spaceEnded (out : String) : String := if endsWithSpace out then out else out ++ " "

theorem isEmpty_eq_false {r : Rendering} (h : r.toTokens ≠ []) : r.isEmpty = false := by
  simpa using mt (isEmpty_iff r).1 h

@[simp] theorem renderInto_toInline (out : String) (r : Rendering) :
    renderInto out r.toInline = renderInto out r := by
  cases r <;> simp [toInline, renderInto]

@[simp] theorem renderInto_toExpression (out : String) (r : Rendering) :
    renderInto out r.toExpression = renderInto out r := by
  cases r <;> simp [toExpression, renderInto]

@[simp] theorem renderInto_word (out w : String) : renderInto out (word w) = out ++ w := by
  simp [word, ofToken, renderInto, renderTokens, QueryToken.expression]

@[simp] theorem renderInto_text (out s : String) : renderInto out (text s) = out ++ s := by
  simp [text, ofToken, renderInto, renderTokens, QueryToken.plain]

theorem exists_renderTokens (out : String) (wants : Bool) (ts : List QueryToken) :
    ∃ s, renderTokens out wants ts = out ++ s := by
  induction ts generalizing out wants with
  | nil => exact ⟨"", by simp [renderTokens]⟩
  | cons t ts ih =>
    obtain ⟨s, hs⟩ := ih (out ++ (if wants && !out.isEmpty && !endsWithSpace out then " " else "") ++
      t.value) t.isExpression
    exact ⟨_, by rw [renderTokens, hs, String.append_assoc, String.append_assoc]⟩

mutual

/-- Writing a stream only adds to the text. -/
theorem exists_renderInto (out : String) : (r : Rendering) → ∃ s, renderInto out r = out ++ s
  | .empty => ⟨"", by simp [renderInto]⟩
  | .tokens ts => exists_renderTokens out false ts
  | .composite parts => exists_renderParts out none parts
  | .inline r => exists_renderInto out r
  | .expression r => exists_renderInto out r

theorem exists_renderParts (out : String) (last : Option Bool) :
    (rs : List Rendering) → ∃ s, renderParts out last rs = out ++ s
  | [] => ⟨"", by simp [renderParts]⟩
  | r :: rs => by
    simp only [renderParts]
    split
    · exact exists_renderParts out last rs
    · obtain ⟨s, hs⟩ := exists_renderInto (out ++ _) r
      obtain ⟨s', hs'⟩ := exists_renderParts (renderInto (out ++ _) r) (some r.isExpression) rs
      exact ⟨_, by rw [hs', hs, String.append_assoc, String.append_assoc]⟩

end

mutual

/-- A stream without tokens is written as nothing. -/
theorem renderInto_of_isEmpty (out : String) :
    (r : Rendering) → r.isEmpty = true → renderInto out r = out
  | .empty, _ => rfl
  | .tokens [], _ => rfl
  | .composite parts, h => renderParts_of_allEmpty out none parts h
  | .inline r, h => renderInto_of_isEmpty out r h
  | .expression r, h => renderInto_of_isEmpty out r h

theorem renderParts_of_allEmpty (out : String) (last : Option Bool) :
    (rs : List Rendering) → allEmpty rs = true → renderParts out last rs = out
  | [], _ => rfl
  | r :: rs, h => by
    obtain ⟨hr, hrs⟩ : r.isEmpty = true ∧ allEmpty rs = true := by simpa [allEmpty] using h
    simp only [renderParts, hr, if_true]
    exact renderParts_of_allEmpty out last rs hrs

end

theorem renderParts_singleton (out : String) (r : Rendering) :
    renderParts out none [r] = renderInto out r := by
  simp only [renderParts]
  split
  next h => exact (renderInto_of_isEmpty out r h).symm
  next => simp

theorem renderInto_ne_empty {out : String} (h : out ≠ "") (r : Rendering) :
    renderInto out r ≠ "" := by
  obtain ⟨s, hs⟩ := exists_renderInto out r
  rw [hs]
  exact fun h' => h (String.append_eq_empty_iff.1 h').1

theorem spaceEnded_ne_empty {out : String} (h : out ≠ "") : spaceEnded out ≠ "" := by
  unfold spaceEnded
  split
  · exact h
  · exact fun h' => h (String.append_eq_empty_iff.1 h').1

theorem append_gap (out : String) :
    (out ++ if !endsWithSpace out then " " else "") = spaceEnded out := by
  unfold spaceEnded
  cases endsWithSpace out <;> simp

theorem renderTokens_append (out : String) (wants : Bool) (ts us : List QueryToken) :
    renderTokens out wants (ts ++ us) =
      renderTokens (renderTokens out wants ts) ((ts.getLast?.map (·.isExpression)).getD wants) us := by
  induction ts generalizing out wants with
  | nil => rfl
  | cons t ts ih =>
    rw [List.cons_append, renderTokens, renderTokens, ih]
    cases ts with
    | nil => simp
    | cons u ts => simp [List.getLast?_cons]

/-- Tokens behind a token that asks for a blank. -/
theorem renderTokens_wanting {out : String} (hout : out ≠ "") {ts : List QueryToken}
    (hts : ts ≠ []) : renderTokens out true ts = renderTokens (spaceEnded out) false ts := by
  obtain ⟨t, ts, rfl⟩ := List.exists_cons_of_ne_nil hts
  have hfull : out.isEmpty = false := by simpa using hout
  simp only [renderTokens, hfull, Bool.not_false, Bool.true_and]
  rw [append_gap]
  simp

/-- A stream that asks for a blank, behind a stream that is no mere list of tokens. -/
theorem renderParts_append {out : String} {last : Option Bool} {rs : List Rendering} {s : Rendering}
    (hrs : allTokens rs ≠ []) (hs : s.toTokens ≠ []) (he : s.isExpression = true) :
    renderParts out last (rs ++ [s]) = renderInto (spaceEnded (renderParts out last rs)) s := by
  have hsome : ∀ {out} {rs : List Rendering} (wasExpression : Bool),
      renderParts out (some wasExpression) (rs ++ [s]) =
        renderInto (spaceEnded (renderParts out (some wasExpression) rs)) s := by
    intro out rs wasExpression
    induction rs generalizing out wasExpression with
    | nil =>
      simp only [List.nil_append, renderParts, isEmpty_eq_false hs, he, Bool.or_true, Bool.true_and,
        Bool.false_eq_true, if_false]
      rw [append_gap]
    | cons r rs ih =>
      simp only [List.cons_append, renderParts]
      split
      · exact ih wasExpression
      · exact ih _
  induction rs generalizing out last with
  | nil => exact absurd rfl hrs
  | cons r rs ih =>
    simp only [List.cons_append, renderParts]
    split
    next hempty =>
      refine ih fun hnil => hrs ?_
      rw [allTokens, hnil, (isEmpty_iff r).1 hempty, List.append_nil]
    next => exact hsome _

theorem ne_empty_of_toTokens {s : Rendering} (hs : s.toTokens ≠ []) : s ≠ .empty := by
  rintro rfl
  exact hs rfl

theorem append_empty (r : Rendering) : r.append .empty = r := by
  cases r <;> rfl

theorem composite_append (parts : List Rendering) {s : Rendering} (hs : s ≠ .empty) :
    (composite parts).append s = .composite (parts ++ [s]) := by
  cases s <;> first | rfl | exact absurd rfl hs

theorem expression_append (r : Rendering) {s : Rendering} (hs : s ≠ .empty) :
    (expression r).append s = .composite [.expression r, s] := by
  cases s <;> first | rfl | exact absurd rfl hs

theorem inline_append (r : Rendering) {s : Rendering} (hs : s ≠ .empty) :
    (inline r).append s = .composite [.inline r, s] := by
  cases s <;> first | rfl | exact absurd rfl hs

/-- Two runs of tokens become one; otherwise the second stream is the last part of the result. -/
theorem append_cases (r s : Rendering) :
    r = .empty ∧ r.append s = s ∨ s = .empty ∧ r.append s = r ∨
    (∃ ts us, r = .tokens ts ∧ s = .tokens us ∧ r.append s = .tokens (ts ++ us)) ∨
    ∃ parts, allEmpty parts = r.isEmpty ∧ (∀ out, renderParts out none parts = renderInto out r) ∧
      r.append s = .composite (parts ++ [s]) := by
  by_cases hs : s = .empty
  · rw [hs]
    exact .inr (.inl ⟨rfl, append_empty r⟩)
  have hpair (h : r.append s = .composite [r, s]) :
      ∃ parts, allEmpty parts = r.isEmpty ∧
        (∀ out, renderParts out none parts = renderInto out r) ∧
        r.append s = .composite (parts ++ [s]) :=
    ⟨[r], by simp [allEmpty], fun out => renderParts_singleton out r, h⟩
  cases r with
  | empty => exact .inl ⟨rfl, rfl⟩
  | composite parts =>
    exact .inr (.inr (.inr ⟨parts, rfl, fun _ => rfl, composite_append parts hs⟩))
  | inline r => exact .inr (.inr (.inr (hpair (inline_append r hs))))
  | expression r => exact .inr (.inr (.inr (hpair (expression_append r hs))))
  | tokens ts =>
    cases s with
    | empty => exact absurd rfl hs
    | tokens us => exact .inr (.inr (.inl ⟨ts, us, rfl, rfl, rfl⟩))
    | _ => exact .inr (.inr (.inr (hpair rfl)))

/-- A stream can be gone on with: if it is a mere list of tokens, the last asks for a blank. -/
def GoesOn (r : Rendering) : Prop := ∀ ts, r = .tokens ts → r.isExpression = true

theorem renderInto_append {out : String} {r s : Rendering} (hr : r.toTokens ≠ [])
    (hgo : r.GoesOn) (hs : s.toTokens ≠ []) (he : s.isExpression = true)
    (hout : renderInto out r ≠ "") :
    renderInto out (r.append s) = renderInto (spaceEnded (renderInto out r)) s ∧
      (r.append s).GoesOn := by
  obtain ⟨rfl, -⟩ | ⟨rfl, -⟩ | ⟨ts, us, rfl, rfl, happend⟩ | ⟨parts, hempty, hparts, happend⟩ :=
    append_cases r s
  · exact absurd rfl hr
  · exact absurd rfl hs
  · have hlast := hgo ts rfl
    simp only [isExpression] at hlast he
    rcases ht : ts.getLast? with _ | t
    · simp [ht] at hlast
    rw [ht] at hlast
    rw [Option.any_some] at hlast
    rw [happend]
    refine ⟨?_, fun vs _ => ?_⟩
    · simp only [renderInto, renderTokens_append, ht, Option.map_some, Option.getD_some, hlast]
      exact renderTokens_wanting hout hs
    rcases hu : us.getLast? with _ | u
    · simp [hu] at he
    · simpa [isExpression, List.getLast?_append, hu] using he
  · have hfull : allTokens parts ≠ [] := by
      rwa [ne_eq, ← allEmpty_iff, hempty, isEmpty_iff]
    rw [happend, ← hparts out]
    exact ⟨renderParts_append hfull hs he, nofun⟩

theorem exists_addExpression (r : Rendering) {s : Rendering} (hs : s.toTokens ≠ []) :
    ∃ s', r.addExpression s = r.append s' ∧ s'.toTokens ≠ [] ∧ s'.isExpression = true ∧
      ∀ out, renderInto out s' = renderInto out s := by
  refine ⟨if s.isExpression then s else s.toExpression, ?_, ?_, ?_, fun out => ?_⟩
  · rw [addExpression, add, isEmpty_eq_false (by split <;> simpa using hs)]
    rfl
  · split <;> simpa using hs
  · split
    next h => exact h
    next => cases s <;> first | rfl | exact absurd rfl hs
  · split <;> simp

/-- Streams with blanks between them, each behind a blank. -/
theorem renderInto_spaced {out : String} {r : Rendering} {rs : List Rendering}
    (hr : r.toTokens ≠ []) (hrs : ∀ s ∈ rs, s.toTokens ≠ []) (hout : renderInto out r ≠ "") :
    renderInto out (spaced (r :: rs)) =
      rs.foldl (fun out s => renderInto (spaceEnded out) s) (renderInto out r) := by
  have hfold : ∀ {r : Rendering}, r.toTokens ≠ [] → r.GoesOn → renderInto out r ≠ "" →
      renderInto out (rs.foldl addExpression r) =
        rs.foldl (fun out s => renderInto (spaceEnded out) s) (renderInto out r) := by
    induction rs with
    | nil => intros; rfl
    | cons s rs ih =>
      intro r hr hgo hout
      obtain ⟨s', happend, hs', he, hsame⟩ := exists_addExpression r (hrs s (by simp))
      obtain ⟨htext, hgo'⟩ := renderInto_append hr hgo hs' he hout
      rw [hsame] at htext
      rw [List.foldl_cons, List.foldl_cons, happend, ih (fun s h => hrs s (by simp [h])) _ hgo',
        htext]
      · rw [htext]
        exact renderInto_ne_empty (spaceEnded_ne_empty hout) s
      · simp [hr]
  have hfirst : addExpression .empty r = if r.isExpression then r else r.toExpression := by
    rw [addExpression, add, isEmpty_eq_false (by split <;> simpa using hr)]
    rfl
  rw [spaced, List.foldl_cons, hfirst, hfold]
  · split <;> simp
  · split <;> simpa using hr
  · split
    next h => exact fun _ _ => h
    next h => exact fun ts hts => by cases r <;> cases hts
  · split <;> simpa using hout

/-- Streams with blanks between them behind a stream that asks for none, which may be written as
nothing. -/
theorem renderInto_spaced_plain {out : String} {r s : Rendering} {rs : List Rendering}
    (hr : r.toTokens ≠ []) (hplain : r.isExpression = false) (hs : s.toTokens ≠ [])
    (hrs : ∀ s ∈ rs, s.toTokens ≠ []) :
    renderInto out (spaced (r :: s :: rs)) =
      (s :: rs).foldl (fun out s => renderInto (spaceEnded out) s) (renderInto out r) := by
  have hfold : ∀ {parts : List Rendering}, allTokens parts ≠ [] →
      renderInto out (rs.foldl addExpression (.composite parts)) =
        rs.foldl (fun out s => renderInto (spaceEnded out) s) (renderInto out (.composite parts)) := by
    induction rs with
    | nil => intros; rfl
    | cons s rs ih =>
      intro parts hparts
      obtain ⟨s', happend, hs', he, hsame⟩ := exists_addExpression (.composite parts) (hrs s (by simp))
      have hcomposite : (composite parts).append s' = composite (parts ++ [s']) :=
        composite_append parts (ne_empty_of_toTokens hs')
      have htext : renderInto out (composite (parts ++ [s'])) =
          renderInto (spaceEnded (renderInto out (composite parts))) s' :=
        renderParts_append hparts hs' he
      rw [List.foldl_cons, List.foldl_cons, happend, hcomposite,
        ih (fun s h => hrs s (by simp [h])) (by simp [allTokens_append, hparts]), htext, hsame]
  obtain ⟨r', hfirst, hr', hnested⟩ : ∃ r', addExpression .empty r = r' ∧ r'.toTokens ≠ [] ∧
      ∃ r'', r' = .expression r'' ∧ ∀ out, renderInto out r'' = renderInto out r := by
    refine ⟨_, rfl, by simpa [toTokens] using hr, ?_⟩
    rw [addExpression, hplain, if_neg Bool.false_ne_true, add, isEmpty_eq_false (by simpa using hr)]
    cases r with
    | empty => exact absurd rfl hr
    | expression r => cases hplain
    | _ => exact ⟨_, rfl, fun _ => rfl⟩
  obtain ⟨r'', rfl, hsame⟩ := hnested
  obtain ⟨s', happend, hs', he, hsame'⟩ := exists_addExpression (.expression r'') hs
  have hpair : (expression r'').append s' = composite [expression r'', s'] :=
    expression_append r'' (ne_empty_of_toTokens hs')
  have hone : renderParts out none [expression r''] = renderInto out r :=
    (renderParts_singleton out (expression r'')).trans (hsame out)
  have hparts : allTokens [expression r''] ≠ [] := by simpa [allTokens] using hr'
  have htext : renderInto out (composite [expression r'', s']) =
      renderInto (spaceEnded (renderInto out r)) s := by
    rw [← hone, ← hsame']
    exact renderParts_append hparts hs' he
  rw [spaced, List.foldl_cons, List.foldl_cons, hfirst, happend, hpair,
    hfold (by simpa [allTokens] using fun h => absurd h hr'), htext]
  rfl

/-! ### Streams without blanks of their own -/

/-- Streams none of which asks for a blank are written one after the other. -/
theorem renderParts_plain {rs : List Rendering}
    (h : ∀ r ∈ rs, r.toTokens ≠ [] ∧ r.isExpression = false) {last : Option Bool}
    (hlast : last ≠ some true) (out : String) :
    renderParts out last rs = rs.foldl renderInto out := by
  induction rs generalizing out last with
  | nil => rfl
  | cons r rs ih =>
    obtain ⟨hr, hplain⟩ := h r (by simp)
    simp only [renderParts, isEmpty_eq_false hr, Bool.false_eq_true, if_false, List.foldl_cons]
    rw [ih (fun r hr => h r (by simp [hr])) (by simp [hplain])]
    rcases last with _ | _ | _ <;> simp_all

theorem lastIsExpression_append (rs : List Rendering) (s : Rendering) :
    lastIsExpression (rs ++ [s]) = s.isExpression := by
  induction rs with
  | nil => simp [lastIsExpression]
  | cons r rs ih => simp [lastIsExpression, ih]

/-- Neither the stream nor a part of it asks for a blank. -/
structure Plain (r : Rendering) : Prop where
  isExpression : r.isExpression = false
  parts : ∀ rs, r = .composite rs → ∀ s ∈ rs, s.toTokens ≠ [] ∧ s.isExpression = false

theorem Plain.append {r s : Rendering} (h : r.Plain) (hr : r.toTokens ≠ []) (hs : s.toTokens ≠ [])
    (he : s.isExpression = false) (out : String) :
    renderInto out (r.append s) = renderInto (renderInto out r) s ∧ (r.append s).Plain := by
  have hcomposite {rs : List Rendering} (hrs : ∀ s ∈ rs, s.toTokens ≠ [] ∧ s.isExpression = false) :
      renderParts out none (rs ++ [s]) = renderInto (rs.foldl renderInto out) s ∧
        (composite (rs ++ [s])).Plain := by
    have hall : ∀ s' ∈ rs ++ [s], s'.toTokens ≠ [] ∧ s'.isExpression = false := by
      simpa [or_imp, forall_and, hs, he] using hrs
    refine ⟨?_, ⟨?_, ?_⟩⟩
    · rw [renderParts_plain hall (by simp), List.foldl_append]
      rfl
    · rw [Rendering.isExpression, lastIsExpression_append, he]
    · rintro _ ⟨⟩
      exact hall
  have hpair : renderParts out none [r, s] = renderInto (renderInto out r) s ∧
      (composite [r, s]).Plain :=
    @hcomposite [r] (by simp [hr, h.isExpression])
  cases r with
  | empty => exact absurd rfl hr
  | expression r => exact absurd h.isExpression (by simp [Rendering.isExpression])
  | inline r =>
    rw [inline_append r (ne_empty_of_toTokens hs)]
    exact hpair
  | composite rs =>
    have hparts := h.parts rs rfl
    have htext : renderInto out (composite rs) = rs.foldl renderInto out :=
      renderParts_plain hparts (by simp) out
    rw [htext, composite_append rs (ne_empty_of_toTokens hs)]
    exact hcomposite hparts
  | tokens ts =>
    cases s with
    | empty => exact absurd rfl hs
    | tokens us =>
      have hlast : ts.getLast?.any (·.isExpression) = false := h.isExpression
      have hwants : (ts.getLast?.map (·.isExpression)).getD false = false := by
        rw [← hlast]
        cases ts.getLast? <;> rfl
      refine ⟨?_, ⟨?_, nofun⟩⟩
      · simp only [Rendering.append, renderInto, renderTokens_append, hwants]
      · rcases hu : us.getLast? with _ | u
        · exact absurd (List.getLast?_eq_none_iff.1 hu) hs
        · simpa [Rendering.append, Rendering.isExpression, List.getLast?_append, hu] using he
    | _ => exact hpair

theorem plain_ofToken {t : QueryToken} (h : t.isExpression = false) : (ofToken t).Plain :=
  ⟨by simpa [ofToken, Rendering.isExpression] using h, nofun⟩

/-- A stream appended inline is written right behind the other. -/
theorem Plain.addInline {r s : Rendering} (h : r.Plain) (hr : r.toTokens ≠ []) (hs : s.toTokens ≠ [])
    (out : String) : renderInto out (r.addInline s) = renderInto (renderInto out r) s ∧
      (r.addInline s).Plain := by
  have hinner : ∃ s', r.addInline s = r.append s' ∧
      s'.toTokens ≠ [] ∧ s'.isExpression = false ∧ ∀ out, renderInto out s' = renderInto out s := by
    refine ⟨if s.isExpression then s.toInline else s, ?_, ?_, ?_, fun out => ?_⟩
    · rw [Rendering.addInline, add, isEmpty_eq_false (by split <;> simpa using hs)]
      rfl
    · split <;> simpa using hs
    · split
      next => cases s <;> rfl
      next h => simpa using h
    · split <;> simp
  obtain ⟨s', happend, hs', he, hsame⟩ := hinner
  obtain ⟨htext, hplain⟩ := h.append hr hs' he out
  rw [happend, htext, hsame]
  exact ⟨rfl, hplain⟩

theorem renderInto_parenthesized (r : Rendering) (out : String) :
    renderInto out (parenthesized r) = renderInto (out ++ "(") r ++ ")" ∧
      (parenthesized r).Plain := by
  have hopen : (ofToken .openParen).Plain := plain_ofToken rfl
  have hopenText : renderInto out (ofToken .openParen) = out ++ "(" := renderInto_text out "("
  have hcloseText (out : String) : renderInto out (ofToken .closeParen) = out ++ ")" :=
    renderInto_text out ")"
  have hinner : renderInto out ((ofToken .openParen).addInline r) = renderInto (out ++ "(") r ∧
      ((ofToken .openParen).addInline r).Plain := by
    by_cases hr : r.toTokens = []
    · have hempty : r.isEmpty = true := (isEmpty_iff r).2 hr
      have hadd : (ofToken .openParen).addInline r = ofToken .openParen := by
        rw [Rendering.addInline, add, if_pos]
        split
        · rwa [isEmpty_iff, toTokens_toInline]
        · exact hempty
      rw [hadd, renderInto_of_isEmpty _ r hempty]
      exact ⟨hopenText, hopen⟩
    · obtain ⟨htext, hplain⟩ := hopen.addInline (by simp) hr out
      rw [htext, hopenText]
      exact ⟨rfl, hplain⟩
  obtain ⟨htext, hplain⟩ := hinner
  obtain ⟨hclosed, hplain'⟩ := hplain.append (s := ofToken .closeParen) (by simp) (by simp) rfl out
  have hparens : parenthesized r =
      ((ofToken .openParen).addInline r).append (ofToken .closeParen) := by
    rw [parenthesized, addToken, add]
    rfl
  rw [hparens, hclosed, htext, hcloseText]
  exact ⟨rfl, hplain'⟩

theorem renderInto_call_parenthesized (name : String) (r : Rendering) (out : String) :
    renderInto out (call name r) = renderInto (out ++ name) (parenthesized r) := by
  have hname : (ofToken (.plain name)).Plain := plain_ofToken rfl
  have happend : call name r = (ofToken (.plain name)).append (parenthesized r) := by
    rw [call, add, isEmpty_eq_false (by simp)]
    rfl
  rw [happend, (hname.append (by simp) (by simp)
    (renderInto_parenthesized r out).2.isExpression out).1]
  congr 1
  exact renderInto_text out name

theorem renderInto_call (name : String) (r : Rendering) (out : String) :
    renderInto out (call name r) = renderInto (out ++ name ++ "(") r ++ ")" := by
  rw [renderInto_call_parenthesized, (renderInto_parenthesized r _).1]

/-- Streams with commas between them. -/
theorem renderInto_commaSeparated {r : Rendering} {rs : List Rendering} (hr : r.toTokens ≠ [])
    (hrs : ∀ s ∈ rs, s.toTokens ≠ []) (out : String) :
    renderInto out (commaSeparated (r :: rs)) =
      rs.foldl (fun out s => renderInto (out ++ ", ") s) (renderInto out r) := by
  -- every item is written as an inline stream
  have hitem {s : Rendering} (hs : s.toTokens ≠ []) :
      ∃ s', (addExpression .empty s).toInline = s' ∧ s'.toTokens ≠ [] ∧ s'.Plain ∧
        (∀ acc : Rendering, acc.add s' = acc.append s') ∧
          ∀ out, renderInto out s' = renderInto out s := by
    have hexp : addExpression .empty s = if s.isExpression then s else s.toExpression := by
      rw [addExpression, add, isEmpty_eq_false (by split <;> simpa using hs)]
      rfl
    have hne : (addExpression .empty s).toInline.toTokens ≠ [] := by simpa [toTokens] using hs
    refine ⟨_, rfl, hne, ?_, fun acc => ?_, fun out => ?_⟩
    · have hinline : ∃ t, (addExpression .empty s).toInline = .inline t := by
        cases h : addExpression .empty s with
        | empty => exact absurd (by rw [h]; rfl) hne
        | inline t => exact ⟨t, rfl⟩
        | _ => exact ⟨_, rfl⟩
      obtain ⟨t, ht⟩ := hinline
      rw [ht]
      exact ⟨rfl, nofun⟩
    · rw [add, isEmpty_eq_false hne]
      rfl
    · rw [renderInto_toInline, hexp]
      split <;> simp
  have hfold : ∀ {acc : Rendering}, acc.toTokens ≠ [] → acc.Plain →
      renderInto out ((rs.map fun r => addExpression .empty r).foldl (fun acc item =>
        (if acc.isEmpty then acc else acc.addToken .comma).add item.toInline) acc) =
        rs.foldl (fun out s => renderInto (out ++ ", ") s) (renderInto out acc) := by
    induction rs with
    | nil => intros; rfl
    | cons s rs ih =>
      intro acc hacc hplain
      obtain ⟨s', hinline, hs', hplain', hadd, hsame⟩ := hitem (hrs s (by simp))
      have hcomma : acc.addToken .comma = acc.append (ofToken .comma) := by
        rw [addToken, add]
        rfl
      obtain ⟨htext, hp⟩ := hplain.append hacc (s := ofToken .comma) (by simp) rfl out
      obtain ⟨htext', hp'⟩ := hp.append (by simp) hs' hplain'.isExpression out
      have hcommaText (out : String) : renderInto out (ofToken .comma) = out ++ ", " :=
        renderInto_text out ", "
      rw [List.map_cons, List.foldl_cons, isEmpty_eq_false hacc, hinline, if_neg (by simp), hadd,
        hcomma, ih (fun s h => hrs s (by simp [h])) (by simp) hp', htext', htext, hsame,
        hcommaText]
      rfl
  obtain ⟨r', hinline, hr', hplain', hadd, hsame⟩ := hitem hr
  have hempty : isEmpty .empty = true := rfl
  rw [commaSeparated, concat, joinWith, List.map_cons, List.foldl_cons, hempty, if_pos rfl, hinline,
    hadd, ← hsame]
  exact hfold hr' hplain'

end Jpql.Rendering
