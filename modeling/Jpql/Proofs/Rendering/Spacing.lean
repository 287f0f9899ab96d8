import Jpql.Proofs.Rendering.Building
import Mathlib.Data.List.Flatten

/-! The text of a stream and its tokens. However a stream is put together, it has the tokens of its
parts in order, and it is written as these tokens with at most one blank between two of them. A part
without tokens leaves no trace in the text; but it may stand behind a separator, and it may take the
claim to a blank from the stream that it is appended to. -/

namespace Jpql.Rendering

/-! ### Blanks between tokens -/

/-- The text is written as the tokens: their values in order, with at most one blank between two of
them, and none where the text ends with a blank already. -/
inductive TextOf : List QueryToken → String → Prop
  | nil : TextOf [] ""
  | glued {ts : List QueryToken} {out : String} (t : QueryToken) (h : TextOf ts out) :
      TextOf (ts ++ [t]) (out ++ t.value)
  | blank {ts : List QueryToken} {out : String} (t : QueryToken) (h : TextOf ts out) (hts : ts ≠ [])
      (hend : endsWithSpace out = false) : TextOf (ts ++ [t]) (out ++ " " ++ t.value)

/-- The text is written as the tokens, perhaps with the blank in front of the next one. That blank is
written where two streams meet, so it may come long before the token inside the second. -/
inductive Awaits (ts : List QueryToken) : String → Prop
  | glued {out : String} (h : TextOf ts out) : Awaits ts out
  | blank {out : String} (h : TextOf ts out) (hts : ts ≠ []) (hend : endsWithSpace out = false) :
      Awaits ts (out ++ " ")

variable {ts : List QueryToken} {out : String}

theorem Awaits.token (h : Awaits ts out) (t : QueryToken) : TextOf (ts ++ [t]) (out ++ t.value) := by
  cases h with
  | glued h => exact .glued t h
  | blank h hts hend => exact .blank t h hts hend

theorem TextOf.gap (h : TextOf ts out) (wanted : Bool)
    (hwanted : wanted = true → ts ≠ [] ∧ endsWithSpace out = false) :
    Awaits ts (out ++ if wanted then " " else "") := by
  cases wanted with
  | true => exact .blank h (hwanted rfl).1 (hwanted rfl).2
  | false => simpa using Awaits.glued h

theorem TextOf.renderTokens (h : TextOf ts out) (hts : ts ≠ []) (wants : Bool)
    (us : List QueryToken) : TextOf (ts ++ us) (renderTokens out wants us) := by
  induction us generalizing ts out wants with
  | nil => simpa [Rendering.renderTokens] using h
  | cons u us ih =>
    have hgap := h.gap (wants && !out.isEmpty && !endsWithSpace out)
      fun hwanted => ⟨hts, by simp_all⟩
    simpa [Rendering.renderTokens] using ih (hgap.token u) (by simp) u.isExpression

theorem Awaits.renderTokens (h : Awaits ts out) {us : List QueryToken} (hus : us ≠ []) :
    TextOf (ts ++ us) (renderTokens out false us) := by
  obtain ⟨u, us, rfl⟩ := List.exists_cons_of_ne_nil hus
  simpa [Rendering.renderTokens] using (h.token u).renderTokens (by simp) u.isExpression us

mutual

/-- A stream with tokens goes on behind the text of the tokens before it, and behind a blank that
stands there for its first token. -/
theorem Awaits.renderInto {ts : List QueryToken} {out : String} (h : Awaits ts out) :
    (r : Rendering) → r.toTokens ≠ [] → TextOf (ts ++ r.toTokens) (renderInto out r)
  | .empty, hr => absurd rfl hr
  | .tokens _, hr => h.renderTokens hr
  | .composite parts, hr => h.renderParts parts hr
  | .inline r, hr => h.renderInto r hr
  | .expression r, hr => h.renderInto r hr

theorem Awaits.renderParts {ts : List QueryToken} {out : String} (h : Awaits ts out) :
    (rs : List Rendering) → allTokens rs ≠ [] →
      TextOf (ts ++ allTokens rs) (renderParts out none rs)
  | [], hrs => absurd rfl hrs
  | r :: rs, hrs => by
    simp only [Rendering.renderParts, allTokens]
    split
    next hempty =>
      have hr := (isEmpty_iff r).1 hempty
      simpa [hr] using h.renderParts rs (by simpa [allTokens, hr] using hrs)
    next hempty =>
      have hr : r.toTokens ≠ [] := mt (isEmpty_iff r).2 hempty
      have hfirst := h.renderInto r hr
      simpa using hfirst.renderParts (by simp [hr]) r.isExpression rs

/-- Behind a stream with tokens a blank may go in front of the next. -/
theorem TextOf.renderParts {ts : List QueryToken} {out : String} (h : TextOf ts out)
    (hts : ts ≠ []) (last : Bool) :
    (rs : List Rendering) → TextOf (ts ++ allTokens rs) (renderParts out (some last) rs)
  | [] => by simpa [Rendering.renderParts, allTokens] using h
  | r :: rs => by
    simp only [Rendering.renderParts, allTokens]
    split
    next hempty => simpa [(isEmpty_iff r).1 hempty] using h.renderParts hts last rs
    next hempty =>
      have hr : r.toTokens ≠ [] := mt (isEmpty_iff r).2 hempty
      have hgap := h.gap ((last || r.isExpression) && !endsWithSpace out)
        fun hwanted => ⟨hts, by simp_all⟩
      have hnext := hgap.renderInto r hr
      simpa using hnext.renderParts (by simp [hr]) r.isExpression rs

end

theorem textOf_render (r : Rendering) : TextOf r.toTokens r.render := by
  by_cases hr : r.toTokens = []
  · rw [hr, render, renderInto_of_isEmpty _ r ((isEmpty_iff r).2 hr)]
    exact .nil
  · exact (Awaits.glued .nil).renderInto r hr

/-! ### Streams without tokens -/

theorem renderParts_append_of_isEmpty {s : Rendering} (hs : s.isEmpty = true) (out : String)
    (last : Option Bool) (rs : List Rendering) :
    renderParts out last (rs ++ [s]) = renderParts out last rs := by
  induction rs generalizing out last with
  | nil => simp [renderParts, hs]
  | cons r rs ih => simp only [List.cons_append, renderParts, ih]

theorem renderParts_append_of_allEmpty {rs : List Rendering} (hrs : allEmpty rs = true)
    (out : String) (last : Option Bool) (s : Rendering) :
    renderParts out last (rs ++ [s]) = renderParts out last [s] := by
  induction rs with
  | nil => rfl
  | cons r rs ih =>
    obtain ⟨hr, hrs⟩ : r.isEmpty = true ∧ allEmpty rs = true := by simpa [allEmpty] using hrs
    rw [List.cons_append, renderParts.eq_def]
    simp only [hr, if_true]
    exact ih hrs

theorem renderInto_append_of_isEmpty_right {s : Rendering} (hs : s.isEmpty = true) (r : Rendering)
    (out : String) : renderInto out (r.append s) = renderInto out r := by
  obtain ⟨rfl, happend⟩ | ⟨rfl, happend⟩ | ⟨ts, us, rfl, rfl, happend⟩ |
    ⟨parts, -, hparts, happend⟩ := append_cases r s
  · rw [happend]
    exact renderInto_of_isEmpty out s hs
  · rw [happend]
  · obtain rfl : us = [] := by simpa [isEmpty] using hs
    rw [happend, List.append_nil]
  · rw [happend, ← hparts]
    exact renderParts_append_of_isEmpty hs out none parts

theorem renderInto_append_of_isEmpty_left {r : Rendering} (hr : r.isEmpty = true) (s : Rendering)
    (out : String) : renderInto out (r.append s) = renderInto out s := by
  obtain ⟨rfl, happend⟩ | ⟨rfl, happend⟩ | ⟨ts, us, rfl, rfl, happend⟩ |
    ⟨parts, hempty, -, happend⟩ := append_cases r s
  · rw [happend]
  · rw [happend]
    exact renderInto_of_isEmpty out r hr
  · obtain rfl : ts = [] := by simpa [isEmpty] using hr
    rw [happend, List.nil_append]
  · rw [happend]
    exact (renderParts_append_of_allEmpty (hempty.trans hr) out none s).trans
      (renderParts_singleton out s)

/-- A stream without tokens at the end takes over the claim to a blank, unless it is the empty one
itself or two runs of tokens become one. -/
theorem isExpression_append_of_isEmpty {s : Rendering} (hs : s.isEmpty = true) (r : Rendering) :
    (r.append s).isExpression = r.isExpression ↔
      s = .empty ∨ s.isExpression = r.isExpression ∨ s = .tokens [] ∧ ∃ ts, r = .tokens ts := by
  obtain ⟨rfl, happend⟩ | ⟨rfl, happend⟩ | ⟨ts, us, rfl, rfl, happend⟩ |
    ⟨parts, -, -, happend⟩ := append_cases r s
  · rw [happend]
    constructor
    · exact fun h => .inr (.inl h)
    · rintro (rfl | h | ⟨-, ts, hts⟩)
      · rfl
      · exact h
      · cases hts
  · exact iff_of_true (by rw [happend]) (.inl rfl)
  · obtain rfl : us = [] := by simpa [isEmpty] using hs
    exact iff_of_true (by rw [happend, List.append_nil]) (.inr (.inr ⟨rfl, ts, rfl⟩))
  · have hlast : (r.append s).isExpression = s.isExpression := by
      rw [happend, isExpression, lastIsExpression_append]
    rw [hlast]
    constructor
    · exact fun h => .inr (.inl h)
    · rintro (rfl | h | ⟨rfl, ts, rfl⟩)
      · rw [← hlast, append_empty]
      · exact h
      · cases happend

/-! ### Ways of building -/

/-- A way to put two streams together that keeps the tokens of both in order, and to whose text a
stream without tokens adds nothing. -/
structure Concatenates (build : Rendering → Rendering → Rendering) : Prop where
  toTokens : ∀ r s, (build r s).toTokens = r.toTokens ++ s.toTokens
  renderInto_left : ∀ r s, r.isEmpty = true → ∀ out, renderInto out (build r s) = renderInto out s
  renderInto_right : ∀ r s, s.isEmpty = true → ∀ out, renderInto out (build r s) = renderInto out r

theorem concatenates_append : Concatenates append where
  toTokens := toTokens_append
  renderInto_left _ s hr out := renderInto_append_of_isEmpty_left hr s out
  renderInto_right r _ hs out := renderInto_append_of_isEmpty_right hs r out

/-- A form of streams that differs in the claim to a blank only. -/
structure Reclaims (form : Rendering → Rendering) : Prop where
  toTokens : ∀ r, (form r).toTokens = r.toTokens
  renderInto : ∀ r out, renderInto out (form r) = renderInto out r

theorem Reclaims.isEmpty {form : Rendering → Rendering} (h : Reclaims form) (r : Rendering) :
    (form r).isEmpty = r.isEmpty := by
  rw [Bool.eq_iff_iff, isEmpty_iff, isEmpty_iff, h.toTokens]

theorem reclaims_id : Reclaims id := ⟨fun _ => rfl, fun _ _ => rfl⟩

theorem reclaims_inline : Reclaims inline := ⟨fun _ => rfl, fun _ _ => rfl⟩

theorem reclaims_expression : Reclaims expression := ⟨fun _ => rfl, fun _ _ => rfl⟩

theorem reclaims_toInline : Reclaims toInline :=
  ⟨toTokens_toInline, fun r out => renderInto_toInline out r⟩

theorem reclaims_toExpression : Reclaims toExpression :=
  ⟨toTokens_toExpression, fun r out => renderInto_toExpression out r⟩

theorem Reclaims.ite {form form' : Rendering → Rendering} (h : Reclaims form) (h' : Reclaims form')
    (p : Rendering → Bool) : Reclaims fun r => if p r then form r else form' r where
  toTokens r := by
    split
    · exact h.toTokens r
    · exact h'.toTokens r
  renderInto r out := by
    split
    · exact h.renderInto r out
    · exact h'.renderInto r out

theorem Reclaims.add_of_isEmpty {form : Rendering → Rendering} (h : Reclaims form) (r : Rendering)
    {s : Rendering} (hs : s.isEmpty = true) : r.add (form s) = r := by
  rw [add, h.isEmpty, hs, if_pos rfl]

theorem Reclaims.concatenates {form : Rendering → Rendering} (h : Reclaims form) :
    Concatenates fun r s => r.add (form s) where
  toTokens r s := by rw [toTokens_add, h.toTokens]
  renderInto_left r s hr out := by
    rw [add, h.isEmpty]
    split
    next hs => rw [renderInto_of_isEmpty out r hr, renderInto_of_isEmpty out s hs]
    next => rw [renderInto_append_of_isEmpty_left hr, h.renderInto]
  renderInto_right r s hs out := by rw [h.add_of_isEmpty r hs]

/-- The forms in which the ways of building append their second stream. -/
theorem reclaims_added : Reclaims id ∧ (Reclaims fun s => if s.isExpression then s.toInline else s) ∧
    Reclaims fun s => if s.isExpression then s else s.toExpression :=
  ⟨reclaims_id, reclaims_toInline.ite reclaims_id isExpression,
    reclaims_id.ite reclaims_toExpression isExpression⟩

/-! ### Separated streams -/

section

variable {post : Rendering → Rendering}

/-- The streams without tokens in front of all others get no separator. -/
theorem joinWith_dropWhile (h : Reclaims post) (sep : QueryToken) (items : List Rendering) :
    joinWith post sep items = joinWith post sep (items.dropWhile isEmpty) := by
  induction items with
  | nil => rfl
  | cons r rs ih =>
    rw [List.dropWhile_cons]
    split
    next hr =>
      rw [← ih, joinWith, List.foldl_cons]
      have hfirst : (if (Rendering.empty).isEmpty then Rendering.empty
          else (Rendering.empty).addToken sep).add (post r) = .empty := h.add_of_isEmpty .empty hr
      rw [hfirst, joinWith]
    next => rfl

theorem intercalate_toTokens (sep : QueryToken) (r : Rendering) (rs : List Rendering) :
    [sep].intercalate ((r :: rs).map toTokens) =
      r.toTokens ++ rs.flatMap fun r => sep :: r.toTokens := by
  induction rs generalizing r with
  | nil => simp
  | cons s rs ih =>
    have hrest := ih s
    rw [List.map_cons] at hrest
    rw [List.map_cons, List.map_cons, List.intercalate_cons_cons, hrest]
    simp

/-- From the first stream with tokens on, every stream stands behind a separator, with tokens or
without. -/
theorem toTokens_joinWith (h : Reclaims post) (sep : QueryToken) (items : List Rendering) :
    (joinWith post sep items).toTokens =
      [sep].intercalate ((items.dropWhile isEmpty).map toTokens) := by
  rw [joinWith_dropWhile h]
  have hhead := List.head?_dropWhile_not isEmpty items
  cases hitems : items.dropWhile isEmpty with
  | nil => rfl
  | cons r rs =>
    rw [hitems] at hhead
    have hr : r.toTokens ≠ [] := by simpa [isEmpty_iff] using ne_true_of_eq_false hhead
    have hempty : isEmpty .empty = true := rfl
    have hfirst : (add .empty (post r)).toTokens = r.toTokens := by
      rw [toTokens_add, h.toTokens]
      rfl
    rw [intercalate_toTokens, joinWith, List.foldl_cons, hempty, if_pos rfl,
      toTokens_joinWith_foldl h.toTokens sep rs (by rwa [hfirst]), hfirst]

theorem flatMap_filter_eq_iff {α β : Type} {p : α → Bool} {f : α → List β} (hf : ∀ x, f x ≠ [])
    (xs : List α) : xs.flatMap f = (xs.filter p).flatMap f ↔ ∀ x ∈ xs, p x = true := by
  constructor
  · intro h
    induction xs with
    | nil => exact List.forall_mem_nil _
    | cons x xs ih =>
      rw [List.flatMap_cons] at h
      by_cases hx : p x = true
      · rw [List.filter_cons_of_pos hx, List.flatMap_cons] at h
        exact List.forall_mem_cons.2 ⟨hx, ih (List.append_cancel_left h)⟩
      · -- the text of the entry is there on one side only
        rw [List.filter_cons_of_neg hx] at h
        have hsublist : List.Sublist (xs.filter p) xs := List.filter_sublist
        have hle := (hsublist.flatMap f).length_le
        have hpos := List.length_pos_iff.2 (hf x)
        have hlength := congrArg List.length h
        rw [List.length_append] at hlength
        omega
  · intro h
    rw [List.filter_eq_self.2 h]

theorem filter_dropWhile_isEmpty (items : List Rendering) :
    (items.dropWhile isEmpty).filter (fun r => !r.isEmpty) = items.filter fun r => !r.isEmpty := by
  induction items with
  | nil => rfl
  | cons r rs ih =>
    rw [List.dropWhile_cons]
    split
    next hr => rw [ih, List.filter_cons_of_neg (by simp [hr])]
    next => rfl

/-- So the separators stand between the streams with tokens just if none without stands behind the
first of them. -/
theorem separates_iff (h : Reclaims post) (sep : QueryToken) (items : List Rendering) :
    (joinWith post sep items).toTokens =
        [sep].intercalate ((items.filter fun r => !r.isEmpty).map toTokens) ↔
      ∀ r ∈ items.dropWhile isEmpty, r.isEmpty = false := by
  rw [toTokens_joinWith h, ← filter_dropWhile_isEmpty]
  have hhead := List.head?_dropWhile_not isEmpty items
  cases hitems : items.dropWhile isEmpty with
  | nil => simp
  | cons r rs =>
    rw [hitems] at hhead
    have hr : r.isEmpty = false := hhead
    rw [List.filter_cons_of_pos (by simp [hr]), intercalate_toTokens, intercalate_toTokens,
      List.append_cancel_left_eq,
      flatMap_filter_eq_iff fun r : Rendering => List.cons_ne_nil sep r.toTokens]
    simp [hr]

end

/-- A stream is written as its tokens in order with at most one blank between two of them, and its
tokens are those of the streams it is built from. Appended streams without tokens add nothing to the
text, and nothing at all unless they are appended as they are. A list of streams gets a separator in
front of every stream behind the first with tokens, so just the lists that have no stream without
tokens there have their separators between streams with tokens only. -/
theorem streams_concatenate (r s : Rendering) (t : QueryToken) (items : List Rendering) :
    TextOf r.toTokens r.render ∧
    (∀ build ∈ [append, add, addInline, addExpression], Concatenates build) ∧
    (r.addToken t).toTokens = r.toTokens ++ [t] ∧
    (∀ form ∈ [inline, expression, toInline, toExpression], Reclaims form) ∧
    (s.isEmpty = true →
      (∀ build ∈ [add, addInline, addExpression], build r s = r) ∧
      ((r.append s).isExpression = r.isExpression ↔
        s = .empty ∨ s.isExpression = r.isExpression ∨ s = .tokens [] ∧ ∃ ts, r = .tokens ts)) ∧
    ∀ join ∈ [concat, concatExpressions],
      join items t = join (items.dropWhile isEmpty) t ∧
      (join items t).toTokens = [t].intercalate ((items.dropWhile isEmpty).map toTokens) ∧
      ((join items t).toTokens =
          [t].intercalate ((items.filter fun r => !r.isEmpty).map toTokens) ↔
        ∀ r ∈ items.dropWhile isEmpty, r.isEmpty = false) := by
  obtain ⟨hplain, hinline, hexpression⟩ := reclaims_added
  have hjoin {post : Rendering → Rendering} (h : Reclaims post) :=
    And.intro (joinWith_dropWhile h t items)
      (And.intro (toTokens_joinWith h t items) (separates_iff h t items))
  refine ⟨textOf_render r, ?_, ?_, ?_, fun hs => ⟨?_, isExpression_append_of_isEmpty hs r⟩, ?_⟩
  · simpa using ⟨concatenates_append, hplain.concatenates, hinline.concatenates,
      hexpression.concatenates⟩
  · exact toTokens_add r (ofToken t)
  · simpa using ⟨reclaims_inline, reclaims_expression, reclaims_toInline, reclaims_toExpression⟩
  · simpa using ⟨hplain.add_of_isEmpty r hs, hinline.add_of_isEmpty r hs,
      hexpression.add_of_isEmpty r hs⟩
  · simpa using ⟨hjoin reclaims_toInline, hjoin reclaims_toExpression⟩

/-- An empty stream in front of a list and at the end of a stream. -/
theorem streams_concatenate_beside_empty :
    (composite []).isEmpty = true ∧ addInline (word "a") (composite []) = word "a" ∧
    (∀ r ∈ [.empty, text "a", text "b"].dropWhile isEmpty, r.isEmpty = false) ∧
    (concat [.empty, text "a", text "b"] .comma).toTokens = [.plain "a", .comma, .plain "b"] := by
  obtain ⟨-, -, -, -, hempty, hjoin⟩ := streams_concatenate (word "a") (composite []) .comma
    [.empty, text "a", text "b"]
  have hall : ∀ r ∈ [.empty, text "a", text "b"].dropWhile isEmpty, r.isEmpty = false := by
    simp [List.dropWhile, isEmpty, text, ofToken]
  refine ⟨rfl, (hempty rfl).1 addInline (by simp), hall, ?_⟩
  rw [((hjoin concat (by simp)).2.2).2 hall]
  rfl

/-- Behind a stream with tokens an empty one is separated like any other, and at the end of a word it
takes the claim to a blank. -/
theorem empty_stream_separated :
    (concat [text "a", .empty, text "b"] .comma).toTokens ≠
      [.comma].intercalate
        (([text "a", .empty, text "b"].filter fun r => !r.isEmpty).map toTokens) ∧
    (concat [text "a", .empty, text "b"] .comma).render = "a, , b" ∧
    (concat [text "a", text "b"] .comma).render = "a, b" ∧
    (((text "x").add ((word "a").append (composite []))).addToken (.plain "b")).render = "xab" ∧
    (((text "x").add (word "a")).addToken (.plain "b")).render = "xa b" := by
  decide

end Jpql.Rendering
