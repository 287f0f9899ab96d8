import Jpql.Proofs.Grammar.CarryingClauses
import Jpql.Proofs.Grammar.Spelling
import Jpql.Proofs.Rendering.Conveying
import Jpql.Proofs.Token.Whole

/-! What a parser takes is written by what it returns. The streams of a result convey the lexemes of
the tokens that it was parsed from, in their order, as long as the text of each token can be read
again as that token. -/

namespace Jpql.Grammar

open Jpql.Grammar.Parser
open Lexeme (ahead)
open Rendering

variable {α β : Type}

/-- Behind streams `before`, the streams `out` of the result convey what the parser takes as well. -/
def Transcribes (K : List Lexeme → Prop) (before : List Rendering) (p : Parser α)
    (out : α → List Rendering) : Prop :=
  ∀ ⦃s : Setting⦄ ⦃ts rest a⦄, s.Ends → (∀ t ∈ ts, t.lexeme.Whole) → K (ts.map Token.lexeme) →
    p s ts = .ok (a, rest) → ∃ taken, ts = taken ++ rest ∧
      ∀ ls, Convey before ls → Convey (out a) (ls ++ taken.map Token.lexeme)

/-! ### Sequences -/

namespace Transcribes

variable {K J : List Lexeme → Prop} {before : List Rendering} {p q : Parser α} {f : α → Parser β}
  {out : α → List Rendering} {out' : β → List Rendering}

theorem mono (h : Transcribes K before p out) (hK : ∀ ls, J ls → K ls) :
    Transcribes J before p out := fun _ _ _ _ he hw hs => h he hw (hK _ hs)

theorem anywhere (h : Transcribes Anything before p out) : Transcribes K before p out :=
  h.mono fun _ _ => trivial

/-- A step that goes on behind its own beginning, and may use what is known of it. -/
theorem behindOf {Q : α → Prop} (hp : Transcribes K before p out) (hy : Yields p Q)
    (hf : ∀ a, Q a → Transcribes Anything (out a) (f a) out') :
    Transcribes K before (p >>= f) out' := by
  intro s ts rest b he hw hs h
  obtain ⟨a, mid, hpa, hfa⟩ := bind_ok_iff.1 h
  obtain ⟨taken, rfl, htaken⟩ := hp he hw hs hpa
  obtain ⟨more, rfl, hmore⟩ :=
    hf a (hy hpa) he (fun t ht => hw t (List.mem_append_right _ ht)) trivial hfa
  refine ⟨taken ++ more, (List.append_assoc _ _ _).symm, fun ls hls => ?_⟩
  rw [List.map_append, ← List.append_assoc]
  exact hmore _ (htaken ls hls)

theorem behind (hp : Transcribes K before p out)
    (hf : ∀ a, Transcribes Anything (out a) (f a) out') : Transcribes K before (p >>= f) out' :=
  hp.behindOf (Q := fun _ => True) (fun _ _ _ _ _ => trivial) fun a _ => hf a

/-- What stands in front stays. -/
theorem frame (hp : Transcribes K [] p out) : Transcribes K before p fun a => before ++ out a := by
  intro s ts rest a he hw hs h
  obtain ⟨taken, hts, htaken⟩ := hp he hw hs h
  exact ⟨taken, hts, fun ls hls => hls.append (htaken [] .nil)⟩

theorem andThen (hp : Transcribes K [] p out)
    (hf : ∀ a, Transcribes Anything (before ++ out a) (f a) out') :
    Transcribes K before (p >>= f) out' := hp.frame.behind hf

theorem andThenOf {Q : α → Prop} (hp : Transcribes K [] p out) (hy : Yields p Q)
    (hf : ∀ a, Q a → Transcribes Anything (before ++ out a) (f a) out') :
    Transcribes K before (p >>= f) out' := hp.frame.behindOf hy hf

theorem becoming {out₁ : α → List Rendering} (hp : Transcribes K before p out₁)
    (h : ∀ a, Becomes (out₁ a) (out a)) : Transcribes K before p out := by
  intro s ts rest a he hw hs ha
  obtain ⟨taken, hts, htaken⟩ := hp he hw hs ha
  exact ⟨taken, hts, fun ls hls => h a _ (htaken ls hls)⟩

/-- What stands in front may be put together first. -/
theorem after {before' : List Rendering} (h : Becomes before' before)
    (hp : Transcribes K before p out) : Transcribes K before' p out := by
  intro s ts rest a he hw hs ha
  obtain ⟨taken, hts, htaken⟩ := hp he hw hs ha
  exact ⟨taken, hts, fun ls hls => htaken ls (h ls hls)⟩

theorem pure {a : α} (h : Becomes before (out a)) :
    Transcribes K before (Pure.pure a : Parser α) out := by
  intro s ts rest b _ _ _ hb
  cases hb
  exact ⟨[], rfl, fun ls hls => h _ (by simpa using hls)⟩

theorem map (g : α → β) (hp : Transcribes K before p out)
    (h : ∀ a, Becomes (out a) (out' (g a))) : Transcribes K before (g <$> p) out' :=
  hp.behind fun a => .pure (h a)

theorem of_fails (h : ∀ s ts v, p s ts ≠ .ok v) : Transcribes K before p out :=
  fun _ _ _ _ _ _ _ hp => absurd hp (h _ _ _)

theorem reject (c : Rejection) : Transcribes K before (Grammar.reject c : Parser α) out :=
  .of_fails fun _ _ _ => nofun

theorem rejectBind (c : Rejection) : Transcribes K before (Grammar.reject c >>= f) out' :=
  .of_fails fun _ _ _ => nofun

theorem iteOf {c : Prop} [Decidable c] (hp : c → Transcribes K before p out)
    (hq : ¬ c → Transcribes K before q out) : Transcribes K before (if c then p else q) out := by
  split
  next h => exact hp h
  next h => exact hq h

theorem ite {c : Prop} [Decidable c] (hp : Transcribes K before p out)
    (hq : Transcribes K before q out) : Transcribes K before (if c then p else q) out :=
  .iteOf (fun _ => hp) fun _ => hq

theorem bounded {p : Nat → Parser α} (h : ∀ n, Transcribes K before (p n) out) :
    Transcribes K before (Parser.bounded p) out := fun _ ts _ _ he hw hs hp => h ts.length he hw hs hp

/-- A parser that only looks leaves the next as much as it knew. -/
theorem look {view : Dialect → List Lexeme → α} (h : Looks p view)
    (hf : ∀ a, Transcribes K before (f a) out') : Transcribes K before (p >>= f) out' := by
  intro s ts rest b he hw hs hb
  rw [bind_eq, h he] at hb
  exact hf _ he hw hs hb

theorem pureBind {a : α} (h : Transcribes K before (f a) out') :
    Transcribes K before (Pure.pure a >>= f) out' := h

/-- Behind a test that is passed its meaning is known. -/
theorem test {t : Parser Bool} {f : Bool → Parser β} {view : Dialect → List Lexeme → Bool}
    (h : Looks t view) (hK : ∀ d ls, view d ls = true → J ls)
    (htrue : Transcribes J before (f true) out') (hfalse : Transcribes K before (f false) out') :
    Transcribes K before (t >>= f) out' := by
  intro s ts rest b he hw hs hb
  rw [bind_eq, h he] at hb
  cases hv : view s.dialect (ts.map Token.lexeme) with
  | true =>
    rw [hv] at hb
    exact htrue he hw (hK _ _ hv) hb
  | false =>
    rw [hv] at hb
    exact hfalse he hw hs hb

/-- The next token is known in what is done with it. -/
theorem current {F : Token → Parser β}
    (h : ∀ kind literal place, Transcribes (fun ls => K ls ∧ ahead 0 ls = ⟨kind, literal⟩) before
      (F ⟨kind, literal, place⟩) out') : Transcribes K before (Grammar.current >>= F) out' :=
  fun _ ts _ _ he hw hs hb => h _ _ _ he hw ⟨hs, (lexeme_getD he 0 ts).symm⟩ hb

end Transcribes

/-! ### Single tokens -/

/-- There is a token. -/
def Present (ls : List Lexeme) : Prop := ls ≠ []

theorem Transcribes.of_present {K : List Lexeme → Prop} {before : List Rendering} {p : Parser α}
    {out : α → List Rendering} (h : Transcribes Present before p out)
    (hnil : ∀ {s : Setting}, s.Ends → ∀ v, p s [] ≠ .ok v) : Transcribes K before p out := by
  intro s ts rest a he hw _ hp
  refine h he hw ?_ hp
  rw [Present, ne_eq, List.map_eq_nil_iff]
  rintro rfl
  exact hnil he _ hp

theorem present_of {g : Lexeme → Bool} (heof : g .eof = false) {ls : List Lexeme}
    (h : g (ahead 0 ls) = true) : Present ls := by
  rintro rfl
  rw [Lexeme.ahead_nil, heof] at h
  cases h

theorem present_of_isKeyword {w : String} (ls : List Lexeme)
    (h : (ahead 0 ls).isKeyword w = true) : Present ls := present_of (g := (·.isKeyword w)) rfl h

section Tokens

variable {K : List Lexeme → Prop} {before : List Rendering} {f : String → Parser β}
  {out : β → List Rendering}

theorem conveys_word {l : Lexeme} (h : l.Whole) : (word l.literal).Conveys [l] := by
  refine (writes_word h.ne_empty ?_ h.spelled).conveys
  exact beq_eq_false_iff_ne.2 h.unspaced

/-- A step with the token in front, of whose text something may be known. -/
theorem Transcribes.advanceIf {P : String → Prop}
    (hK : ∀ ls, K ls → Present ls ∧ P (ahead 0 ls).literal)
    (hf : ∀ w, P w → Transcribes Anything (before ++ [word w]) (f w) out) :
    Transcribes K before (Grammar.advance >>= f) out := by
  intro s ts rest b he hw hs hb
  obtain ⟨w, mid, hadvance, hrun⟩ := bind_ok_iff.1 hb
  cases hadvance
  obtain ⟨hpresent, hP⟩ := hK _ hs
  cases ts with
  | nil => exact absurd rfl hpresent
  | cons t ts =>
    obtain ⟨ht, hts⟩ := List.forall_mem_cons.1 hw
    obtain ⟨taken, rfl, htaken⟩ := hf t.literal hP he hts trivial hrun
    refine ⟨t :: taken, rfl, fun ls hls => ?_⟩
    have hnext := htaken _ (hls.append (conveys_word ht).convey)
    rwa [List.append_assoc] at hnext

theorem Transcribes.advance (hK : ∀ ls, K ls → Present ls)
    (hf : ∀ w, Transcribes Anything (before ++ [word w]) (f w) out) :
    Transcribes K before (Grammar.advance >>= f) out :=
  .advanceIf (P := fun _ => True) (fun ls h => ⟨hK ls h, trivial⟩) fun w _ => hf w

/-- A step with a token that is known. -/
theorem Transcribes.advanceOf {l : Lexeme} (hl : l ≠ .eof)
    (hf : Transcribes Anything (before ++ [word l.literal]) (f l.literal) out) :
    Transcribes (fun ls => K ls ∧ ahead 0 ls = l) before (Grammar.advance >>= f) out := by
  refine .advanceIf (P := (· = l.literal)) (fun ls h => ⟨?_, congrArg Lexeme.literal h.2⟩) ?_
  · rintro rfl
    exact hl h.2.symm
  · rintro w rfl
    exact hf

theorem transcribes_advance (hK : ∀ ls, K ls → Present ls) :
    Transcribes K [] Grammar.advance fun w => [word w] := by
  rw [← bind_pure Grammar.advance]
  exact .advance hK fun _ => .pure (.refl _)

variable {t : Parser Bool} {view : Dialect → List Lexeme → Bool}

/-- What a test asks for is taken where it is passed. -/
theorem transcribes_eatIf (h : Looks t view) (hK : ∀ d ls, view d ls = true → Present ls) :
    Transcribes K [] (t >>= eatIf) Rendering.optionalWord :=
  .test h hK (.advance (fun _ => id) fun _ => .pure (.refl _)) (.pure (.refl _))

theorem transcribes_eatKeyword (w : String) :
    Transcribes K [] (eatKeyword w) Rendering.optionalWord :=
  transcribes_eatIf (looks_atKeyword w) fun _ => present_of_isKeyword

theorem transcribes_eatWord (w : String) : Transcribes K [] (eatWord w) Rendering.optionalWord :=
  transcribes_eatIf (looks_atWord w) fun _ _ => present_of (g := (·.isWord w)) rfl

theorem transcribes_eatAnyKeyword (ws : List String) :
    Transcribes K [] (eatAnyKeyword ws) Rendering.optionalWord := by
  induction ws generalizing K with
  | nil => exact .pure (.refl _)
  | cons w ws ih =>
    refine (transcribes_eatKeyword w).andThen fun found => ?_
    cases found with
    | some v => exact .pure (.refl _)
    | none => exact ih

theorem transcribes_eatAnyWord (ws : List String) :
    Transcribes K [] (eatAnyWord ws) Rendering.optionalWord := by
  induction ws generalizing K with
  | nil => exact .pure (.refl _)
  | cons w ws ih =>
    refine (transcribes_eatWord w).andThen fun found => ?_
    cases found with
    | some v => exact .pure (.refl _)
    | none => exact ih

/-- What an optional step took, now that it is known to be there. -/
theorem transcribes_orMismatched (what : String) : (found : Option String) →
    Transcribes K (Rendering.optionalWord found) (orMismatched what found) fun w => [word w]
  | some _ => .pure (.refl _)
  | none => .reject _

theorem transcribes_expectKeyword (w : String) :
    Transcribes K [] (expectKeyword w) fun v => [word v] :=
  (transcribes_eatKeyword w).andThen fun found => transcribes_orMismatched w found

theorem transcribes_expectWord (w : String) :
    Transcribes K [] (expectWord w) fun v => [word v] :=
  (transcribes_eatWord w).andThen fun found => transcribes_orMismatched w found

theorem transcribes_expectPair (first second : String) :
    Transcribes K [] (expectPair first second) fun w => [word w] :=
  (transcribes_expectKeyword first).andThen fun _ =>
    (transcribes_expectKeyword second).andThen fun _ => .pure (becomes_pair _ _)

theorem Transcribes.eatPunctuator {q : String} {f : Bool → Parser β}
    (htrue : Transcribes Anything (before ++ [text q]) (f true) out)
    (hfalse : Transcribes K before (f false) out) :
    Transcribes K before (Grammar.eatPunctuator q >>= f) out := by
  rw [eatPunctuator_bind]
  refine .test (J := fun ls => (ahead 0 ls).isPunctuator q = true) (looks_atPunctuator q)
    (fun _ _ => id) ?_ hfalse
  refine .advanceIf (P := (· = q)) (fun ls h => ⟨present_of (g := (·.isPunctuator q)) rfl h, ?_⟩) ?_
  · exact eq_of_beq (Bool.and_eq_true_iff.1 h).2
  · rintro w rfl
    exact .after ((Becomes.refl _).append (becomes_text _)) htrue

theorem transcribes_expectPunctuator (q : String) :
    Transcribes K [] (expectPunctuator q) fun _ => [text q] :=
  .eatPunctuator (.pure (.refl _)) (.reject _)

theorem transcribes_expectName : Transcribes K [] expectName fun w => [word w] := by
  rw [expectName_eq]
  exact .test (looks_peekAt 0 (·.isAnyWord)) (fun _ _ => present_of (g := (·.isAnyWord)) rfl)
    (transcribes_advance fun _ => id) (.reject _)

end Tokens

/-! ### Repetitions -/

section Repetitions

variable {K J : List Lexeme → Prop} {t : Parser Bool} {view : Dialect → List Lexeme → Bool}
  {item : Parser α} {out : α → List Rendering}

theorem transcribes_itemsWhile (h : Looks t view) (hK : ∀ d ls, view d ls = true → J ls)
    (hitem : Transcribes J [] item out) (n : Nat) :
    Transcribes K [] (itemsWhile t item n) (·.flatMap out) := by
  induction n generalizing K with
  | zero => exact .pure (.refl _)
  | succ n ih =>
    refine .test h hK (hitem.andThen fun a => ih.andThen fun as => .pure ?_) (.pure (.refl _))
    rw [List.flatMap_cons]
    exact .refl _

theorem transcribes_manyWhile (h : Looks t view) (hK : ∀ d ls, view d ls = true → J ls)
    (hitem : Transcribes J [] item out) : Transcribes K [] (manyWhile t item) (·.flatMap out) :=
  .bounded (transcribes_itemsWhile h hK hitem)

variable {rendering : α → Rendering}

theorem transcribes_commaTail (hitem : Transcribes Anything [] item fun a => [rendering a]) :
    Transcribes K [] (bounded (commaTail item)) (·.flatMap fun a => [text ",", rendering a]) := by
  refine .bounded fun n => ?_
  induction n generalizing K with
  | zero => exact .pure (.refl _)
  | succ n ih =>
    refine .eatPunctuator (hitem.andThen fun a => ih.andThen fun as => .pure ?_) (.pure (.refl _))
    rw [List.flatMap_cons]
    exact .refl _

theorem transcribes_commaList (hitem : Transcribes Anything [] item fun a => [rendering a]) :
    Transcribes K [] (commaList item) fun as => separated (as.map rendering) := by
  refine hitem.anywhere.andThen fun a => (transcribes_commaTail hitem).andThen fun as => .pure ?_
  rw [List.map_cons, separated, List.flatMap_map]
  exact .refl _

/-- Tokens up to one that fails a test. -/
theorem transcribes_skip (h : Looks t view) :
    Transcribes K [] (manyWhile t advance) (·.map word) := by
  intro s ts rest ws he hw hs hrun
  clear hs
  change itemsWhile t advance ts.length s ts = .ok (ws, rest) at hrun
  induction ts generalizing ws with
  | nil =>
    cases hrun
    exact ⟨[], rfl, fun ls hls => by simpa using hls⟩
  | cons u us ih =>
    obtain ⟨hu, hus⟩ := List.forall_mem_cons.1 hw
    rw [List.length_cons, itemsWhile, bind_eq, h he] at hrun
    cases hv : view s.dialect ((u :: us).map Token.lexeme) with
    | false =>
      rw [hv] at hrun
      cases hrun
      exact ⟨[], rfl, fun ls hls => by simpa using hls⟩
    | true =>
      rw [hv] at hrun
      obtain ⟨w, mid, hword, hrun⟩ := bind_ok_iff.1 hrun
      cases hword
      obtain ⟨ws', mid', hws, hrun⟩ := bind_ok_iff.1 hrun
      cases hrun
      obtain ⟨taken, rfl, htaken⟩ := ih hus hws
      refine ⟨u :: taken, rfl, fun ls hls => ?_⟩
      cases hls
      exact (conveys_word hu).convey.append (htaken [] .nil)

end Repetitions

/-! ### Names -/

section Names

variable {K : List Lexeme → Prop} {s : Setting} {ts rest : List Token} {ws : List String}

/-- A path goes on with points and names. -/
theorem taken_pathSteps (he : s.Ends) (hw : ∀ t ∈ ts, t.lexeme.Whole)
    (h : pathSteps s ts = .ok (ws, rest)) : ∃ taken, ts = taken ++ rest ∧
      taken.map Token.lexeme = (ws.flatMap fun w => [.punctuator ".", .word w]) ∧
      ∀ w ∈ ws, Lexer.IsName w := by
  have hitems (n : Nat) {ts : List Token} {ws : List String} (hw : ∀ t ∈ ts, t.lexeme.Whole)
      (h : itemsWhile atPathStep (advance >>= fun _ => advance) n s ts = .ok (ws, rest)) :
      ∃ taken, ts = taken ++ rest ∧
        taken.map Token.lexeme = (ws.flatMap fun w => [.punctuator ".", .word w]) ∧
        ∀ w ∈ ws, Lexer.IsName w := by
    induction n generalizing ts ws with
    | zero =>
      cases h
      exact ⟨[], rfl, rfl, List.forall_mem_nil _⟩
    | succ n ih =>
      rw [itemsWhile, bind_eq, looks_atPathStep he] at h
      dsimp only at h
      split at h
      next hstep =>
        obtain ⟨w, mid, hmid, h⟩ := bind_ok_iff.1 h
        obtain ⟨ws', _, hws, h⟩ := bind_ok_iff.1 h
        cases h
        obtain ⟨hpoint, hword⟩ := Bool.and_eq_true_iff.1 hstep
        rcases ts with _ | ⟨t, _ | ⟨u, us⟩⟩
        · cases hpoint
        · cases hword
        · cases hmid
          obtain ⟨-, hu, hus⟩ : _ ∧ u.lexeme.Whole ∧ ∀ t ∈ us, t.lexeme.Whole := by simpa using hw
          obtain ⟨taken, rfl, htaken, hnames⟩ := ih hus hws
          have hkind : u.lexeme.kind = .identifier ∨ u.lexeme.kind = .keyword := by
            simpa [Lexeme.isAnyWord] using hword
          obtain ⟨hname, hlexeme⟩ := hu.named hkind
          have hdot : t.lexeme = .punctuator "." := Lexeme.eq_of_isPunctuator hpoint
          refine ⟨t :: u :: taken, rfl, ?_, List.forall_mem_cons.2 ⟨hname, hnames⟩⟩
          rw [List.map_cons, List.map_cons, htaken, hdot, hlexeme]
          rfl
      next =>
        cases h
        exact ⟨[], rfl, rfl, List.forall_mem_nil _⟩
  exact hitems ts.length hw h

/-- A name and what goes on behind it, put together as one text. -/
theorem transcribes_dotted {g : List String → α} {out : α → List Rendering}
    (hg : ∀ ws, out (g ws) = [text (".".intercalate ws)]) :
    Transcribes (fun ls => (ahead 0 ls).isAnyWord = true) []
      (advance >>= fun first => pathSteps >>= fun ws => pure (g (first :: ws))) out := by
  intro s ts rest a he hw hs h
  obtain ⟨first, mid, hfirst, h⟩ := bind_ok_iff.1 h
  obtain ⟨ws, _, hws, h⟩ := bind_ok_iff.1 h
  cases h
  cases hfirst
  cases ts with
  | nil => cases hs
  | cons t ts =>
    obtain ⟨ht, hts⟩ := List.forall_mem_cons.1 hw
    obtain ⟨taken, rfl, htaken, hnames⟩ := taken_pathSteps he hts hws
    have hkind : t.lexeme.kind = .identifier ∨ t.lexeme.kind = .keyword := by
      simpa [Lexeme.isAnyWord] using hs
    obtain ⟨hname, hlexeme⟩ := ht.named hkind
    refine ⟨t :: taken, rfl, fun ls hls => ?_⟩
    cases hls
    rw [hg, List.map_cons, htaken, hlexeme]
    exact (writes_dotted hname hnames).conveys.convey

theorem transcribes_qualifiedName : Transcribes K [] qualifiedName fun name => [text name] := by
  rw [qualifiedName, expectName_eq, bind_bind]
  exact .test (J := fun ls => (ahead 0 ls).isAnyWord = true) (looks_peekAt 0 (·.isAnyWord))
    (fun _ _ => id) (transcribes_dotted fun _ => rfl) (.rejectBind _)

end Names

end Jpql.Grammar
