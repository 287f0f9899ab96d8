import Jpql.Grammar
import Jpql.Proofs.Statement.Bare
import Jpql.Proofs.Token.Lexing
import Mathlib

/-! What a parser takes spells what it returns. The tokens that a parser takes, without their blanks,
are the text of its result: a step takes the text of its own result and hands on the rest, so the
text of a sequence of steps is put together in the order of the steps. The rules are related by
induction on their depth, and a parsed statement writes out the tokens of its query. -/

namespace Jpql.Grammar

open Jpql.Grammar.Parser
open Text (bare commaed)

variable {α β : Type}

/-- The characters of tokens that are no blanks. -/
def bareTokens (ts : List Token) : List Char := ts.flatMap fun t => bare t.literal

/-- The tokens that `p` takes have the text that `text` gives of its result. -/
def Spells (p : Parser α) (text : α → List Char) : Prop :=
  ∀ ⦃s ts a rest⦄, bare s.eof.literal = [] → p s ts = .ok (a, rest) →
    bareTokens ts = text a ++ bareTokens rest

/-- The same for a parser that goes on behind tokens with the text `before`. -/
def SpellsBehind (before : List Char) (p : Parser α) (text : α → List Char) : Prop :=
  ∀ ⦃s ts a rest⦄, bare s.eof.literal = [] → p s ts = .ok (a, rest) →
    before ++ bareTokens ts = text a ++ bareTokens rest

/-- A parser that only looks. -/
def Peeks (p : Parser α) : Prop := ∀ ⦃s ts a rest⦄, p s ts = .ok (a, rest) → rest = ts

/-- Every result of `p` has the property. -/
def Yields (p : Parser α) (Q : α → Prop) : Prop := ∀ ⦃s ts a rest⦄, p s ts = .ok (a, rest) → Q a

/-- A parser that leaves no tokens. -/
def Exhausts (p : Parser α) : Prop := ∀ ⦃s ts a rest⦄, p s ts = .ok (a, rest) → rest = []

/-! ### Sequences -/

theorem bind_ok {p : Parser α} {f : α → Parser β} {s : Setting} {ts rest : List Token} {b : β}
    (h : (p >>= f) s ts = .ok (b, rest)) : ∃ a ts', p s ts = .ok (a, ts') ∧ f a s ts' = .ok (b, rest) := by
  rw [Parser.bind_eq] at h
  split at h
  next a ts' hp => exact ⟨a, ts', hp, h⟩
  next => cases h

theorem pure_ok {a b : α} {s : Setting} {ts rest : List Token}
    (h : (pure a : Parser α) s ts = .ok (b, rest)) : b = a ∧ rest = ts := by
  cases h
  exact ⟨rfl, rfl⟩

variable {before : List Char} {p : Parser α} {f : α → Parser β} {text : α → List Char}
  {text' : β → List Char}

theorem Spells.intro (h : SpellsBehind [] p text) : Spells p text := h

theorem Spells.andThen (hp : Spells p text)
    (hf : ∀ a, SpellsBehind (before ++ text a) (f a) text') : SpellsBehind before (p >>= f) text' := by
  intro s ts b rest he h
  obtain ⟨a, ts', h₁, h₂⟩ := bind_ok h
  rw [hp he h₁, ← List.append_assoc]
  exact hf a he h₂

/-- The next step may use what is known of the result. -/
theorem Spells.andThenOf {Q : α → Prop} (hp : Spells p text) (hy : Yields p Q)
    (hf : ∀ a, Q a → SpellsBehind (before ++ text a) (f a) text') :
    SpellsBehind before (p >>= f) text' := by
  intro s ts b rest he h
  obtain ⟨a, ts', h₁, h₂⟩ := bind_ok h
  rw [hp he h₁, ← List.append_assoc]
  exact hf a (hy h₁) he h₂

/-- A step that goes on behind its own beginning. -/
theorem SpellsBehind.andThen (hp : SpellsBehind before p text)
    (hf : ∀ a, SpellsBehind (text a) (f a) text') : SpellsBehind before (p >>= f) text' := by
  intro s ts b rest he h
  obtain ⟨a, ts', h₁, h₂⟩ := bind_ok h
  rw [hp he h₁]
  exact hf a he h₂

theorem Peeks.andThen (hp : Peeks p) (hf : ∀ a, SpellsBehind before (f a) text') :
    SpellsBehind before (p >>= f) text' := by
  intro s ts b rest he h
  obtain ⟨a, ts', h₁, h₂⟩ := bind_ok h
  rw [← hp h₁]
  exact hf a he h₂

theorem SpellsBehind.pure {a : α} (h : before = text a) :
    SpellsBehind before (Pure.pure a : Parser α) text := by
  intro s ts b rest _ hb
  obtain ⟨rfl, rfl⟩ := pure_ok hb
  rw [h]

theorem SpellsBehind.ite {c : Prop} [Decidable c] {p q : Parser α} (hp : SpellsBehind before p text)
    (hq : SpellsBehind before q text) : SpellsBehind before (if c then p else q) text := by
  split
  · exact hp
  · exact hq

theorem SpellsBehind.of {text₁ : α → List Char} (hp : Spells p text₁)
    (h : ∀ a, before ++ text₁ a = text a) : SpellsBehind before p text := by
  intro s ts a rest he ha
  rw [hp he ha, ← List.append_assoc, h]

theorem Spells.map (g : α → β) (hp : Spells p text) (h : ∀ a, text' (g a) = text a) :
    Spells (g <$> p) text' :=
  .intro <| hp.andThen fun a => .pure (h a).symm

theorem SpellsBehind.reject (c : Rejection) : SpellsBehind before (reject c : Parser α) text :=
  fun _ _ _ _ _ => nofun

theorem Spells.bounded {p : Nat → Parser α} (h : ∀ n, Spells (p n) text) :
    Spells (Parser.bounded p) text := fun _ ts _ _ he ha => h ts.length he ha

theorem Peeks.pure (a : α) : Peeks (Pure.pure a : Parser α) := fun _ _ _ _ h => (pure_ok h).2

theorem Peeks.bind (hp : Peeks p) (hf : ∀ a, Peeks (f a)) : Peeks (p >>= f) := by
  intro s ts b rest h
  obtain ⟨a, ts', h₁, h₂⟩ := bind_ok h
  rw [hf a h₂, hp h₁]

theorem Peeks.ite {c : Prop} [Decidable c] {p q : Parser α} (hp : Peeks p) (hq : Peeks q) :
    Peeks (if c then p else q) := by
  split
  · exact hp
  · exact hq

theorem Yields.of_bind {Q : β → Prop} (hf : ∀ a, Yields (f a) Q) : Yields (p >>= f) Q := by
  intro s ts b rest h
  obtain ⟨a, ts', _, h₂⟩ := bind_ok h
  exact hf a h₂

theorem Yields.of_bindOf {P : α → Prop} {Q : β → Prop} (hp : Yields p P)
    (hf : ∀ a, P a → Yields (f a) Q) : Yields (p >>= f) Q := by
  intro s ts b rest h
  obtain ⟨a, ts', h₁, h₂⟩ := bind_ok h
  exact hf a (hp h₁) h₂

theorem Yields.pure {a : α} {Q : α → Prop} (h : Q a) : Yields (Pure.pure a : Parser α) Q := by
  intro s ts b rest hb
  rwa [(pure_ok hb).1]

theorem Yields.ite {c : Prop} [Decidable c] {p q : Parser α} {Q : α → Prop} (hp : Yields p Q)
    (hq : Yields q Q) : Yields (if c then p else q) Q := by
  split
  · exact hp
  · exact hq

/-- Each way may use what the test says. -/
theorem Yields.iteOf {c : Prop} [Decidable c] {p q : Parser α} {Q : α → Prop}
    (hp : c → Yields p Q) (hq : ¬ c → Yields q Q) : Yields (if c then p else q) Q := by
  split
  next h => exact hp h
  next h => exact hq h

theorem Yields.reject (c : Rejection) (Q : α → Prop) : Yields (reject c : Parser α) Q :=
  fun _ _ _ _ => nofun

theorem Exhausts.of_bind (hf : ∀ a, Exhausts (f a)) : Exhausts (p >>= f) := by
  intro s ts b rest h
  obtain ⟨a, ts', _, h₂⟩ := bind_ok h
  exact hf a h₂

theorem Exhausts.ite {c : Prop} [Decidable c] {p q : Parser α} (hp : Exhausts p)
    (hq : Exhausts q) : Exhausts (if c then p else q) := by
  split
  · exact hp
  · exact hq

/-! ### Single tokens -/

theorem bareTokens_eq {s : Setting} (he : bare s.eof.literal = []) (ts : List Token) :
    bareTokens ts = bare (ts.headD s.eof).literal ++ bareTokens ts.tail := by
  cases ts with
  | nil => simp [bareTokens, he]
  | cons t ts => simp [bareTokens]

theorem spells_advance : Spells advance bare := by
  intro s ts w rest he h
  cases h
  exact bareTokens_eq he ts

theorem peeks_dialect : Peeks dialect := fun _ _ _ _ h => by cases h; rfl

theorem peeks_peekAt (n : Nat) : Peeks (peekAt n) := fun _ _ _ _ h => by cases h; rfl

theorem peeks_current : Peeks current := peeks_peekAt 0

theorem peeks_peek : Peeks peek := peeks_peekAt 1

theorem peeks_atEnd : Peeks atEnd := fun _ _ _ _ h => by cases h; rfl

theorem peeks_atKeyword (k : String) : Peeks (atKeyword k) := peeks_current.bind fun _ => .pure _

theorem peeks_atAnyKeyword (ks : List String) : Peeks (atAnyKeyword ks) :=
  peeks_current.bind fun _ => .pure _

theorem peeks_atWord (w : String) : Peeks (atWord w) := peeks_current.bind fun _ => .pure _

theorem peeks_atPunctuator (p : String) : Peeks (atPunctuator p) :=
  peeks_current.bind fun _ => .pure _

theorem peeks_nextIsOpenParen : Peeks nextIsOpenParen := peeks_peek.bind fun _ => .pure _

theorem current_bind (f : Token → Parser α) (s : Setting) (ts : List Token) :
    (current >>= f) s ts = f (ts.headD s.eof) s ts := by
  cases ts <;> rfl

theorem literal_of_isPunctuator {t : Token} {p : String} (h : t.isPunctuator p = true) :
    t.literal = p := by
  simp only [Token.isPunctuator, Bool.and_eq_true, beq_iff_eq] at h
  exact h.2

/-- The token in front when a punctuator was seen there. -/
theorem head_of_atPunctuator {p : String} {s : Setting} {ts rest : List Token}
    (h : atPunctuator p s ts = .ok (true, rest)) : (ts.headD s.eof).literal = p := by
  rw [atPunctuator, current_bind] at h
  exact literal_of_isPunctuator (pure_ok h).1.symm

def optional (o : Option String) : List Char := o.elim [] bare

@[simp] theorem optional_some (w : String) : optional (some w) = bare w := rfl

@[simp] theorem optional_none : optional none = [] := rfl

@[simp] theorem flatMap_toList_bare (o : Option String) : o.toList.flatMap bare = optional o := by
  cases o <;> simp

theorem spells_eatIf (b : Bool) : Spells (eatIf b) optional := by
  cases b with
  | false => exact .intro <| .pure rfl
  | true => exact .intro <| spells_advance.andThen fun w => .pure rfl

theorem spells_eatKeyword (k : String) : Spells (eatKeyword k) optional :=
  .intro <| (peeks_atKeyword k).andThen fun b => spells_eatIf b

theorem spells_eatWord (w : String) : Spells (eatWord w) optional :=
  .intro <| (peeks_atWord w).andThen fun b => spells_eatIf b

theorem spells_eatPunctuator (p : String) :
    Spells (eatPunctuator p) fun b => if b then bare p else [] := by
  intro s ts b rest he h
  obtain ⟨found, ts', h₁, h₂⟩ := bind_ok h
  obtain rfl := peeks_atPunctuator p h₁
  cases found with
  | false => cases h₂; rfl
  | true =>
    cases h₂
    have htokens := bareTokens_eq he ts'
    rwa [head_of_atPunctuator h₁] at htokens

theorem spells_eatAnyKeyword (ks : List String) : Spells (eatAnyKeyword ks) optional := by
  induction ks with
  | nil => exact .intro <| .pure rfl
  | cons k ks ih =>
    refine .intro <| (spells_eatKeyword k).andThen fun found => ?_
    cases found with
    | some w => exact .pure rfl
    | none => exact .of ih fun _ => rfl

theorem spells_eatAnyWord (ks : List String) : Spells (eatAnyWord ks) optional := by
  induction ks with
  | nil => exact .intro <| .pure rfl
  | cons k ks ih =>
    refine .intro <| (spells_eatWord k).andThen fun found => ?_
    cases found with
    | some w => exact .pure rfl
    | none => exact .of ih fun _ => rfl

/-- What an optional step took, now that it is known to be there. -/
theorem spells_orMismatched (e : String) (found : Option String) :
    SpellsBehind (optional found) (orMismatched e found) bare := by
  cases found with
  | some w => exact .pure rfl
  | none => exact .reject _

theorem spells_expectKeyword (k : String) : Spells (expectKeyword k) bare :=
  .intro <| (spells_eatKeyword k).andThen fun found => spells_orMismatched k found

theorem spells_expectWord (w : String) : Spells (expectWord w) bare :=
  .intro <| (spells_eatWord w).andThen fun found => spells_orMismatched w found

theorem spells_expectPunctuator (p : String) : Spells (expectPunctuator p) fun _ => bare p := by
  refine .intro <| (spells_eatPunctuator p).andThen fun found => ?_
  cases found with
  | true => exact .pure rfl
  | false => exact .reject _

theorem spells_expectPair (a b : String) : Spells (expectPair a b) bare :=
  .intro <| (spells_expectKeyword a).andThen fun v => (spells_expectKeyword b).andThen fun w =>
    .pure (by simp)

theorem spells_expectName : Spells expectName bare :=
  .intro <| peeks_current.andThen fun _ => .ite (.of spells_advance fun _ => rfl) (.reject _)

/-! ### Repetitions -/

theorem spells_commaTail {item : Parser α} (hi : Spells item text) (n : Nat) :
    Spells (commaTail item n) fun as => as.flatMap fun a => ',' :: text a := by
  induction n with
  | zero => exact .intro <| .pure rfl
  | succ n ih =>
    refine .intro <| (spells_eatPunctuator ",").andThen fun found => ?_
    cases found with
    | false => exact .pure rfl
    | true => exact hi.andThen fun a => ih.andThen fun as => .pure (by simp)

theorem spells_commaList {item : Parser α} (hi : Spells item text) :
    Spells (commaList item) fun as => commaed (as.map text) :=
  .intro <| hi.andThen fun a => (Spells.bounded (spells_commaTail hi)).andThen fun as =>
    .pure (by simp [List.flatMap_map])

theorem commaList_ne_nil (item : Parser α) : Yields (commaList item) (· ≠ []) :=
  .of_bind fun _ => .of_bind fun _ => .pure (by simp)

theorem Yields.manyWhile {test : Parser Bool} {item : Parser α} {Q : α → Prop} (hi : Yields item Q) :
    Yields (manyWhile test item) fun as => ∀ a ∈ as, Q a := by
  have hitems (n : Nat) : Yields (itemsWhile test item n) fun as => ∀ a ∈ as, Q a := by
    induction n with
    | zero => exact .pure (by simp)
    | succ n ih =>
      refine .of_bind fun _ => .ite ?_ (.pure (by simp))
      exact .of_bindOf hi fun a ha => .of_bindOf ih fun as has =>
        .pure (List.forall_mem_cons.2 ⟨ha, has⟩)
  exact fun _ ts _ _ h => hitems ts.length h

/-- An item may rely on the test that was passed in front of it. -/
theorem spells_itemsWhile {test : Parser Bool} {item : Parser α} (ht : Peeks test)
    (hi : ∀ ⦃s ts a rest⦄, bare s.eof.literal = [] → test s ts = .ok (true, ts) →
      item s ts = .ok (a, rest) → bareTokens ts = text a ++ bareTokens rest) (n : Nat) :
    Spells (itemsWhile test item n) (·.flatMap text) := by
  induction n with
  | zero => exact .intro <| .pure rfl
  | succ n ih =>
    intro s ts as rest he h
    obtain ⟨found, ts', h₁, h₂⟩ := bind_ok h
    obtain rfl := ht h₁
    cases found with
    | false => cases h₂; rfl
    | true =>
      obtain ⟨a, ts₁, ha, h₃⟩ := bind_ok h₂
      obtain ⟨as', ts₂, has, h₄⟩ := bind_ok h₃
      obtain ⟨rfl, rfl⟩ := pure_ok h₄
      rw [hi he h₁ ha, ih he has]
      simp

theorem spells_manyWhile {test : Parser Bool} {item : Parser α} (ht : Peeks test)
    (hi : Spells item text) : Spells (manyWhile test item) (·.flatMap text) :=
  fun _ ts _ _ he h => spells_itemsWhile ht (fun _ _ _ _ he _ ha => hi he ha) ts.length he h

theorem peeks_atPathStep : Peeks atPathStep :=
  peeks_current.bind fun _ => peeks_peek.bind fun _ => .pure _

theorem spells_pathSteps : Spells pathSteps (·.flatMap fun w => '.' :: bare w) := by
  refine fun s ts ws rest he h => spells_itemsWhile peeks_atPathStep ?_ ts.length he h
  intro s ts w rest he htest h
  have hdot : (ts.headD s.eof).literal = "." := by
    rw [atPathStep, current_bind] at htest
    obtain ⟨next, ts₁, _, h₂⟩ := bind_ok htest
    have hboth := (pure_ok h₂).1.symm
    rw [Bool.and_eq_true] at hboth
    exact literal_of_isPunctuator hboth.1
  obtain ⟨point, ts₁, h₁, h₂⟩ := bind_ok h
  cases h₁
  rw [bareTokens_eq he ts, hdot, spells_advance he h₂]
  simp

theorem spells_qualifiedName : Spells qualifiedName bare :=
  .intro <| spells_expectName.andThen fun w => spells_pathSteps.andThen fun ws =>
    .pure (by simp [Text.bare_intercalate])

/-! ### Expressions -/

open Rendering (spaced)

/-- Rules whose parsers take what their results write out. -/
structure Rules.Spelling (r : Rules) : Prop where
  expression (p : Precedence) : Spells (r.expression p) fun e => e.rendering.bare
  select : Spells r.select fun s => s.rendering.bare

section Expressions

variable {r : Rules} (hr : r.Spelling)

include hr

theorem spells_expressions : Spells r.expressions fun es => commaed (es.map fun e => e.rendering.bare) :=
  spells_commaList (hr.expression _)

theorem spells_parenthesizedQuery :
    Spells (parenthesizedQuery r) fun q => '(' :: q.rendering.bare ++ [')'] :=
  .intro <| (spells_expectPunctuator "(").andThen fun _ => hr.select.andThen fun _ =>
    (spells_expectPunctuator ")").andThen fun _ => .pure (by simp)

/-- Either the query was taken, or nothing was. -/
theorem nestedQuery?_ok {s : Setting} {ts rest : List Token} {o : Option SelectStatement}
    (he : bare s.eof.literal = []) (h : nestedQuery? r s ts = .ok (o, rest)) :
    (o = none ∧ rest = ts) ∨
      ∃ q, o = some q ∧ bareTokens ts = '(' :: q.rendering.bare ++ [')'] ++ bareTokens rest := by
  obtain ⟨next, ts', h₁, h₂⟩ := bind_ok h
  obtain rfl := peeks_nextIsOpenParen h₁
  cases next with
  | false => exact .inl (pure_ok h₂)
  | true =>
    rcases s with ⟨d, mode, eof⟩
    cases mode with
    | fast => cases h₂
    | backtracking =>
      change attempt (parenthesizedQuery r) _ _ = _ at h₂
      unfold attempt at h₂
      split at h₂
      next q ts₁ hq =>
        cases h₂
        exact .inr ⟨q, rfl, spells_parenthesizedQuery hr he hq⟩
      next =>
        cases h₂
        exact .inl ⟨rfl, rfl⟩

theorem spells_nestedQuery? :
    Spells (nestedQuery? r) (·.elim [] fun q => '(' :: q.rendering.bare ++ [')']) := by
  intro s ts o rest he h
  obtain ⟨rfl, rfl⟩ | ⟨q, rfl, hq⟩ := nestedQuery?_ok hr he h
  · rfl
  · exact hq

omit hr in
theorem bare_unary (op : String) (e : Expr) :
    (Expr.unary op e).rendering.bare = bare op ++ e.rendering.bare := by
  simp only [Expr.rendering]
  split <;> simp

omit hr in
theorem peeks_nextPrecedence : Peeks nextPrecedence := by
  refine peeks_current.bind fun t => peeks_peek.bind fun next => ?_
  repeat' apply Peeks.ite
  all_goals exact .pure _

omit hr in
theorem spells_pathExpr : Spells pathExpr fun e => e.rendering.bare :=
  .intro <| spells_advance.andThen fun w => spells_pathSteps.andThen fun ws =>
    .pure (by simp [Expr.rendering, Text.bare_intercalate])

omit hr in
theorem peeks_argumentGoesOn : Peeks argumentGoesOn :=
  (peeks_atPunctuator ",").bind fun _ => (peeks_atPunctuator ")").bind fun _ =>
    peeks_atEnd.bind fun _ => .pure _

theorem spells_argumentFragment : Spells (argumentFragment r) Fragment.bare :=
  .intro <| (peeks_atAnyKeyword _).andThen fun _ => peeks_nextIsOpenParen.andThen fun _ =>
    .ite (spells_advance.andThen fun _ => .pure rfl)
      ((hr.expression _).andThen fun _ => .pure rfl)

theorem spells_argument : Spells (argument r) (·.flatMap Fragment.bare) :=
  .intro <| (spells_manyWhile peeks_argumentGoesOn (spells_argumentFragment hr)).andThen fun _ =>
    .ite (.reject _) (.pure rfl)

omit hr in
theorem argument_ne_nil : Yields (argument r) (· ≠ []) := by
  refine .of_bind fun fragments => ?_
  split
  · exact .reject _ _
  next h => exact .pure (by simpa using h)

omit hr in
theorem argumentList_ne_nil (n : Nat) :
    Yields (argumentList r n) fun as => as ≠ [] ∧ ∀ a ∈ as, a ≠ [] := by
  induction n with
  | zero => exact .reject _ _
  | succ n ih =>
    intro s ts as rest h
    obtain ⟨a, ts₁, ha, h₁⟩ := bind_ok h
    obtain ⟨closed, ts₂, _, h₂⟩ := bind_ok h₁
    have hne := argument_ne_nil ha
    cases closed with
    | true =>
      obtain ⟨rfl, rfl⟩ := pure_ok h₂
      simpa using hne
    | false =>
      obtain ⟨_, ts₃, _, h₃⟩ := bind_ok h₂
      obtain ⟨as', ts₄, has, h₄⟩ := bind_ok h₃
      obtain ⟨rfl, rfl⟩ := pure_ok h₄
      simpa [hne] using (ih has).2

theorem spells_argumentList (n : Nat) : Spells (argumentList r n) fun as =>
    commaed (as.map (·.flatMap Fragment.bare)) ++ [')'] := by
  induction n with
  | zero => exact .intro <| .reject _
  | succ n ih =>
    refine .intro <| (spells_argument hr).andThen fun a => (spells_eatPunctuator ")").andThen
      fun closed => ?_
    cases closed with
    | true => exact .pure (by simp)
    | false =>
      refine (spells_expectPunctuator ",").andThen fun _ =>
        ih.andThenOf (argumentList_ne_nil n) fun as hne => .pure ?_
      rcases as with _ | ⟨b, bs⟩
      · exact absurd rfl hne.1
      · simp

theorem spells_functionCall : Spells (functionCall r) fun e => e.rendering.bare := by
  refine .intro <| peeks_dialect.andThen fun _ => peeks_current.andThen fun _ =>
    .ite (.reject _) ?_
  refine spells_advance.andThen fun name => (spells_expectPunctuator "(").andThen fun _ =>
    (spells_eatPunctuator ")").andThen fun closed => ?_
  cases closed with
  | true => exact .pure (by simp [Expr.rendering, argumentRenderings])
  | false =>
    refine (Spells.bounded fun n => spells_argumentList hr (n + 1)).andThenOf
      (fun _ ts _ _ h => argumentList_ne_nil (ts.length + 1) h) fun as hne => .pure ?_
    simp [Expr.rendering, bare_argumentRenderings hne.2]

theorem spells_parenthesized : Spells (parenthesized r) fun e => e.rendering.bare := by
  refine .intro <| (spells_nestedQuery? hr).andThen fun query => ?_
  cases query with
  | some query => exact .pure (by simp [Expr.rendering])
  | none =>
    refine (spells_expectPunctuator "(").andThen fun _ => (peeks_atAnyKeyword _).andThen fun _ =>
      .ite ?_ ?_
    · exact hr.select.andThen fun _ => (spells_expectPunctuator ")").andThen fun _ =>
        .pure (by simp [Expr.rendering])
    · refine (hr.expression _).andThen fun _ => (peeks_atPunctuator ",").andThen fun _ => .ite ?_ ?_
      · exact (Spells.bounded (spells_commaTail (hr.expression _))).andThen fun _ =>
          (spells_expectPunctuator ")").andThen fun _ =>
            .pure (by simp [Expr.rendering, List.flatMap_map])
      · exact (spells_expectPunctuator ")").andThen fun _ => .pure (by simp [Expr.rendering])
omit hr in
theorem spells_braceLiteral {s : Setting} {ts rest : List Token} {e : Expr}
    (he : bare s.eof.literal = []) (hbrace : (ts.headD s.eof).literal = openBrace)
    (h : braceLiteral s ts = .ok (e, rest)) :
    bareTokens ts = e.rendering.bare ++ bareTokens rest := by
  obtain ⟨_, ts₁, h₁, h₂⟩ := bind_ok h
  cases h₁
  rw [bareTokens_eq he ts, hbrace]
  refine (?_ : SpellsBehind (bare openBrace) _ fun e : Expr => e.rendering.bare) he h₂
  exact (spells_manyWhile ((peeks_atPunctuator _).bind fun _ => peeks_atEnd.bind fun _ => .pure _)
    spells_advance).andThen fun _ => (spells_expectPunctuator _).andThen fun _ =>
      .pure (by simp [Expr.rendering])

theorem spells_whenBranch : Spells (whenBranch r) CaseBranch.bare :=
  .intro <| spells_advance.andThen fun _ => (hr.expression _).andThen fun _ =>
    (spells_expectKeyword _).andThen fun _ => (hr.expression _).andThen fun _ =>
      .pure (by simp [CaseBranch.bare])

theorem spells_caseExpr : Spells (caseExpr r) fun e => e.rendering.bare := by
  refine .intro <| spells_advance.andThen fun keyword => (peeks_atKeyword "WHEN").andThen fun _ => ?_
  extract_lets behindOperand
  have hrest : ∀ operand : Option Expr,
      SpellsBehind (bare keyword ++ operand.elim [] fun e => e.rendering.bare)
        (behindOperand operand) fun e => e.rendering.bare := by
    intro operand
    refine (spells_manyWhile (peeks_atKeyword _) (spells_whenBranch hr)).andThen fun whens => ?_
    refine .ite (.reject _) <| (spells_eatKeyword "ELSE").andThen fun found => ?_
    have hend : Spells (expectKeyword "END") bare := spells_expectKeyword _
    cases found with
    | some w =>
      exact (hr.expression _).andThen fun e => hend.andThen fun _ =>
        .pure (by simp [Expr.rendering, CaseBranch.bare])
    | none => exact hend.andThen fun _ => .pure (by simp [Expr.rendering])
  refine .ite ?_ ?_
  · exact fun s ts a rest he h => by simpa using hrest none he h
  · have hsome : Spells (some <$> r.expression .lowest)
        (fun operand : Option Expr => operand.elim [] fun e => e.rendering.bare) :=
      (hr.expression _).map some fun _ => rfl
    exact hsome.andThen hrest

theorem spells_constructorCall : Spells (constructorCall r) fun e => e.rendering.bare :=
  .intro <| spells_advance.andThen fun _ => spells_qualifiedName.andThen fun _ =>
    (spells_expectPunctuator "(").andThen fun _ => (spells_expressions hr).andThen fun _ =>
      (spells_expectPunctuator ")").andThen fun _ => .pure (by simp [Expr.rendering])

theorem spells_keywordOperand : Spells (keywordOperand r) fun e => e.rendering.bare := by
  refine .intro <| peeks_current.andThen fun t => ?_
  refine .ite (spells_advance.andThen fun _ => (hr.expression _).andThen fun _ =>
    .pure (by simp [bare_unary])) ?_
  refine .ite (spells_advance.andThen fun _ => (peeks_atPunctuator _).andThen fun _ =>
    .ite ((spells_parenthesized hr).andThen fun _ => .pure (by simp [bare_unary])) (.reject _)) ?_
  refine .ite (spells_advance.andThen fun _ => .pure (by simp [Expr.rendering])) ?_
  refine .ite (spells_caseExpr hr) (.ite (spells_constructorCall hr) ?_)
  refine peeks_nextIsOpenParen.andThen fun _ => .ite ?_ ?_
  · exact spells_advance.andThen fun _ => (spells_parenthesizedQuery hr).andThen fun _ =>
      .pure (by simp [Expr.rendering])
  · exact peeks_nextIsOpenParen.andThen fun _ => .ite (spells_functionCall hr) (.reject _)

/-- Where a token is dropped, its text is known from the test before. -/
theorem spells_operand : Spells (operand r) fun e => e.rendering.bare := by
  intro s ts e rest he h
  rw [operand, current_bind] at h
  revert h
  generalize ht : ts.headD s.eof = t
  suffices hall : ∀ p : Parser Expr, Spells p (fun e => e.rendering.bare) →
      p s ts = .ok (e, rest) → bareTokens ts = e.rendering.bare ++ bareTokens rest by
    cases t.kind with
    | parameter | string | integer | decimal =>
      exact hall _ <| .intro <| spells_advance.andThen fun _ => .pure (by simp [Expr.rendering])
    | operator =>
      dsimp only
      split
      · exact hall _ <| .intro <| spells_advance.andThen fun _ => (hr.expression _).andThen fun _ =>
          .pure (by simp [bare_unary])
      split
      next hstar =>
        intro h
        obtain ⟨_, ts₁, h₁, h₂⟩ := bind_ok h
        cases h₁
        cases h₂
        rw [bareTokens_eq he ts, ht, eq_of_beq hstar]
        simp [Expr.rendering]
      · intro h
        cases h
    | identifier =>
      exact hall _ <| .intro <| peeks_nextIsOpenParen.andThen fun _ =>
        .ite (spells_functionCall hr) spells_pathExpr
    | punctuator =>
      dsimp only
      split
      · exact hall _ (spells_parenthesized hr)
      split
      next hbrace => exact spells_braceLiteral he (ht ▸ eq_of_beq hbrace)
      · intro h
        cases h
    | keyword => exact hall _ (spells_keywordOperand hr)
    | eof | illegal =>
      intro h
      cases h
  exact fun p hp h => hp he h

/-! ### Operators -/

variable (left : Expr)

theorem spells_isTest :
    SpellsBehind left.rendering.bare (isTest r left) fun e => e.rendering.bare := by
  refine spells_advance.andThen fun _ => (spells_eatKeyword "NOT").andThen fun _ =>
    (spells_eatKeyword "DISTINCT").andThen fun found => ?_
  cases found with
  | some w =>
    exact (spells_expectKeyword _).andThen fun _ => (hr.expression _).andThen fun _ =>
      .pure (by simp [Expr.rendering])
  | none =>
    refine (spells_eatAnyKeyword _).andThen fun found => ?_
    cases found with
    | some w => exact .pure (by simp [Expr.rendering, optionalRendering])
    | none => exact .reject _

theorem spells_likeTest (words : String) :
    SpellsBehind (left.rendering.bare ++ bare words) (likeTest r left words)
      fun e => e.rendering.bare := by
  refine (hr.expression _).andThen fun _ => (spells_eatKeyword "ESCAPE").andThen fun found => ?_
  cases found with
  | some w => exact (spells_operand hr).andThen fun _ => .pure (by simp [Expr.rendering])
  | none => exact .pure (by simp [Expr.rendering])

theorem spells_inTest (words : String) :
    SpellsBehind (left.rendering.bare ++ bare words) (inTest r left words)
      fun e => e.rendering.bare := by
  intro s ts e rest he h
  obtain ⟨open?, ts', h₁, h₂⟩ := bind_ok h
  obtain rfl := peeks_atPunctuator "(" h₁
  cases open? with
  | false =>
    exact (Spells.andThen (spells_operand hr) fun _ => .pure (by simp [Expr.rendering]) :
      SpellsBehind _ _ fun e : Expr => e.rendering.bare) he h₂
  | true =>
    obtain ⟨query, ts₁, h₃, h₄⟩ := bind_ok h₂
    obtain ⟨rfl, rfl⟩ | ⟨q, rfl, hq⟩ := nestedQuery?_ok hr he h₃
    · obtain ⟨next, ts₂, hnext, h₅⟩ := bind_ok h₄
      obtain rfl := peeks_peek hnext
      split at h₅
      · exact (Spells.andThen (spells_parenthesizedQuery hr) fun _ => .pure (by simp [Expr.rendering]) :
          SpellsBehind _ _ fun e : Expr => e.rendering.bare) he h₅
      · obtain ⟨_, ts₃, hopen, h₆⟩ := bind_ok h₅
        cases hopen
        rw [bareTokens_eq he ts₂, head_of_atPunctuator h₁, ← List.append_assoc]
        refine (?_ : SpellsBehind (left.rendering.bare ++ bare words ++ bare "(") _
          fun e : Expr => e.rendering.bare) he h₆
        refine (spells_eatPunctuator ")").andThen fun closed => ?_
        cases closed with
        | true => exact .pure (by simp [Expr.rendering, exprRenderings])
        | false =>
          exact (spells_expressions hr).andThen fun _ => (spells_expectPunctuator ")").andThen
            fun _ => .pure (by simp [Expr.rendering])
    · obtain ⟨rfl, rfl⟩ := pure_ok h₄
      simp [hq, Expr.rendering]

theorem spells_betweenTest (words : String) :
    SpellsBehind (left.rendering.bare ++ bare words) (betweenTest r left words)
      fun e => e.rendering.bare :=
  (hr.expression _).andThen fun _ => (spells_expectKeyword "AND").andThen fun _ =>
    (hr.expression _).andThen fun _ => .pure (by simp [Expr.rendering])

theorem spells_memberTest (words : List String) :
    SpellsBehind (left.rendering.bare ++ words.flatMap bare) (memberTest r left words)
      fun e => e.rendering.bare :=
  (spells_eatKeyword "OF").andThen fun _ => (hr.expression _).andThen fun _ =>
    .pure (by simp [Expr.rendering])

theorem spells_extend (precedence : Precedence) :
    SpellsBehind left.rendering.bare (extend r left precedence) fun e => e.rendering.bare := by
  refine peeks_current.andThen fun t => ?_
  refine .ite (spells_advance.andThen fun _ => (hr.expression _).andThen fun _ =>
    .pure (by simp [Expr.rendering])) ?_
  refine .ite (spells_isTest hr left) ?_
  refine (spells_eatKeyword "NOT").andThen fun notWord => peeks_current.andThen fun t =>
    spells_advance.andThen fun w => ?_
  have hwords : left.rendering.bare ++ optional notWord ++ bare w =
      left.rendering.bare ++ bare (" ".intercalate (notWord.toList ++ [w])) := by simp
  rw [hwords]
  refine .ite (spells_likeTest hr left _) (.ite (spells_inTest hr left _) ?_)
  refine .ite (spells_betweenTest hr left _) (.ite ?_ (.reject _))
  rw [Text.bare_spaced]
  exact spells_memberTest hr left _

theorem spells_extendWhile (precedence : Precedence) (n : Nat) :
    SpellsBehind left.rendering.bare (extendWhile r precedence left n)
      fun e => e.rendering.bare := by
  induction n generalizing left with
  | zero => exact .pure rfl
  | succ n ih =>
    intro s ts e rest he h
    obtain ⟨next, ts', h₁, h₂⟩ := bind_ok h
    obtain rfl := peeks_nextPrecedence h₁
    split at h₂
    · obtain ⟨rfl, rfl⟩ := pure_ok h₂
      rfl
    · obtain ⟨longer, ts₁, hext, h₃⟩ := bind_ok h₂
      rw [spells_extend hr left next he hext]
      exact ih longer he h₃

theorem spells_expression (precedence : Precedence) :
    Spells (expression r precedence) fun e => e.rendering.bare :=
  .intro <| (spells_operand hr).andThen fun left _ ts _ _ he h =>
    spells_extendWhile hr left precedence ts.length he h

end Expressions

/-! ### Clauses -/

theorem peeks_atJoin : Peeks atJoin :=
  peeks_current.bind fun _ => peeks_peek.bind fun _ => (peeks_peekAt 2).bind fun _ => .pure _

theorem peeks_atClauseWord : Peeks atClauseWord := by
  refine peeks_dialect.bind fun _ => ?_
  extract_lets behindPaging
  have hrest : ∀ paging, Peeks (behindPaging paging) := fun _ => peeks_atJoin.bind fun _ => .pure _
  refine .ite ?_ ((Peeks.pure _).bind hrest)
  exact (peeks_atWord _).bind fun _ => (peeks_atWord _).bind fun _ => (Peeks.pure _).bind hrest

theorem spells_aliasClause? : Spells aliasClause? (·.elim [] Alias.bare) := by
  refine .intro <| (spells_eatKeyword "AS").andThen fun found => ?_
  cases found with
  | some w => exact spells_expectName.andThen fun _ => .pure (by simp [Alias.bare])
  | none =>
    exact peeks_current.andThen fun _ => peeks_atClauseWord.andThen fun _ =>
      .ite (spells_advance.andThen fun _ => .pure (by simp [Alias.bare])) (.pure rfl)

theorem spells_optionalWord (words : List String) :
    Spells (optionalWord words) (·.flatMap Fragment.bare) := by
  refine .intro <| (spells_eatAnyWord words).andThen fun found => .pure ?_
  cases found <;> simp [Fragment.bare]

section Clauses

variable {r : Rules} (hr : r.Spelling)

include hr

theorem spells_condition? (keywords : List String) :
    Spells (condition? r keywords) (·.elim [] Condition.bare) := by
  refine .intro <| (spells_eatAnyKeyword keywords).andThen fun found => ?_
  cases found with
  | some w => exact (hr.expression _).andThen fun _ => .pure (by simp [Condition.bare])
  | none => exact .pure rfl

theorem spells_selectItem : Spells (selectItem r) SelectItem.bare :=
  .intro <| (hr.expression _).andThen fun _ => spells_aliasClause?.andThen fun _ =>
    .pure (by simp [SelectItem.bare])

theorem spells_join : Spells (join r) Join.bare :=
  .intro <| (spells_manyWhile ((peeks_atKeyword _).bind fun _ => .pure _) spells_advance).andThen
    fun _ => spells_advance.andThen fun _ => (spells_eatKeyword _).andThen fun _ =>
      (hr.expression _).andThen fun _ => spells_aliasClause?.andThen fun _ =>
        (spells_condition? hr _).andThen fun _ => .pure (by simp [Join.bare])

theorem spells_rootSource : Spells (rootSource r) fun s => s.rendering.bare := by
  refine .intro <| (peeks_atKeyword "IN").andThen fun _ => peeks_nextIsOpenParen.andThen fun _ =>
    .ite ?_ ?_
  · exact spells_advance.andThen fun _ => (spells_expectPunctuator "(").andThen fun _ =>
      (hr.expression _).andThen fun _ => (spells_expectPunctuator ")").andThen fun _ =>
        .pure (by simp [RootSource.rendering])
  · exact (peeks_atPunctuator "(").andThen fun _ => peeks_dialect.andThen fun _ =>
      .ite ((spells_parenthesizedQuery hr).andThen fun _ => .pure (by simp [RootSource.rendering]))
        (spells_qualifiedName.andThen fun _ => .pure (by simp [RootSource.rendering]))

theorem spells_fromRoot : Spells (fromRoot r) FromRoot.bare :=
  .intro <| (spells_rootSource hr).andThen fun _ => spells_aliasClause?.andThen fun _ =>
    (spells_manyWhile peeks_atJoin (spells_join hr)).andThen fun _ =>
      .pure (by simp [FromRoot.bare])

theorem spells_orderItem : Spells (orderItem r) OrderItem.bare := by
  refine .intro <| (hr.expression _).andThen fun e => (spells_eatAnyKeyword _).andThen fun direction =>
    (spells_eatKeyword "NULLS").andThen fun found => ?_
  cases found with
  | some w =>
    refine (spells_eatAnyWord _).andThen fun found => ?_
    cases found with
    | some place => cases direction <;> exact .pure (by simp [OrderItem.bare])
    | none => exact .reject _
  | none => cases direction <;> exact .pure (by simp [OrderItem.bare])

theorem spells_fetchClause (fetch : String) :
    SpellsBehind (bare fetch) (fetchClause r fetch) (·.flatMap Fragment.bare) := by
  refine (spells_eatAnyWord _).andThen fun found => ?_
  cases found with
  | none => exact .reject _
  | some first =>
    refine (hr.expression _).andThen fun count => (spells_optionalWord _).andThen fun percent =>
      (spells_eatAnyWord _).andThen fun found => ?_
    cases found with
    | none => exact .reject _
    | some rows =>
      refine (spells_eatWord "ONLY").andThen fun found => ?_
      cases found with
      | some w => exact .pure (by simp [Fragment.bare])
      | none =>
        exact (spells_expectKeyword _).andThen fun _ => (spells_expectWord _).andThen fun _ =>
          .pure (by simp [Fragment.bare])

theorem spells_pagingClause? : Spells (pagingClause? r) (·.elim [] (·.flatMap Fragment.bare)) := by
  refine .intro <| (spells_eatWord "LIMIT").andThen fun limit => ?_
  cases limit with
  | some w => exact (hr.expression _).andThen fun _ => .pure (by simp [Fragment.bare])
  | none =>
    refine (spells_eatWord "OFFSET").andThen fun offset => ?_
    cases offset with
    | some w =>
      exact (hr.expression _).andThen fun _ => (spells_optionalWord _).andThen fun _ =>
        .pure (by simp [Fragment.bare])
    | none =>
      refine (spells_eatKeyword "FETCH").andThen fun fetch => ?_
      cases fetch with
      | some w =>
        exact (spells_fetchClause hr w).andThen fun _ => .pure rfl
      | none => exact .pure rfl

theorem spells_pagingClauses (n : Nat) : Spells (pagingClauses r n) (·.flatMap Fragment.bare) := by
  induction n with
  | zero => exact .intro <| .pure rfl
  | succ n ih =>
    refine .intro <| (spells_pagingClause? hr).andThen fun found => ?_
    cases found with
    | some fragments => exact ih.andThen fun _ => .pure (by simp)
    | none => exact .pure rfl

/-! ### Queries -/

theorem spells_selectClause : Spells (selectClause r) fun c =>
    bare c.1 ++ optional c.2.1 ++ commaed (c.2.2.map SelectItem.bare) :=
  .intro <| (peeks_atKeyword "SELECT").andThen fun _ =>
    .ite (spells_advance.andThen fun _ => (spells_eatKeyword _).andThen fun _ =>
      (spells_commaList (spells_selectItem hr)).andThen fun _ => .pure (by simp)) <|
    peeks_dialect.andThen fun _ => .ite (.pure (by simp)) (.reject _)

omit hr in
theorem selectClause_tidy :
    Yields (selectClause r) fun c => c.2.2 = [] → c.1 = "" ∧ c.2.1 = none := by
  refine .of_bind fun _ => .ite (.of_bind fun _ => .of_bind fun _ => ?_) ?_
  · exact .of_bindOf (commaList_ne_nil _) fun items hne => .pure fun h => absurd h hne
  · exact .of_bind fun _ => .ite (.pure fun _ => ⟨rfl, rfl⟩) (.reject _ _)

theorem spells_fromClause : Spells (fromClause r) fun c =>
    bare c.1 ++ commaed (c.2.map FromRoot.bare) :=
  .intro <| (peeks_atKeyword "FROM").andThen fun _ =>
    .ite (spells_advance.andThen fun _ => (spells_commaList (spells_fromRoot hr)).andThen fun _ =>
      .pure (by simp)) <|
    peeks_dialect.andThen fun _ => .ite (.pure (by simp)) (.reject _)

omit hr in
theorem fromClause_tidy : Yields (fromClause r) fun c => c.2 = [] → c.1 = "" := by
  refine .of_bind fun _ => .ite (.of_bind fun _ => ?_) ?_
  · exact .of_bindOf (commaList_ne_nil _) fun roots hne => .pure fun h => absurd h hne
  · exact .of_bind fun _ => .ite (.pure fun _ => rfl) (.reject _ _)

omit hr in
theorem spells_listBehind (first second : String) {items : Parser (List α)}
    {text : List α → List Char} (hi : Spells items text) (hnil : text [] = []) :
    Spells (listBehind first second items) fun c => bare c.1 ++ text c.2 :=
  .intro <| (peeks_atKeyword first).andThen fun _ =>
    .ite ((spells_expectPair first second).andThen fun _ => hi.andThen fun _ => .pure (by simp))
      (.pure (by simp [hnil]))

omit hr in
theorem listBehind_tidy (first second : String) {items : Parser (List α)}
    (hi : Yields items (· ≠ [])) :
    Yields (listBehind first second items) fun c => c.2 = [] → c.1 = "" := by
  refine .of_bind fun _ => .ite (.of_bind fun _ => ?_) (.pure fun _ => rfl)
  exact .of_bindOf hi fun as hne => .pure fun h => absurd h hne

theorem spells_querySpec : Spells (querySpec r) fun q => q.rendering.bare := by
  refine .intro <| (spells_selectClause hr).andThenOf selectClause_tidy
    fun ⟨selectWord, distinct, items⟩ hselect => ?_
  refine (spells_fromClause hr).andThenOf fromClause_tidy fun ⟨fromWord, roots⟩ hsource =>
    .ite (.reject _) ?_
  refine (spells_condition? hr _).andThen fun filter => ?_
  refine (spells_listBehind _ _ (spells_expressions hr) rfl).andThenOf
    (listBehind_tidy _ _ (commaList_ne_nil _)) fun ⟨groupWords, groups⟩ hgroup => ?_
  refine (spells_condition? hr _).andThen fun groupFilter => ?_
  refine (spells_listBehind _ _ (spells_commaList (spells_orderItem hr)) rfl).andThenOf
    (listBehind_tidy _ _ (commaList_ne_nil _)) fun ⟨orderWords, orders⟩ horder => ?_
  refine peeks_dialect.andThen fun _ => ?_
  have htidy (paging : List Fragment) : QuerySpec.Tidy ⟨selectWord, distinct, items, fromWord, roots,
      filter, groupWords, groups, groupFilter, orderWords, orders, paging⟩ :=
    ⟨hselect, hsource, hgroup, horder⟩
  refine .ite ((Spells.bounded (spells_pagingClauses hr)).andThen fun paging => .pure ?_) (.pure ?_)
  · simp [QuerySpec.bare_rendering (htidy paging), optional]
  · simp [QuerySpec.bare_rendering (htidy []), optional]

theorem spells_queryTerm : Spells (queryTerm r) fun q => q.rendering.bare := by
  refine .intro <| (spells_eatPunctuator "(").andThen fun opened => ?_
  cases opened with
  | true =>
    exact hr.select.andThen fun _ => (spells_expectPunctuator ")").andThen fun _ =>
      .pure (by simp [QueryTerm.rendering])
  | false => exact (spells_querySpec hr).andThen fun _ => .pure (by simp [QueryTerm.rendering])

theorem spells_setOperation : Spells (setOperation r) SetOperation.bare :=
  .intro <| spells_advance.andThen fun _ => (spells_eatAnyKeyword _).andThen fun _ =>
    (spells_queryTerm hr).andThen fun _ => .pure (by simp [SetOperation.bare])

theorem spells_cte : Spells (cte r) Cte.bare :=
  .intro <| spells_expectName.andThen fun _ => (spells_expectKeyword "AS").andThen fun _ =>
    (spells_parenthesizedQuery hr).andThen fun _ => .pure (by simp [Cte.bare])

theorem spells_withClause : Spells (withClause r) fun c => bare c.1 ++ commaed (c.2.map Cte.bare) :=
  .intro <| (peeks_atKeyword "WITH").andThen fun _ =>
    .ite (spells_advance.andThen fun _ => (spells_eatWord _).andThen fun _ =>
      (spells_commaList (spells_cte hr)).andThen fun _ => .pure (by simp)) (.pure (by simp))

omit hr in
theorem withClause_tidy : Yields (withClause r) fun c => c.2 = [] → c.1 = "" := by
  refine .of_bind fun _ => .ite (.of_bind fun _ => .of_bind fun _ => ?_) (.pure fun _ => rfl)
  exact .of_bindOf (commaList_ne_nil _) fun ctes hne => .pure fun h => absurd h hne

theorem spells_selectStatement : Spells (selectStatement r) fun s => s.rendering.bare := by
  refine .intro <| (spells_withClause hr).andThenOf withClause_tidy fun ⟨withWords, ctes⟩ hwith => ?_
  refine (spells_queryTerm hr).andThen fun first =>
    (spells_manyWhile (peeks_atAnyKeyword _) (spells_setOperation hr)).andThen fun operations => ?_
  have htext := SelectStatement.bare_rendering (s := ⟨withWords, ctes, first, operations⟩) hwith
  exact .pure (by simp [htext])

/-! ### Statements -/

theorem spells_assignment : Spells (assignment r) fun a =>
    a.1.rendering.bare ++ '=' :: a.2.rendering.bare := by
  intro s ts a rest he h
  obtain ⟨target, ts₁, h₁, h₂⟩ := bind_ok h
  rw [current_bind] at h₂
  split at h₂
  next hequals =>
    obtain ⟨_, ts₂, h₃, h₄⟩ := bind_ok h₂
    cases h₃
    obtain ⟨value, ts₃, h₅, h₆⟩ := bind_ok h₄
    obtain ⟨rfl, rfl⟩ := pure_ok h₆
    simp only [Token.isOperator, Bool.and_eq_true, beq_iff_eq] at hequals
    rw [hr.expression _ he h₁, bareTokens_eq he ts₁, hequals.2, hr.expression _ he h₅]
    simp
  next => cases h₂

theorem spells_updateStatement : Spells (updateStatement r) fun s => s.rendering.bare :=
  .intro <| spells_advance.andThen fun _ => spells_qualifiedName.andThen fun _ =>
    spells_aliasClause?.andThen fun _ => (spells_expectKeyword "SET").andThen fun _ =>
      (spells_commaList (spells_assignment hr)).andThen fun _ =>
        (spells_condition? hr _).andThen fun _ => .pure (by simp [UpdateStatement.bare_rendering])

theorem spells_deleteStatement : Spells (deleteStatement r) fun s => s.rendering.bare :=
  .intro <| spells_advance.andThen fun _ => (spells_eatKeyword _).andThen fun _ =>
    spells_qualifiedName.andThen fun _ => spells_aliasClause?.andThen fun _ =>
      (spells_condition? hr _).andThen fun _ => .pure (by simp [DeleteStatement.bare_rendering])

omit hr in
theorem Spells.statement {p : Parser α} (hp : Spells p text) {g : α → Statement}
    (hg : ∀ a, (g a).rendering.bare = text a) :
    Spells (g <$> p) fun s => s.rendering.bare := hp.map g hg

theorem spells_statement : Spells (statement r) fun s => s.rendering.bare := by
  refine .intro <| (peeks_atKeyword "UPDATE").andThen fun _ => ?_
  extract_lets atItsEnd
  have hrest : ∀ s, SpellsBehind ([] ++ s.rendering.bare) (atItsEnd s) fun s => s.rendering.bare :=
    fun s => peeks_atEnd.andThen fun _ => .ite (.pure rfl) (.reject _)
  refine (peeks_atKeyword "DELETE").andThen fun _ => (peeks_atAnyKeyword _).andThen fun _ =>
    (peeks_atPunctuator "(").andThen fun _ => (peeks_atKeyword "FROM").andThen fun _ =>
      peeks_dialect.andThen fun _ => ?_
  refine .ite (((spells_updateStatement hr).statement fun _ => rfl).andThen hrest) ?_
  refine .ite (((spells_deleteStatement hr).statement fun _ => rfl).andThen hrest) ?_
  exact .ite (((spells_selectStatement hr).statement fun _ => rfl).andThen hrest)
    (.of (.intro (.reject _)) fun _ => rfl)

omit hr in
/-- A statement is read up to the end of its text. -/
theorem statement_end {s : Setting} {ts rest : List Token} {st : Statement}
    (h : statement r s ts = .ok (st, rest)) : rest = [] := by
  refine (?_ : Exhausts (statement r)) h
  refine .of_bind fun _ => ?_
  extract_lets atItsEnd
  have hrest (p : Parser Statement) : Exhausts (p >>= atItsEnd) := .of_bind fun st => by
    intro s ts a rest h
    obtain ⟨ended, ts', h₁, h₂⟩ := bind_ok h
    cases h₁
    cases ts with
    | nil => exact (pure_ok h₂).2
    | cons => cases h₂
  refine .of_bind fun _ => .of_bind fun _ => .of_bind fun _ => .of_bind fun _ => .of_bind fun _ => ?_
  exact .ite (hrest _) (.ite (hrest _) (.ite (hrest _) (hrest _)))

end Clauses

/-! ### The grammar -/

theorem spelling_rules (n : Nat) : (rules n).Spelling := by
  induction n with
  | zero => exact ⟨fun _ => .intro <| .reject _, .intro <| .reject _⟩
  | succ n ih => exact ⟨spells_expression ih, spells_selectStatement ih⟩

theorem bareTokens_of_parseTokens {ts : List Token} {place : Position} {d : Dialect} {m : Mode}
    {st : Statement} (h : parseTokens (ts ++ [⟨.eof, "", place⟩]) d m = .ok st) :
    bareTokens ts = st.rendering.bare := by
  rw [parseTokens, List.getLast?_concat, Option.getD_some, List.dropLast_concat] at h
  rcases hs : statement (rules _) ⟨d, m, ⟨.eof, "", place⟩⟩ ts with e | ⟨a, rest⟩
  · rw [hs] at h
    cases h
  · rw [hs] at h
    cases h
    have htext := spells_statement (spelling_rules _) Text.bare_empty hs
    rw [statement_end hs] at htext
    simpa [bareTokens] using htext

theorem exists_parseTokens {query : String} {d : Dialect} {st : Statement}
    (h : parse query d = .ok st) : ∃ m, parseTokens (tokenize query) d m = .ok st := by
  have hok {x : Except Failure Statement} {g : Failure → GrammarError}
      (hx : x.mapError g = .ok st) : x = .ok st := by
    cases x with
    | error e => cases hx
    | ok a => cases hx; rfl
  simp only [parse] at h
  split at h
  · exact ⟨.backtracking, hok h⟩
  · exact ⟨.fast, hok h⟩

/-- A parsed query and the statement it was parsed to have the same text but for blanks and
comments: the tokens that the statement writes out have, in a row, the characters of the tokens of
the query, no token left out or doubled, moved or spelled otherwise. -/
theorem rendering_keeps_tokens (query : String) (d : Dialect) {st : Statement}
    (h : parse query d = .ok st) :
    (st.rendering.toTokens.flatMap (·.value.toList)).filter (!Text.isBlank ·) =
      ((tokenize query).flatMap (·.literal.toList)).filter (!Text.isBlank ·) := by
  obtain ⟨ts, place, hts⟩ := Lexer.exists_tokensFrom query.length {} query.toList
  have htokens : tokenize query = ts ++ [⟨.eof, "", place⟩] := hts
  obtain ⟨m, hm⟩ := exists_parseTokens h
  rw [htokens] at hm ⊢
  have hbare : bareTokens ts = st.rendering.bare := bareTokens_of_parseTokens hm
  simp only [Rendering.bare, bareTokens, Text.bare] at hbare
  rw [List.filter_flatMap, List.filter_flatMap, ← hbare]
  simp

theorem rendering_keeps_tokens_of_from :
    ∃ st, parse "from  User u /* all */ where (u.id)=?1" .hql = .ok st ∧
      (st.rendering.toTokens.flatMap (·.value.toList)).filter (!Text.isBlank ·) =
        "fromUseruwhere(u.id)=?1".toList := by
  have hsome : (parse "from  User u /* all */ where (u.id)=?1" .hql).toOption.isSome := by
    decide +kernel
  have htext : ((tokenize "from  User u /* all */ where (u.id)=?1").flatMap
      (·.literal.toList)).filter (!Text.isBlank ·) = "fromUseruwhere(u.id)=?1".toList := by
    decide +kernel
  rcases h : parse "from  User u /* all */ where (u.id)=?1" .hql with e | st
  · simp [h, Except.toOption] at hsome
  · exact ⟨st, rfl, (rendering_keeps_tokens _ _ h).trans htext⟩

end Jpql.Grammar
