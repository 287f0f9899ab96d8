import Jpql.Proofs.Grammar.Clauses
import Jpql.Proofs.Grammar.Dialects

/-! The same run on another text. Two texts agree up to a seam, and a parser that ends at the seam of
the first, or in front of it, takes the same lexemes of the second for the same result. For that the
lexemes at the seam must be silent: nothing that was begun goes on with them. What a parser does at the
seam is told by its edge. Inside parentheses it never gets there; a list must not find a comma; an
expression ends at any silent lexeme. -/

namespace Jpql

namespace Lexeme

/-- An expression is at its end here, and so is every clause in front of the orders. -/
def Silent (d : Dialect) (l : Lexeme) : Prop :=
  l = .eof ∨ l = .punctuator ")" ∨ l = .punctuator "," ∨
    (l.kind = .keyword ∧ ∃ w ∈ ["ORDER", "FETCH"], eqIgnoringCase l.literal w = true) ∨
    (d.allowsPaging = true ∧ l.kind = .identifier ∧
      ∃ w ∈ ["LIMIT", "OFFSET"], eqIgnoringCase l.literal w = true)

theorem eqIgnoringCase_of_eq {a b c : String} (h : eqIgnoringCase a b = true) :
    eqIgnoringCase a c = eqIgnoringCase b c := by
  rw [eqIgnoringCase, beq_iff_eq] at h
  rw [eqIgnoringCase, eqIgnoringCase, h]

theorem eq_of_isPunctuator {l : Lexeme} {p : String} (h : l.isPunctuator p = true) :
    l = .punctuator p := by
  obtain ⟨kind, literal⟩ := l
  obtain ⟨hkind, hliteral⟩ := Bool.and_eq_true_iff.1 h
  obtain rfl := eq_of_beq hkind
  obtain rfl := eq_of_beq hliteral
  rfl

variable {d : Dialect} {l : Lexeme}

namespace Silent

theorem isKeyword (h : l.Silent d) {k : String}
    (hk : ∀ w ∈ ["ORDER", "FETCH"], eqIgnoringCase w k = false) : l.isKeyword k = false := by
  rcases h with rfl | rfl | rfl | ⟨-, w, hw, hl⟩ | ⟨-, hkind, -⟩
  · rfl
  · rfl
  · rfl
  · rw [Lexeme.isKeyword, eqIgnoringCase_of_eq hl, hk w hw, Bool.and_false]
  · simp [Lexeme.isKeyword, hkind]

theorem isWord (h : l.Silent d) {w : String}
    (hw : ∀ v ∈ ["ORDER", "FETCH", "LIMIT", "OFFSET"], eqIgnoringCase v w = false) :
    l.isWord w = false := by
  rcases h with rfl | rfl | rfl | ⟨-, v, hv, hl⟩ | ⟨-, -, v, hv, hl⟩
  · rfl
  · rfl
  · rfl
  · rw [Lexeme.isWord, eqIgnoringCase_of_eq hl, hw v (List.mem_append_left ["LIMIT", "OFFSET"] hv),
      Bool.and_false]
  · rw [Lexeme.isWord, eqIgnoringCase_of_eq hl, hw v (List.mem_append_right ["ORDER", "FETCH"] hv),
      Bool.and_false]

theorem isPunctuator (h : l.Silent d) {p : String} (hclose : ")" ≠ p) (hcomma : "," ≠ p) :
    l.isPunctuator p = false := by
  rcases h with rfl | rfl | rfl | ⟨hkind, -⟩ | ⟨-, hkind, -⟩
  · rfl
  · simpa [Lexeme.isPunctuator, Lexeme.punctuator] using hclose
  · simpa [Lexeme.isPunctuator, Lexeme.punctuator] using hcomma
  · simp [Lexeme.isPunctuator, hkind]
  · simp [Lexeme.isPunctuator, hkind]

theorem kind_ne (h : l.Silent d) : l.kind ≠ .operator := by
  rcases h with rfl | rfl | rfl | ⟨hkind, -⟩ | ⟨-, hkind, -⟩
  · nofun
  · nofun
  · nofun
  · simp [hkind]
  · simp [hkind]

theorem precedence (h : l.Silent d) (next : Lexeme) : l.precedence next = .lowest := by
  have hwords : ∀ k ∈ ["OR", "AND", "IS", "LIKE", "IN", "BETWEEN", "MEMBER", "NOT"],
      ∀ w ∈ ["ORDER", "FETCH"], eqIgnoringCase w k = false := by decide
  have hkeyword : ∀ k ∈ ["OR", "AND", "IS", "LIKE", "IN", "BETWEEN", "MEMBER", "NOT"],
      l.isKeyword k = false := fun k hk => h.isKeyword (hwords k hk)
  simp only [List.forall_mem_cons] at hkeyword
  obtain ⟨hor, hand, his, hlike, hin, hbetween, hmember, hnot, -⟩ := hkeyword
  simp [Lexeme.precedence, hor, hand, his, hlike, hin, hbetween, hmember, hnot, h.kind_ne]

end Silent

end Lexeme

namespace Grammar

open Jpql.Grammar.Parser
open Lexeme (ahead)

variable {α β : Type}

/-! ### Seams -/

/-- Two ways for a text to go on, each with the token at its end. -/
structure Seam where
  dialect : Dialect
  eof : Token
  eof' : Token
  source : List Token
  target : List Lexeme
  ends : eof.lexeme = .eof
  ends' : eof'.lexeme = .eof
  silent : (ahead 0 (source.map Token.lexeme)).Silent dialect
  silent' : (ahead 0 target).Silent dialect
  length : source.length ≤ target.length

/-- How far a parser may go: never to the seam, up to it unless the other text has a comma there, or
up to any seam. Where nothing follows in either text, nothing is excluded. -/
inductive Edge where
  | within | listed | free
  deriving DecidableEq

/-- What stands in front of a parser that takes `k` tokens at least. -/
def Edge.before (e : Edge) : Nat → Edge
  | 0 => e
  | _ + 1 => .within

@[simp] theorem Edge.before_within (k : Nat) : Edge.before .within k = .within := by
  cases k with
  | zero => rfl
  | succ k => rfl

namespace Seam

variable (z : Seam)

/-- How the first text is parsed. -/
def setting : Setting := ⟨z.dialect, .backtracking, z.eof⟩

/-- How the second text is parsed. -/
def goal : Setting := ⟨z.dialect, .backtracking, z.eof'⟩

@[simp] theorem setting_dialect : z.setting.dialect = z.dialect := rfl

theorem setting_ends : z.setting.Ends := z.ends

theorem goal_ends : z.goal.Ends := z.ends'

/-- What the second text has in place of these tokens of the first. -/
def image (ts : List Token) : List Lexeme :=
  (ts.take (ts.length - z.source.length)).map Token.lexeme ++ z.target

def Opens : Edge → Prop
  | .within => z.source = [] ∧ z.target = []
  | .listed => (ahead 0 (z.source.map Token.lexeme)).isPunctuator "," = false ∧
      (ahead 0 z.target).isPunctuator "," = false
  | .free => True

/-- The seam is not behind these tokens, and at it only where the edge allows. -/
structure Reaches (e : Edge) (ts : List Token) : Prop where
  suffix : z.source <:+ ts
  opens : ts = z.source → z.Opens e

/-- A point in front of the seam goes on as a path in both texts or in none. -/
def Joint (ts : List Token) : Prop :=
  ∀ t, t :: z.source <:+ ts → t.isPunctuator "." = true →
    (ahead 0 (z.source.map Token.lexeme)).isAnyWord = (ahead 0 z.target).isAnyWord

variable {z}

@[simp] theorem image_append (mid : List Token) :
    z.image (mid ++ z.source) = mid.map Token.lexeme ++ z.target := by
  simp [image]

@[simp] theorem image_source : z.image z.source = z.target := by
  simpa using z.image_append []

theorem image_cons {t : Token} {ts : List Token} (h : z.source <:+ ts) :
    z.image (t :: ts) = t.lexeme :: z.image ts := by
  obtain ⟨mid, rfl⟩ := h
  rw [← List.cons_append, image_append, image_append]
  rfl

theorem image_of_plain (h : z.Opens .within) (ts : List Token) :
    z.image ts = ts.map Token.lexeme := by
  rw [image, h.1, h.2]
  simp

theorem Opens.listed (h : z.Opens .within) : z.Opens .listed := by
  rw [Opens, h.1, h.2]
  exact ⟨rfl, rfl⟩

theorem length_le_image (ts : List Token) : ts.length ≤ (z.image ts).length := by
  have := z.length
  rw [image, List.length_append, List.length_map, List.length_take]
  omega

theorem Joint.suffix {ts us : List Token} (h : z.Joint ts) (hus : us <:+ ts) : z.Joint us :=
  fun t ht => h t (ht.trans hus)

variable {e : Edge} {ts rest : List Token} {k : Nat}

theorem Reaches.before (h : z.Reaches e rest) (hrest : rest <:+ ts)
    (hk : rest.length + k ≤ ts.length) : z.Reaches (e.before k) ts := by
  refine ⟨h.suffix.trans hrest, ?_⟩
  rintro rfl
  have hlength := h.suffix.length_le
  cases k with
  | zero => exact h.opens (hrest.eq_of_length_le hlength)
  | succ k => omega

/-- In front of the seam the texts have the same lexeme. -/
theorem Reaches.ahead_zero (h : z.Reaches .within ts) :
    ahead 0 (z.image ts) = ahead 0 (ts.map Token.lexeme) := by
  obtain ⟨mid, rfl⟩ := h.suffix
  cases mid with
  | nil => rw [image_of_plain (h.opens rfl)]
  | cons t mid =>
    rw [image_append]
    rfl

end Seam

/-! ### Parsers that only look -/

/-- The parser takes nothing, and comes to what `view` says of the lexemes. -/
def Looks (p : Parser β) (view : Dialect → List Lexeme → β) : Prop :=
  ∀ ⦃s : Setting⦄, s.Ends → ∀ ts, p s ts = .ok (view s.dialect (ts.map Token.lexeme), ts)

/-- The view of the two texts is the same wherever the edge allows a parser to be. -/
def Steady (e : Edge) (view : Dialect → List Lexeme → β) : Prop :=
  ∀ ⦃z : Seam⦄ ⦃ts⦄, z.Joint ts → z.Reaches e ts →
    view z.dialect (z.image ts) = view z.dialect (ts.map Token.lexeme)

section Looks

variable {p : Parser β} {view : Dialect → List Lexeme → β} {e : Edge}

theorem Looks.takes (h : Looks p view) {s : Setting} (he : s.Ends) (input : List Lexeme) :
    Takes s p input (view s.dialect input) input := by
  rintro ts rfl
  exact ⟨ts, rfl, h he ts⟩

theorem Looks.bind {γ : Type} {f : β → Parser γ} {view' : β → Dialect → List Lexeme → γ}
    (h : Looks p view) (hf : ∀ b, Looks (f b) (view' b)) :
    Looks (p >>= f) fun d ls => view' (view d ls) d ls := by
  intro s he ts
  rw [bind_eq, h he]
  exact hf _ he ts

theorem Looks.pure (b : β) : Looks (Pure.pure b : Parser β) fun _ _ => b := fun _ _ _ => rfl

theorem lexeme_getD {s : Setting} (he : s.Ends) (n : Nat) (ts : List Token) :
    (ts[n]?.getD s.eof).lexeme = ahead n (ts.map Token.lexeme) := by
  rw [ahead, List.getElem?_map]
  cases ts[n]? with
  | none => exact he
  | some t => rfl

/-- What is asked of the token some places ahead depends on its lexeme. -/
theorem looks_peekAt (n : Nat) (g : Lexeme → β) :
    Looks (peekAt n >>= fun t => Pure.pure (g t.lexeme)) fun _ ls => g (ahead n ls) :=
  fun _ he ts => congrArg (fun l => Except.ok (g l, ts)) (lexeme_getD he n ts)

theorem looks_dialect : Looks dialect fun d _ => d := fun _ _ _ => rfl

theorem looks_atKeyword (k : String) : Looks (atKeyword k) fun _ ls => (ahead 0 ls).isKeyword k :=
  looks_peekAt 0 (·.isKeyword k)

theorem looks_atAnyKeyword (ks : List String) :
    Looks (atAnyKeyword ks) fun _ ls => ks.any (ahead 0 ls).isKeyword :=
  looks_peekAt 0 fun l => ks.any l.isKeyword

theorem looks_atWord (w : String) : Looks (atWord w) fun _ ls => (ahead 0 ls).isWord w :=
  looks_peekAt 0 (·.isWord w)

theorem looks_atPunctuator (q : String) :
    Looks (atPunctuator q) fun _ ls => (ahead 0 ls).isPunctuator q :=
  looks_peekAt 0 (·.isPunctuator q)

theorem looks_nextIsOpenParen :
    Looks nextIsOpenParen fun _ ls => (ahead 1 ls).isPunctuator "(" :=
  looks_peekAt 1 (·.isPunctuator "(")

theorem looks_atEnd : Looks atEnd fun _ ls => ls.isEmpty :=
  fun _ _ ts => congrArg (fun b => Except.ok (b, ts)) List.isEmpty_map.symm

/-- What is asked of the next token and the one behind it. -/
theorem looks_two (g : Lexeme → Lexeme → β) :
    Looks (current >>= fun t => peek >>= fun next => Pure.pure (g t.lexeme next.lexeme))
      fun _ ls => g (ahead 0 ls) (ahead 1 ls) :=
  fun _ he ts => congrArg₂ (fun l next => Except.ok (g l next, ts)) (lexeme_getD he 0 ts)
    (lexeme_getD he 1 ts)

theorem looks_atPathStep : Looks atPathStep fun _ ls =>
    (ahead 0 ls).isPunctuator "." && (ahead 1 ls).isAnyWord :=
  looks_two fun l next => l.isPunctuator "." && next.isAnyWord

theorem looks_atJoin : Looks atJoin fun _ ls => startsJoin ls := by
  intro s he ts
  dsimp only
  rw [startsJoin.eq_1, ← lexeme_getD he, ← lexeme_getD he, ← lexeme_getD he]
  rfl

theorem looks_nextPrecedence : Looks nextPrecedence fun _ ls => nextOf ls := by
  have hlook := looks_two fun l next => l.precedence next
  unfold Lexeme.precedence at hlook
  simp only [apply_ite (Pure.pure : _ → Parser Precedence)] at hlook
  exact hlook

/-! ### What the texts agree on -/

/-- A parser that only looks comes to the same in the other text. -/
theorem Looks.image (h : Looks p view) (hview : Steady e view) {z : Seam} {ts : List Token}
    (hz : z.Joint ts) (hr : z.Reaches e ts) :
    Takes z.goal p (z.image ts) (view z.dialect (ts.map Token.lexeme)) (z.image ts) := by
  have htakes := h.takes z.goal_ends (z.image ts)
  rwa [show z.goal.dialect = z.dialect from rfl, hview hz hr] at htakes

theorem steady_const (g : Dialect → β) : Steady e fun d _ => g d := fun _ _ _ _ => rfl

theorem Steady.map {γ : Type} (h : Steady e view) (g : β → γ) :
    Steady e fun d ls => g (view d ls) := fun _ _ hz hr => congrArg g (h hz hr)

/-- In front of the seam the next lexeme is the same. -/
theorem steady_first_within (g : Lexeme → β) : Steady .within fun _ ls => g (ahead 0 ls) :=
  fun _ _ _ hr => congrArg g hr.ahead_zero

/-- A question to which all silent lexemes have one answer. -/
theorem steady_first (g : Lexeme → β) (b : β) (hg : ∀ d l, l.Silent d → g l = b) :
    Steady e fun _ ls => g (ahead 0 ls) := by
  intro z ts _ hr
  obtain ⟨mid, rfl⟩ := hr.suffix
  cases mid with
  | nil =>
    rw [List.nil_append, Seam.image_source]
    exact (hg _ _ z.silent').trans (hg _ _ z.silent).symm
  | cons t mid =>
    rw [Seam.image_append]
    rfl

/-- No list goes on at a seam that it may come to. -/
theorem steady_comma (he : e ≠ .free) : Steady e fun _ ls => (ahead 0 ls).isPunctuator "," := by
  intro z ts _ hr
  obtain ⟨mid, rfl⟩ := hr.suffix
  cases mid with
  | nil =>
    have hopens : z.Opens .listed := by
      cases e with
      | within => exact (hr.opens rfl).listed
      | listed => exact hr.opens rfl
      | free => exact absurd rfl he
    rw [List.nil_append, Seam.image_source]
    exact hopens.2.trans hopens.1.symm
  | cons t mid =>
    rw [Seam.image_append]
    rfl

/-- A question about the token behind the next, to which all silent lexemes have one answer. -/
theorem steady_second_within (g : Lexeme → β) (b : β) (hg : ∀ d l, l.Silent d → g l = b) :
    Steady .within fun _ ls => g (ahead 1 ls) := by
  intro z ts _ hr
  obtain ⟨mid, rfl⟩ := hr.suffix
  match mid with
  | [] => rw [Seam.image_of_plain (hr.opens rfl)]
  | [t] =>
    rw [Seam.image_append]
    exact (hg _ _ z.silent').trans (hg _ _ z.silent).symm
  | t :: u :: mid =>
    rw [Seam.image_append]
    rfl

theorem Steady.map₂ {γ δ : Type} {view' : Dialect → List Lexeme → γ} (h : Steady e view)
    (h' : Steady e view') (g : β → γ → δ) : Steady e fun d ls => g (view d ls) (view' d ls) :=
  fun _ _ hz hr => congrArg₂ g (h hz hr) (h' hz hr)

theorem steady_isEmpty_within : Steady .within fun _ ls => ls.isEmpty := by
  intro z ts _ hr
  obtain ⟨mid, rfl⟩ := hr.suffix
  cases mid with
  | nil => rw [Seam.image_of_plain (hr.opens rfl)]
  | cons t mid => rw [Seam.image_append]; rfl

/-- A point at the seam is no path's, for the words behind it are words in both texts or in none. -/
theorem steady_atPathStep :
    Steady e fun _ ls => (ahead 0 ls).isPunctuator "." && (ahead 1 ls).isAnyWord := by
  intro z ts hz hr
  obtain ⟨mid, rfl⟩ := hr.suffix
  have hsilent {l : Lexeme} (hl : l.Silent z.dialect) : l.isPunctuator "." = false :=
    hl.isPunctuator (by decide) (by decide)
  match mid with
  | [] =>
    rw [List.nil_append, Seam.image_source]
    simp only [hsilent z.silent, hsilent z.silent', Bool.false_and]
  | [t] =>
    rw [Seam.image_append]
    cases hpoint : t.isPunctuator "." with
    | true =>
      have hwords := hz t List.suffix_rfl hpoint
      exact congrArg (fun b => t.lexeme.isPunctuator "." && b) hwords.symm
    | false =>
      have hlexeme : t.lexeme.isPunctuator "." = false := hpoint
      simp [hlexeme]
  | t :: u :: mid =>
    rw [Seam.image_append]
    rfl

theorem steady_startsJoin : Steady e fun _ ls => startsJoin ls := by
  intro z ts _ hr
  obtain ⟨mid, rfl⟩ := hr.suffix
  have hjoin {l : Lexeme} (hl : l.Silent z.dialect) : l.isKeyword "JOIN" = false :=
    hl.isKeyword (by decide)
  have houter {l : Lexeme} (hl : l.Silent z.dialect) : l.isKeyword "OUTER" = false :=
    hl.isKeyword (by decide)
  have hmodifier {l : Lexeme} (hl : l.Silent z.dialect) : joinModifiers.any l.isWord = false := by
    have hall : ∀ m ∈ joinModifiers, ∀ v ∈ ["ORDER", "FETCH", "LIMIT", "OFFSET"],
        eqIgnoringCase v m = false := by decide
    exact List.any_eq_false.2 fun m hm => by simp [hl.isWord (hall m hm)]
  match mid with
  | [] =>
    rw [List.nil_append, Seam.image_source]
    simp [startsJoin, hjoin z.silent, hjoin z.silent', hmodifier z.silent, hmodifier z.silent']
  | [t] =>
    rw [Seam.image_append]
    simp [startsJoin, hjoin z.silent, hjoin z.silent', houter z.silent, houter z.silent']
  | [t, u] =>
    rw [Seam.image_append]
    simp [startsJoin, hjoin z.silent, hjoin z.silent']
  | t :: u :: v :: mid =>
    rw [Seam.image_append]
    rfl

theorem steady_nextOf : Steady e fun _ ls => nextOf ls := by
  intro z ts _ hr
  obtain ⟨mid, rfl⟩ := hr.suffix
  match mid with
  | [] =>
    rw [List.nil_append, Seam.image_source]
    exact (z.silent'.precedence _).trans (z.silent.precedence _).symm
  | [t] =>
    have htests {l : Lexeme} (hl : l.Silent z.dialect) :
        ["LIKE", "IN", "BETWEEN", "MEMBER"].any l.isKeyword = false := by
      have hall : ∀ k ∈ ["LIKE", "IN", "BETWEEN", "MEMBER"], ∀ w ∈ ["ORDER", "FETCH"],
          eqIgnoringCase w k = false := by decide
      exact List.any_eq_false.2 fun k hk => by simp [hl.isKeyword (hall k hk)]
    rw [Seam.image_append]
    have hnext {l l' : Lexeme} (hl : l.Silent z.dialect) (hl' : l'.Silent z.dialect) :
        t.lexeme.precedence l = t.lexeme.precedence l' := by
      rw [Lexeme.precedence, Lexeme.precedence, htests hl, htests hl']
    exact hnext z.silent' z.silent
  | t :: u :: mid =>
    rw [Seam.image_append]
    rfl

end Looks

/-! ### Parsers that stop in front of the seam -/

/-- There is a token, and it is no point. -/
def Solid (ls : List Lexeme) : Prop := ∃ l rest, ls = l :: rest ∧ l.isPunctuator "." = false

theorem solid_of {g : Lexeme → Bool} (heof : g .eof = false) (hpoint : g (.punctuator ".") = false)
    {ls : List Lexeme} (h : g (ahead 0 ls) = true) : Solid ls := by
  cases ls with
  | nil =>
    rw [Lexeme.ahead_nil, heof] at h
    cases h
  | cons l rest =>
    refine ⟨l, rest, rfl, ?_⟩
    rw [Bool.eq_false_iff]
    intro hl
    obtain ⟨kind, literal⟩ := l
    simp only [Lexeme.isPunctuator, Bool.and_eq_true, beq_iff_eq] at hl
    obtain ⟨rfl, rfl⟩ := hl
    rw [Lexeme.ahead_zero, show (⟨.punctuator, "."⟩ : Lexeme) = .punctuator "." from rfl, hpoint] at h
    cases h

/-- At least `k` tokens were taken, and unless the parser stands inside parentheses the last of them
is no point. -/
structure Taken (k : Nat) (e : Edge) (ts rest : List Token) : Prop where
  suffix : rest <:+ ts
  length : rest.length + k ≤ ts.length
  clean : e ≠ .within → ∀ t, t :: rest <:+ ts → t.isPunctuator "." = false

theorem Taken.nothing (e : Edge) (ts : List Token) : Taken 0 e ts ts where
  suffix := List.suffix_rfl
  length := le_rfl
  clean _ t ht := absurd ht.length_le (by simp)

theorem Taken.weaken {k k' : Nat} {e : Edge} {ts rest : List Token} (h : Taken k e ts rest)
    (hk : k' ≤ k) : Taken k' e ts rest := ⟨h.suffix, by have := h.length; omega, h.clean⟩

theorem Taken.before {k : Nat} {e : Edge} {ts rest : List Token} (h : Taken k e ts rest) :
    (j : Nat) → Taken k (e.before j) ts rest
  | 0 => h
  | _ + 1 => ⟨h.suffix, h.length, fun he => absurd rfl he⟩

theorem Taken.append {k₁ k₂ : Nat} {e : Edge} {ts mid rest : List Token}
    (h : Taken k₁ (e.before k₂) ts mid) (h' : Taken k₂ e mid rest) : Taken (k₁ + k₂) e ts rest where
  suffix := h'.suffix.trans h.suffix
  length := by
    have := h.length
    have := h'.length
    omega
  clean he t ht := by
    by_cases hlength : rest.length + 1 ≤ mid.length
    · exact h'.clean he t (List.suffix_of_suffix_length_le ht h.suffix (by simpa using hlength))
    · have hk := h'.length
      obtain rfl : rest = mid := h'.suffix.eq_of_length_le (by omega)
      obtain rfl : k₂ = 0 := by omega
      exact h.clean he t ht

def Anything (_ : List Lexeme) : Prop := True

/-- Given what is known of the lexemes in front, the parser takes at least `k` tokens; and if it stops
where the edge allows, the other takes the same of the other text. -/
structure Carried (K : List Lexeme → Prop) (k : Nat) (e : Edge) (p p' : Parser α) : Prop where
  takes : ∀ ⦃s : Setting⦄ ⦃ts rest a⦄, s.Ends → K (ts.map Token.lexeme) →
    p s ts = .ok (a, rest) → Taken k e ts rest
  carries : ∀ (z : Seam) ⦃ts rest a⦄, K (ts.map Token.lexeme) → z.Joint ts →
    p z.setting ts = .ok (a, rest) → z.Reaches e rest →
      Takes z.goal p' (z.image ts) a (z.image rest)

section Carried

variable {p p' : Parser α} {f f' : α → Parser β} {K : List Lexeme → Prop} {k k' : Nat}
  {e : Edge}

namespace Carried

theorem weaken (h : Carried K k e p p') (hk : k' ≤ k) : Carried K k' e p p' :=
  ⟨fun _ _ _ _ he hf hp => (h.takes he hf hp).weaken hk, h.carries⟩

theorem anywhere (h : Carried Anything k e p p') : Carried K k e p p' :=
  ⟨fun _ _ _ _ he _ hp => h.takes he trivial hp,
    fun z _ _ _ _ hz hp hr => h.carries z trivial hz hp hr⟩

theorem pure (a : α) : Carried K 0 e (Pure.pure a) (Pure.pure a) where
  takes _ ts _ _ _ _ hp := by
    cases hp
    exact .nothing e ts
  carries _ _ _ _ _ _ hp _ := by
    cases hp
    exact .pure _ _

theorem reject (c : Rejection) : Carried K k e (Grammar.reject c : Parser α) p' where
  takes _ _ _ _ _ _ := nofun
  carries _ _ _ _ _ _ := nofun

theorem ite {c : Prop} [Decidable c] {q q' : Parser α} (hp : Carried K k e p p')
    (hq : Carried K k e q q') :
    Carried K k e (if c then p else q) (if c then p' else q') := by
  split
  · exact hp
  · exact hq

theorem bind {k₁ k₂ : Nat} (hp : Carried K k₁ (e.before k₂) p p')
    (hf : ∀ a, Carried Anything k₂ e (f a) (f' a)) :
    Carried K (k₁ + k₂) e (p >>= f) (p' >>= f') where
  takes s ts rest b he hs h := by
    obtain ⟨a, mid, hpa, hfa⟩ := bind_ok_iff.1 h
    exact (hp.takes he hs hpa).append ((hf a).takes he trivial hfa)
  carries z ts rest b hs hz h hr := by
    obtain ⟨a, mid, hpa, hfa⟩ := bind_ok_iff.1 h
    have hmid := hp.takes z.setting_ends hs hpa
    have hrest := (hf a).takes z.setting_ends trivial hfa
    exact (hp.carries z hs hz hpa (hr.before hrest.suffix hrest.length)).bind
      ((hf a).carries z trivial (hz.suffix hmid.suffix) hfa hr)

/-- What is taken counts by the second parser. -/
theorem andThen {k₁ : Nat} (hp : Carried K k₁ (e.before k) p p')
    (hf : ∀ a, Carried Anything k e (f a) (f' a)) : Carried K k e (p >>= f) (p' >>= f') :=
  (hp.bind hf).weaken (Nat.le_add_left _ _)

/-- What is taken counts by the first parser. -/
theorem taking (hp : Carried K k e p p') (hf : ∀ a, Carried Anything 0 e (f a) (f' a)) :
    Carried K k e (p >>= f) (p' >>= f') := hp.bind hf

theorem map (g : α → β) (hp : Carried K k e p p') :
    Carried K k e (g <$> p) (g <$> p') := hp.taking fun a => .pure (g a)

theorem mono {K' : List Lexeme → Prop} (h : Carried K k e p p')
    (hfront : ∀ ls, K' ls → K ls) : Carried K' k e p p' :=
  ⟨fun _ _ _ _ he hf hp => h.takes he (hfront _ hf) hp,
    fun z _ _ _ hf hz hp hr => h.carries z (hfront _ hf) hz hp hr⟩

theorem iteOf {c : Prop} [Decidable c] {q q' : Parser α} (hp : c → Carried K k e p p')
    (hq : ¬ c → Carried K k e q q') :
    Carried K k e (if c then p else q) (if c then p' else q') := by
  split
  next h => exact hp h
  next h => exact hq h

theorem of_fails (h : ∀ s ts v, p s ts ≠ .ok v) : Carried K k e p p' :=
  ⟨fun _ _ _ _ _ _ hp => absurd hp (h _ _ _), fun _ _ _ _ _ _ hp => absurd hp (h _ _ _)⟩

/-- What is done with the next token depends on its lexeme, of which more may be asked later. -/
theorem current {F F' : Token → Parser β} (hk : e.before k = .within)
    (h : ∀ kind literal place place', Carried (fun ls => K ls ∧ ahead 0 ls = ⟨kind, literal⟩) k e
      (F ⟨kind, literal, place⟩) (F' ⟨kind, literal, place'⟩)) :
    Carried K k e (Grammar.current >>= F) (Grammar.current >>= F') where
  takes s ts rest b he hs hb := by
    have hahead := lexeme_getD he 0 ts
    exact (h _ _ (ts[0]?.getD s.eof).position (ts[0]?.getD s.eof).position).takes he
      ⟨hs, hahead.symm⟩ hb
  carries z ts rest b hs hz hb hr := by
    have hahead := lexeme_getD z.setting_ends 0 ts
    have hrest := (h _ _ (ts[0]?.getD z.eof).position (ts[0]?.getD z.eof).position).takes
      z.setting_ends ⟨hs, hahead.symm⟩ hb
    have hts : z.Reaches .within ts := hk ▸ hr.before hrest.suffix hrest.length
    refine .current z.goal_ends fun t' ht' => ?_
    rw [hts.ahead_zero, ← hahead] at ht'
    obtain ⟨kind, literal, place⟩ := t'
    cases ht'
    exact (h _ _ (ts[0]?.getD z.eof).position place).carries z ⟨hs, hahead.symm⟩ hz hb hr

theorem bounded {p p' : Nat → Parser α} (h : ∀ n m, n ≤ m → Carried K k e (p n) (p' m)) :
    Carried K k e (Parser.bounded p) (Parser.bounded p') where
  takes _ ts _ _ he hs hp := (h ts.length ts.length le_rfl).takes he hs hp
  carries z ts _ _ hs hz hp hr :=
    .bounded ((h _ _ (z.length_le_image ts)).carries z hs hz hp hr)

/-- A parser that only looks leaves the next as much as it knew. -/
theorem look {view : Dialect → List Lexeme → α} (h : Looks p view) (hview : Steady (e.before k) view)
    (hf : ∀ a, Carried K k e (f a) (f' a)) : Carried K k e (p >>= f) (p >>= f') where
  takes s ts rest b he hs hb := by
    rw [bind_eq, h he] at hb
    exact (hf _).takes he hs hb
  carries z ts rest b hs hz hb hr := by
    rw [bind_eq, h z.setting_ends] at hb
    have hrest := (hf _).takes z.setting_ends hs hb
    exact (h.image hview hz (hr.before hrest.suffix hrest.length)).bind
      ((hf _).carries z hs hz hb hr)

/-- Behind a test that is passed its meaning is known. -/
theorem test {q : Parser Bool} {f f' : Bool → Parser β} {view : Dialect → List Lexeme → Bool}
    {K' : List Lexeme → Prop} (h : Looks q view) (hview : Steady (e.before k) view)
    (hfront : ∀ d ls, view d ls = true → K' ls) (htrue : Carried K' k e (f true) (f' true))
    (hfalse : Carried K k e (f false) (f' false)) :
    Carried K k e (q >>= f) (q >>= f') where
  takes s ts rest b he hs hb := by
    rw [bind_eq, h he] at hb
    cases hv : view s.dialect (ts.map Token.lexeme) with
    | true =>
      rw [hv] at hb
      exact htrue.takes he (hfront _ _ hv) hb
    | false =>
      rw [hv] at hb
      exact hfalse.takes he hs hb
  carries z ts rest b hs hz hb hr := by
    rw [bind_eq, h z.setting_ends, Seam.setting_dialect] at hb
    have hlook (hts : z.Reaches (e.before k) ts) := h.image hview hz hts
    cases hv : view z.dialect (ts.map Token.lexeme) with
    | true =>
      rw [hv] at hb hlook
      have hrest := htrue.takes z.setting_ends (hfront _ _ hv) hb
      exact (hlook (hr.before hrest.suffix hrest.length)).bind
        (htrue.carries z (hfront _ _ hv) hz hb hr)
    | false =>
      rw [hv] at hb hlook
      have hrest := hfalse.takes z.setting_ends hs hb
      exact (hlook (hr.before hrest.suffix hrest.length)).bind (hfalse.carries z hs hz hb hr)

end Carried

end Carried

end Grammar

end Jpql
