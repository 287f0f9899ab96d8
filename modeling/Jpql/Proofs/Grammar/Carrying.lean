import Jpql.Proofs.Grammar.Seam

/-! The parsers of the grammar on texts that agree up to a seam. -/

namespace Jpql.Grammar

open Jpql.Grammar.Parser
open Comparison (withoutQuery listWithoutQuery)
open Lexeme (ahead)

variable {α β γ : Type} {K : List Lexeme → Prop} {k : Nat} {e : Edge}

theorem bind_bind (p : Parser α) (f : α → Parser β) (g : β → Parser γ) :
    p >>= f >>= g = p >>= fun a => f a >>= g := by
  funext s ts
  simp only [bind_eq]
  rcases p s ts with _ | ⟨a, rest⟩
  · rfl
  · rfl

/-! ### Single tokens -/

theorem steady_isKeyword {w : String} (hw : ∀ v ∈ ["ORDER", "FETCH"], eqIgnoringCase v w = false) :
    Steady e fun _ ls => (ahead 0 ls).isKeyword w :=
  steady_first (·.isKeyword w) false fun _ _ h => h.isKeyword hw

theorem solid_of_isKeyword {w : String} (ls : List Lexeme)
    (h : (ahead 0 ls).isKeyword w = true) : Solid ls :=
  solid_of (g := (·.isKeyword w)) rfl rfl h

theorem solid_of_isPunctuator {q : String} (hq : q ≠ ".") (ls : List Lexeme)
    (h : (ahead 0 ls).isPunctuator q = true) : Solid ls :=
  solid_of (g := (·.isPunctuator q)) rfl
    (by simpa [Lexeme.isPunctuator, Lexeme.punctuator] using hq.symm) h

theorem carried_advance : Carried Solid 1 e advance advance where
  takes s ts rest w _ hs h := by
    obtain ⟨l, ls, hls, hl⟩ := hs
    obtain ⟨t, us, rfl, rfl, -⟩ := List.map_eq_cons_iff.1 hls
    cases h
    refine ⟨List.suffix_cons t us, le_rfl, fun _ t' ht' => ?_⟩
    obtain rfl := (List.cons.inj (ht'.eq_of_length rfl)).1
    exact hl
  carries z ts rest w hs _ h hr := by
    obtain ⟨l, ls, hls, -⟩ := hs
    obtain ⟨t, us, rfl, rfl, -⟩ := List.map_eq_cons_iff.1 hls
    cases h
    rw [Seam.image_cons (show z.source <:+ us from hr.suffix)]
    exact takes_advance t.lexeme _

theorem eatIf_bind (q : Parser Bool) (f : Option String → Parser β) :
    (q >>= eatIf) >>= f = q >>= fun found => if found then advance >>= fun w => f (some w) else f none := by
  rw [bind_bind]
  refine congrArg _ (funext fun found => ?_)
  cases found with
  | true => rfl
  | false => rfl

theorem eatPunctuator_bind (q : String) (f : Bool → Parser β) : eatPunctuator q >>= f =
    atPunctuator q >>= fun found => if found then advance >>= fun _ => f true else f false := by
  have hassoc : eatPunctuator q >>= f =
      (atPunctuator q >>= eatIf) >>= fun found => f found.isSome := by
    rw [bind_bind]
    exact (bind_bind _ _ _).trans (congrArg _ (funext fun b => bind_bind _ _ _))
  rw [hassoc, eatIf_bind]
  rfl

/-- Takes a token if a test is passed there. -/
theorem Carried.eatIf {q : Parser Bool} {view : Dialect → List Lexeme → Bool}
    {f f' : Option String → Parser β} (h : Looks q view) (hview : Steady (e.before k) view)
    (hsolid : ∀ d ls, view d ls = true → Solid ls) (hk : k ≤ 1)
    (hsome : ∀ w, Carried Anything 0 e (f (some w)) (f' (some w)))
    (hnone : Carried K k e (f none) (f' none)) :
    Carried K k e ((q >>= Grammar.eatIf) >>= f) ((q >>= Grammar.eatIf) >>= f') := by
  rw [eatIf_bind, eatIf_bind]
  exact .test h hview hsolid ((carried_advance.taking fun w => hsome w).weaken hk) hnone

theorem Carried.eatKeyword {w : String} {f f' : Option String → Parser β}
    (hw : Steady (e.before k) fun _ ls => (ahead 0 ls).isKeyword w) (hk : k ≤ 1)
    (hsome : ∀ v, Carried Anything 0 e (f (some v)) (f' (some v)))
    (hnone : Carried K k e (f none) (f' none)) :
    Carried K k e (Grammar.eatKeyword w >>= f) (Grammar.eatKeyword w >>= f') :=
  .eatIf (looks_atKeyword w) hw (fun _ => solid_of_isKeyword) hk hsome hnone

theorem carried_eatKeyword {w : String} (hw : Steady e fun _ ls => (ahead 0 ls).isKeyword w) :
    Carried K 0 e (eatKeyword w) (eatKeyword w) :=
  .test (looks_atKeyword w) hw (fun _ => solid_of_isKeyword)
    ((carried_advance.taking fun _ => .pure _).weaken (Nat.zero_le 1)) (.pure none)

theorem Carried.eatWord {w : String} {f f' : Option String → Parser β}
    (hw : Steady (e.before k) fun _ ls => (ahead 0 ls).isWord w) (hk : k ≤ 1)
    (hsome : ∀ v, Carried Anything 0 e (f (some v)) (f' (some v)))
    (hnone : Carried K k e (f none) (f' none)) :
    Carried K k e (Grammar.eatWord w >>= f) (Grammar.eatWord w >>= f') :=
  .eatIf (looks_atWord w) hw (fun _ _ => solid_of (g := (·.isWord w)) rfl rfl) hk hsome hnone

theorem Carried.eatPunctuator {q : String} {f f' : Bool → Parser β} (hq : q ≠ ".")
    (hsteady : Steady (e.before k) fun _ ls => (ahead 0 ls).isPunctuator q) (hk : k ≤ 1)
    (htrue : Carried Anything 0 e (f true) (f' true)) (hfalse : Carried K k e (f false) (f' false)) :
    Carried K k e (Grammar.eatPunctuator q >>= f) (Grammar.eatPunctuator q >>= f') := by
  rw [eatPunctuator_bind, eatPunctuator_bind]
  exact .test (looks_atPunctuator q) hsteady (fun _ => solid_of_isPunctuator hq)
    ((carried_advance.taking fun _ => htrue).weaken hk) hfalse

theorem Carried.eatAnyKeyword {ws : List String} {f f' : Option String → Parser β}
    (hws : ∀ w ∈ ws, Steady (e.before k) fun _ ls => (ahead 0 ls).isKeyword w) (hk : k ≤ 1)
    (hsome : ∀ v, Carried Anything 0 e (f (some v)) (f' (some v)))
    (hnone : Carried K k e (f none) (f' none)) :
    Carried K k e (Grammar.eatAnyKeyword ws >>= f) (Grammar.eatAnyKeyword ws >>= f') := by
  induction ws with
  | nil => exact hnone
  | cons w ws ih =>
    obtain ⟨hw, hws⟩ := List.forall_mem_cons.1 hws
    rw [Grammar.eatAnyKeyword, bind_bind, bind_bind]
    exact .eatKeyword hw hk hsome (ih hws)

theorem Carried.eatAnyWord {ws : List String} {f f' : Option String → Parser β}
    (hws : ∀ w ∈ ws, Steady (e.before k) fun _ ls => (ahead 0 ls).isWord w) (hk : k ≤ 1)
    (hsome : ∀ v, Carried Anything 0 e (f (some v)) (f' (some v)))
    (hnone : Carried K k e (f none) (f' none)) :
    Carried K k e (Grammar.eatAnyWord ws >>= f) (Grammar.eatAnyWord ws >>= f') := by
  induction ws with
  | nil => exact hnone
  | cons w ws ih =>
    obtain ⟨hw, hws⟩ := List.forall_mem_cons.1 hws
    rw [Grammar.eatAnyWord, bind_bind, bind_bind]
    exact .eatWord hw hk hsome (ih hws)

theorem carried_expectKeyword (w : String) :
    Carried K 1 e (expectKeyword w) (expectKeyword w) :=
  .eatKeyword (steady_first_within (·.isKeyword w)) le_rfl (fun v => .pure v) (.reject _)

theorem carried_expectWord (w : String) : Carried K 1 e (expectWord w) (expectWord w) :=
  .eatWord (steady_first_within (·.isWord w)) le_rfl (fun v => .pure v) (.reject _)

theorem carried_expectPunctuator {q : String} (hq : q ≠ ".") :
    Carried K 1 e (expectPunctuator q) (expectPunctuator q) :=
  .eatPunctuator hq (steady_first_within (·.isPunctuator q)) le_rfl (.pure ()) (.reject _)

theorem carried_expectPair (first second : String) :
    Carried K 1 e (expectPair first second) (expectPair first second) :=
  .andThen (carried_expectKeyword first) fun _ =>
    (carried_expectKeyword second).taking fun _ => .pure _

theorem expectName_eq : expectName = (peekAt 0 >>= fun t => pure t.lexeme.isAnyWord) >>= fun found =>
    if found then advance else mismatched "identifier" := rfl

theorem carried_expectName : Carried K 1 e expectName expectName := by
  rw [expectName_eq]
  exact .test (looks_peekAt 0 (·.isAnyWord)) (steady_first_within (·.isAnyWord))
    (fun _ _ => solid_of (g := (·.isAnyWord)) rfl rfl) carried_advance (.reject _)

/-! ### Repetitions -/

section Repetitions

variable {test : Parser Bool} {view : Dialect → List Lexeme → Bool} {item item' : Parser α}

/-- Each round takes a token. -/
theorem taken_itemsWhile (h : Looks test view) (hfront : ∀ d ls, view d ls = true → K ls)
    (hitem : Carried K 1 e item item') (n : Nat) {s : Setting} {ts rest : List Token}
    {as : List α} (he : s.Ends) (hrun : itemsWhile test item n s ts = .ok (as, rest)) :
    Taken as.length e ts rest := by
  induction n generalizing ts as with
  | zero =>
    cases hrun
    exact .nothing e rest
  | succ n ih =>
    rw [itemsWhile, bind_eq, h he] at hrun
    cases hv : view s.dialect (ts.map Token.lexeme) with
    | false =>
      rw [hv] at hrun
      cases hrun
      exact .nothing e rest
    | true =>
      rw [hv] at hrun
      obtain ⟨a, mid, ha, hrun⟩ := bind_ok_iff.1 hrun
      obtain ⟨as', mid', has, hrun⟩ := bind_ok_iff.1 hrun
      cases hrun
      have hfirst := hitem.takes he (hfront _ _ hv) ha
      rw [List.length_cons, Nat.add_comm]
      exact (hfirst.before _).append (ih has)

/-- Rounds that take a token each are as many as there are tokens in front of the seam. -/
theorem carries_itemsWhile (h : Looks test view) (hview : Steady e view)
    (hnil : ∀ d, view d [] = false) (hfront : ∀ d ls, view d ls = true → K ls)
    (hitem : Carried K 1 e item item') {z : Seam} (n m : Nat) {ts rest : List Token}
    {as : List α} (hn : ts.length ≤ n) (hm : ts.length ≤ m) (hz : z.Joint ts)
    (hrun : itemsWhile test item n z.setting ts = .ok (as, rest)) (hr : z.Reaches e rest) :
    Takes z.goal (itemsWhile test item' m) (z.image ts) as (z.image rest) := by
  have hstop (m : Nat) {ts : List Token} (hz : z.Joint ts) (hr : z.Reaches e ts)
      (hv : view z.dialect (ts.map Token.lexeme) = false) :
      Takes z.goal (itemsWhile test item' m) (z.image ts) [] (z.image ts) :=
    takes_itemsWhile_nil (hv ▸ h.image hview hz hr) m
  induction n generalizing m ts as with
  | zero =>
    cases hrun
    obtain rfl : rest = [] := List.length_eq_zero_iff.1 (Nat.le_zero.1 hn)
    exact hstop m hz hr (hnil _)
  | succ n ih =>
    have htaken := taken_itemsWhile h hfront hitem (n + 1) z.setting_ends hrun
    have hts : z.Reaches e ts := hr.before (k := 0) htaken.suffix htaken.suffix.length_le
    rw [itemsWhile, bind_eq, h z.setting_ends, Seam.setting_dialect] at hrun
    cases hv : view z.dialect (ts.map Token.lexeme) with
    | false =>
      rw [hv] at hrun
      cases hrun
      exact hstop m hz hr hv
    | true =>
      rw [hv] at hrun
      obtain ⟨a, mid, ha, hrun⟩ := bind_ok_iff.1 hrun
      obtain ⟨as', mid', has, hrun⟩ := bind_ok_iff.1 hrun
      cases hrun
      have hknown := hfront _ _ hv
      have hfirst := hitem.takes z.setting_ends hknown ha
      have hrest := taken_itemsWhile h hfront hitem n z.setting_ends has
      have hmid : z.Reaches e mid := hr.before (k := 0) hrest.suffix hrest.suffix.length_le
      have hlength := hfirst.length
      obtain ⟨m, rfl⟩ : ∃ j, m = j + 1 := ⟨m - 1, by omega⟩
      have hlook : Takes z.goal test (z.image ts) true (z.image ts) := hv ▸ h.image hview hz hts
      exact takes_itemsWhile_cons hlook (hitem.carries z hknown hz ha hmid)
        (ih m (by omega) (by omega) (hz.suffix hfirst.suffix) has)

theorem carried_manyWhile {K' : List Lexeme → Prop} (h : Looks test view) (hview : Steady e view)
    (hnil : ∀ d, view d [] = false) (hfront : ∀ d ls, view d ls = true → K ls)
    (hitem : Carried K 1 e item item') :
    Carried K' 0 e (manyWhile test item) (manyWhile test item') where
  takes _ ts _ _ he _ hrun :=
    (taken_itemsWhile h hfront hitem ts.length he hrun).weaken (Nat.zero_le _)
  carries z ts _ _ _ hz hrun hr :=
    .bounded (carries_itemsWhile h hview hnil hfront hitem ts.length _ le_rfl
      (z.length_le_image ts) hz hrun hr)

theorem commaTail_eq (item : Parser α) (n : Nat) :
    commaTail item n = itemsWhile (atPunctuator ",") (advance >>= fun _ => item) n := by
  induction n with
  | zero => rfl
  | succ n ih =>
    rw [commaTail, eatPunctuator_bind, itemsWhile, ih]
    refine congrArg _ (funext fun found => ?_)
    cases found with
    | true => exact (bind_bind _ _ _).symm
    | false => rfl

theorem taken_commaTail (hitem : Carried Anything 0 e item item') (n : Nat) {s : Setting}
    {ts rest : List Token} {as : List α} (he : s.Ends)
    (hrun : commaTail item n s ts = .ok (as, rest)) : Taken as.length e ts rest := by
  rw [commaTail_eq] at hrun
  exact taken_itemsWhile (looks_atPunctuator ",") (fun _ => solid_of_isPunctuator (by decide))
    (carried_advance.taking fun _ => hitem) n he hrun

theorem carried_commaTail (he : e ≠ .free) (hitem : Carried Anything 0 e item item') :
    Carried K 0 e (bounded (commaTail item)) (bounded (commaTail item')) := by
  have htail (item : Parser α) : bounded (commaTail item) =
      manyWhile (atPunctuator ",") (advance >>= fun _ => item) :=
    congrArg bounded (funext fun n => commaTail_eq item n)
  rw [htail, htail]
  exact carried_manyWhile (looks_atPunctuator ",") (steady_comma he) (fun _ => rfl)
    (fun _ => solid_of_isPunctuator (by decide)) (carried_advance.taking fun _ => hitem)

theorem carried_commaList (he : e ≠ .free) (hitem : Carried K k e item item')
    (hitem' : Carried Anything 0 e item item') :
    Carried K k e (commaList item) (commaList item') :=
  hitem.taking fun _ => (carried_commaTail he hitem').taking fun _ => .pure _

end Repetitions

section Skipping

variable {test : Parser Bool} {view : Dialect → List Lexeme → Bool}

theorem suffix_of_skip (h : Looks test view) (n : Nat) {s : Setting} {ts rest : List Token}
    {ws : List String} (he : s.Ends) (hrun : itemsWhile test advance n s ts = .ok (ws, rest)) :
    rest <:+ ts := by
  induction n generalizing ts ws with
  | zero =>
    cases hrun
    exact List.suffix_rfl
  | succ n ih =>
    rw [itemsWhile, bind_eq, h he] at hrun
    cases hv : view s.dialect (ts.map Token.lexeme) with
    | false =>
      rw [hv] at hrun
      cases hrun
      exact List.suffix_rfl
    | true =>
      rw [hv] at hrun
      obtain ⟨w, mid, hw, hrun⟩ := bind_ok_iff.1 hrun
      obtain ⟨ws', mid', hws, hrun⟩ := bind_ok_iff.1 hrun
      cases hrun
      cases hw
      exact (ih hws).trans (List.tail_suffix ts)

/-- Tokens are skipped up to one that fails the test, and both texts have that one. -/
theorem carried_skip (h : Looks test view) (hview : Steady .within view) :
    Carried K 0 .within (manyWhile test advance) (manyWhile test advance) where
  takes s ts rest ws he _ hrun :=
    have hrest := suffix_of_skip h ts.length he hrun
    ⟨hrest, hrest.length_le, fun he => absurd rfl he⟩
  carries z ts rest ws hfront hz hrun hr := by
    clear hfront
    refine .bounded ?_
    change itemsWhile test advance ts.length z.setting ts = .ok (ws, rest) at hrun
    induction ts generalizing ws with
    | nil =>
      cases hrun
      rw [Seam.image_of_plain (hr.opens (List.suffix_nil.1 hr.suffix).symm)]
      exact .pure _ _
    | cons t ts ih =>
      have hsuffix := suffix_of_skip h _ z.setting_ends hrun
      have hlook := h.image hview hz (hr.before (k := 0) hsuffix hsuffix.length_le)
      rw [List.length_cons, itemsWhile, bind_eq, h z.setting_ends, Seam.setting_dialect] at hrun
      cases hv : view z.dialect ((t :: ts).map Token.lexeme) with
      | false =>
        rw [hv] at hrun hlook
        cases hrun
        exact takes_itemsWhile_nil hlook _
      | true =>
        rw [hv] at hrun
        obtain ⟨w, mid, hw, hrun⟩ := bind_ok_iff.1 hrun
        obtain ⟨ws', mid', hws, hrun⟩ := bind_ok_iff.1 hrun
        cases hrun
        cases hw
        have hts : z.source <:+ ts :=
          hr.suffix.trans (suffix_of_skip h _ z.setting_ends hws)
        rw [hv, Seam.image_cons hts] at hlook
        rw [Seam.image_cons hts]
        exact takes_itemsWhile_cons hlook (takes_advance _ _)
          (ih _ (hz.suffix (List.suffix_cons t ts)) hws)

end Skipping

/-! ### Names -/

/-- A point with a word behind it. -/
def PathStep (ls : List Lexeme) : Prop :=
  ((ahead 0 ls).isPunctuator "." && (ahead 1 ls).isAnyWord) = true

theorem PathStep.exists_word {ts : List Token} (h : PathStep (ts.map Token.lexeme)) :
    ∃ t u us, ts = t :: u :: us ∧ u.isPunctuator "." = false := by
  obtain ⟨hpoint, hword⟩ := Bool.and_eq_true_iff.1 h
  match ts with
  | [] => cases hpoint
  | [_] => cases hword
  | t :: u :: us =>
    refine ⟨t, u, us, rfl, ?_⟩
    have hkind : u.kind = .identifier ∨ u.kind = .keyword := by
      simpa [Lexeme.isAnyWord, Token.lexeme] using hword
    rcases hkind with hkind | hkind
    · simp [Token.isPunctuator, hkind]
    · simp [Token.isPunctuator, hkind]

theorem carried_pathStep : Carried PathStep 1 e (advance >>= fun _ => advance)
    (advance >>= fun _ => advance) where
  takes s ts rest w _ hs h := by
    obtain ⟨t, u, us, rfl, hu⟩ := hs.exists_word
    cases h
    refine ⟨⟨[t, u], rfl⟩, Nat.le_succ _, fun _ t' ht' => ?_⟩
    have hlast := List.suffix_of_suffix_length_le ht' (List.suffix_cons t (u :: us)) le_rfl
    obtain rfl := (List.cons.inj (hlast.eq_of_length rfl)).1
    exact hu
  carries z ts rest w hs _ h hr := by
    obtain ⟨t, u, us, rfl, -⟩ := hs.exists_word
    cases h
    have hus : z.source <:+ us := hr.suffix
    rw [Seam.image_cons (hus.trans (List.suffix_cons u us)), Seam.image_cons hus]
    exact (takes_advance t.lexeme _).bind (takes_advance u.lexeme _)

theorem carried_pathSteps : Carried K 0 e pathSteps pathSteps :=
  carried_manyWhile looks_atPathStep steady_atPathStep (fun _ => rfl) (fun _ _ => id)
    carried_pathStep

theorem carried_qualifiedName : Carried K 1 e qualifiedName qualifiedName :=
  carried_expectName.taking fun _ => carried_pathSteps.taking fun _ => .pure _

/-! ### Expressions -/

theorem steady_isPunctuator {q : String} (hclose : ")" ≠ q) (hcomma : "," ≠ q) :
    Steady e fun _ ls => (ahead 0 ls).isPunctuator q :=
  steady_first (·.isPunctuator q) false fun _ _ h => h.isPunctuator hclose hcomma

theorem steady_nextIsOpenParen : Steady .within fun _ ls => (ahead 1 ls).isPunctuator "(" :=
  steady_second_within (·.isPunctuator "(") false fun _ _ h =>
    h.isPunctuator (by decide) (by decide)

/-- A token of this kind is proper. -/
theorem solid_of_kind {kind : TokenKind} {literal : String} {ls : List Lexeme}
    (h : ahead 0 ls = ⟨kind, literal⟩) (heof : kind ≠ .eof) (hpoint : kind ≠ .punctuator) :
    Solid ls := by
  refine solid_of (g := fun l => l.kind != .eof && l.kind != .punctuator) rfl rfl ?_
  rw [h]
  simp [heof, hpoint]

/-- Rules that go on alike behind what the texts have in common. -/
structure CarriedRules (r r' : Rules) : Prop where
  expression (p : Precedence) (e : Edge) : Carried Anything 1 e (r.expression p) (r'.expression p)
  select : Carried Anything 0 .within r.select r'.select

theorem carried_pathExpr : Carried Solid 1 e pathExpr pathExpr :=
  carried_advance.taking fun _ => carried_pathSteps.taking fun _ => .pure _

theorem looks_argumentGoesOn : Looks argumentGoesOn fun _ ls =>
    !((ahead 0 ls).isPunctuator "," || (ahead 0 ls).isPunctuator ")" || ls.isEmpty) :=
  (looks_atPunctuator ",").bind fun _ => (looks_atPunctuator ")").bind fun _ =>
    looks_atEnd.bind fun _ => .pure _

theorem steady_argumentGoesOn : Steady .within fun _ ls =>
    !((ahead 0 ls).isPunctuator "," || (ahead 0 ls).isPunctuator ")" || ls.isEmpty) :=
  (steady_first_within fun l => l.isPunctuator "," || l.isPunctuator ")").map₂
    steady_isEmpty_within fun b c => !(b || c)

section Expressions

variable {r r' : Rules} (hr : CarriedRules r r')

include hr

theorem carried_expressions (he : e ≠ .free) :
    Carried Anything 1 e r.expressions r'.expressions :=
  carried_commaList he (hr.expression _ _) ((hr.expression _ _).weaken (Nat.zero_le 1))

theorem carried_parenthesizedQuery :
    Carried Anything 1 e (parenthesizedQuery r) (parenthesizedQuery r') :=
  .andThen (carried_expectPunctuator (by decide)) fun _ => .andThen hr.select fun _ =>
    (carried_expectPunctuator (by decide)).taking fun _ => .pure _

theorem carried_argumentFragment :
    Carried Anything 1 e (argumentFragment r) (argumentFragment r') := by
  have hexpression {K : List Lexeme → Prop} : Carried K 1 e
      (r.expression .lowest >>= fun value => pure (Fragment.expr value))
      (r'.expression .lowest >>= fun value => pure (Fragment.expr value)) :=
    (hr.expression _ _).anywhere.taking fun _ => .pure _
  refine .test (looks_atAnyKeyword _) (steady_first_within fun l => argumentWords.any l.isKeyword)
    (fun _ _ => solid_of (g := fun l => argumentWords.any l.isKeyword) rfl rfl) ?_ ?_
  · exact .look looks_nextIsOpenParen steady_nextIsOpenParen fun _ =>
      .ite (carried_advance.taking fun _ => .pure _) hexpression
  · exact .look looks_nextIsOpenParen steady_nextIsOpenParen fun _ => hexpression

theorem carried_argument : Carried Anything 1 .within (argument r) (argument r') := by
  have hmany : Carried Anything 0 .within (argument r) (argument r') :=
    (carried_manyWhile looks_argumentGoesOn steady_argumentGoesOn (fun _ => rfl)
      (fun _ _ _ => trivial) (carried_argumentFragment hr)).taking
        fun _ => .ite (.reject _) (.pure _)
  refine ⟨fun s ts rest fragments he _ hrun => ?_, hmany.carries⟩
  obtain ⟨fs, mid, hfs, hrun⟩ := bind_ok_iff.1 hrun
  split at hrun
  next => cases hrun
  next hne =>
    cases hrun
    have htaken : Taken fragments.length .within ts rest :=
      taken_itemsWhile looks_argumentGoesOn (fun _ _ _ => trivial) (carried_argumentFragment hr)
        ts.length he hfs
    refine htaken.weaken (List.length_pos_iff.2 fun h => hne ?_)
    rw [h]
    rfl

theorem carried_argumentList {n m : Nat} (h : n ≤ m) :
    Carried Anything 1 e (argumentList r n) (argumentList r' m) := by
  induction n generalizing m with
  | zero => exact .reject _
  | succ n ih =>
    obtain ⟨m, rfl⟩ : ∃ j, m = j + 1 := ⟨m - 1, by omega⟩
    refine .andThen (carried_argument hr) fun a => ?_
    refine .eatPunctuator (by decide) (steady_first_within (·.isPunctuator ")")) le_rfl
      (.pure _) ?_
    exact .taking (carried_expectPunctuator (by decide)) fun _ =>
      ((ih (by omega)).weaken (Nat.zero_le 1)).taking fun _ => .pure _

theorem carried_functionCall : Carried Solid 1 e (functionCall r) (functionCall r') := by
  refine .look looks_dialect (steady_const id) fun d => .current rfl fun _ _ _ _ =>
    .ite (.reject _) ?_
  refine .andThen (carried_advance.mono fun _ h => h.1) fun _ =>
    .andThen (carried_expectPunctuator (by decide)) fun _ => ?_
  refine .eatPunctuator (by decide) (steady_first_within (·.isPunctuator ")")) le_rfl (.pure _) ?_
  exact .taking (.bounded fun n m h => carried_argumentList hr (Nat.succ_le_succ h)) fun _ => .pure _

theorem carried_withoutQuery :
    Carried Anything 1 e (withoutQuery r) (withoutQuery r') := by
  refine .andThen (carried_expectPunctuator (by decide)) fun _ =>
    .look (looks_atAnyKeyword _) (steady_first_within fun l => ["SELECT", "WITH"].any l.isKeyword)
      fun _ => .ite ?_ ?_
  · exact .andThen hr.select fun _ => (carried_expectPunctuator (by decide)).taking fun _ => .pure _
  · refine .andThen (hr.expression _ _) fun _ => .look (looks_atPunctuator ",")
      (steady_first_within (·.isPunctuator ",")) fun _ => .ite ?_ ?_
    · exact .andThen (carried_commaTail (e := .within) (by decide) ((hr.expression _ _).weaken (Nat.zero_le 1)))
        fun _ => (carried_expectPunctuator (by decide)).taking fun _ => .pure _
    · exact (carried_expectPunctuator (by decide)).taking fun _ => .pure _

omit hr in
theorem carried_braceLiteral {K : List Lexeme → Prop} (hsolid : ∀ ls, K ls → Solid ls) :
    Carried K 1 e braceLiteral braceLiteral := by
  have htest : Looks (do return !((← atPunctuator closeBrace) || (← atEnd))) fun _ ls =>
      !((ahead 0 ls).isPunctuator closeBrace || ls.isEmpty) :=
    (looks_atPunctuator closeBrace).bind fun _ => looks_atEnd.bind fun _ => .pure _
  refine .andThen (carried_advance.mono hsolid) fun _ => .andThen (carried_skip htest ?_) fun _ =>
    (carried_expectPunctuator (by decide)).taking fun _ => .pure _
  exact (steady_first_within fun l => l.isPunctuator closeBrace).map₂ steady_isEmpty_within
    fun b c => !(b || c)

theorem carried_whenBranch : Carried Solid 1 e (whenBranch r) (whenBranch r') :=
  carried_advance.andThen fun _ => (hr.expression _ _).andThen fun _ =>
    (carried_expectKeyword _).andThen fun _ => (hr.expression _ _).taking fun _ => .pure _

theorem carried_caseExpr : Carried Solid 1 e (caseExpr r) (caseExpr r') := by
  have hend {c : List CaseBranch → String → Expr} (otherwise : List CaseBranch) :
      Carried Anything 1 e (expectKeyword "END" >>= fun w => pure (c otherwise w))
        (expectKeyword "END" >>= fun w => pure (c otherwise w)) :=
    (carried_expectKeyword _).taking fun _ => .pure _
  refine carried_advance.andThen fun keyword => .look (looks_atKeyword "WHEN")
    (steady_first_within (·.isKeyword "WHEN")) fun _ => ?_
  extract_lets behindOperand behindOperand'
  have hrest : ∀ operand, Carried Anything 1 e (behindOperand operand) (behindOperand' operand) := by
    intro operand
    refine .andThen (carried_manyWhile (looks_atKeyword "WHEN")
      (steady_first_within (·.isKeyword "WHEN")) (fun _ => rfl) (fun _ => solid_of_isKeyword)
      (carried_whenBranch hr)) fun _ => .ite (.reject _) ?_
    refine .eatKeyword (steady_first_within (·.isKeyword "ELSE")) le_rfl (fun _ => ?_) ?_
    · exact (Carried.andThen (hr.expression _ _) fun _ => .andThen (.pure _) fun _ =>
        hend _).weaken (Nat.zero_le 1)
    · exact .andThen (.pure _) fun _ => hend _
  exact .ite (.andThen (.pure _) hrest) (.andThen ((hr.expression _ _).map _) hrest)

theorem carried_constructorCall : Carried Solid 1 e (constructorCall r) (constructorCall r') :=
  carried_advance.andThen fun _ => carried_qualifiedName.andThen fun _ =>
    (carried_expectPunctuator (by decide)).andThen fun _ =>
      (carried_expressions hr (e := .within) (by decide)).andThen fun _ =>
        (carried_expectPunctuator (by decide)).taking fun _ => .pure _

section Operands

variable (hp : ∀ e, Carried Anything 1 e (parenthesized r) (parenthesized r'))

include hp

theorem carried_keywordOperand : Carried Solid 1 e (keywordOperand r) (keywordOperand r') := by
  have hadvance {l : Lexeme} : Carried (fun ls => Solid ls ∧ ahead 0 ls = l) 1 e advance advance :=
    carried_advance.mono fun _ h => h.1
  refine .current rfl fun kind literal _ _ => ?_
  refine .ite (hadvance.taking fun _ =>
    ((hr.expression _ _).weaken (Nat.zero_le 1)).taking fun _ => .pure _) ?_
  refine .ite (hadvance.taking fun _ => .look (looks_atPunctuator "(")
    (steady_isPunctuator (by decide) (by decide)) fun _ =>
      .ite (((hp _).weaken (Nat.zero_le 1)).taking fun _ => .pure _) (.reject _)) ?_
  refine .ite (hadvance.taking fun _ => .pure _) ?_
  refine .ite ((carried_caseExpr hr).mono fun _ h => h.1) ?_
  refine .ite ((carried_constructorCall hr).mono fun _ h => h.1) ?_
  refine .look looks_nextIsOpenParen steady_nextIsOpenParen fun _ => .ite ?_ ?_
  · exact hadvance.taking fun _ =>
      ((carried_parenthesizedQuery hr).weaken (Nat.zero_le 1)).taking fun _ => .pure _
  · exact .look looks_nextIsOpenParen steady_nextIsOpenParen fun _ =>
      .ite ((carried_functionCall hr).mono fun _ h => h.1) (.reject _)

theorem carried_operand : Carried Anything 1 e (operand r) (operand r') := by
  have hsolid {kind : TokenKind} {literal : String} (heof : kind ≠ .eof)
      (hpoint : kind ≠ .punctuator) (ls : List Lexeme)
      (h : Anything ls ∧ ahead 0 ls = ⟨kind, literal⟩) : Solid ls := solid_of_kind h.2 heof hpoint
  refine .current rfl fun kind literal _ _ => ?_
  cases kind with
  | parameter | string | integer | decimal =>
    exact (carried_advance.mono (hsolid (by decide) (by decide))).taking fun _ => .pure _
  | operator =>
    have hadvance := (carried_advance (e := e)).mono
      (@hsolid .operator literal (by decide) (by decide))
    refine .ite (hadvance.taking fun _ =>
      ((hr.expression _ _).weaken (Nat.zero_le 1)).taking fun _ => .pure _) ?_
    exact .ite (hadvance.taking fun _ => .pure _) (.reject _)
  | identifier =>
    refine .look looks_nextIsOpenParen steady_nextIsOpenParen fun _ => .ite ?_ ?_
    · exact (carried_functionCall hr).mono (hsolid (by decide) (by decide))
    · exact carried_pathExpr.mono (hsolid (by decide) (by decide))
  | punctuator =>
    refine .ite (hp _).anywhere (.iteOf (fun hbrace => ?_) fun _ => .reject _)
    refine carried_braceLiteral fun ls h => ?_
    refine solid_of (g := (·.literal == openBrace)) rfl rfl ?_
    rw [h.2]
    exact hbrace
  | keyword => exact (carried_keywordOperand hr hp).mono (hsolid (by decide) (by decide))
  | eof => exact .reject _
  | illegal => exact .reject _

/-! ### Operators -/

omit hp in
theorem carried_isTest (left : Expr) : Carried Solid 1 e (isTest r left) (isTest r' left) := by
  have hwords : ∀ w ∈ ["NULL", "EMPTY", "TRUE", "FALSE"], ∀ v ∈ ["ORDER", "FETCH"],
      eqIgnoringCase v w = false := by decide
  refine carried_advance.taking fun _ =>
    (carried_eatKeyword (steady_isKeyword (by decide))).taking fun _ =>
      .eatKeyword (steady_isKeyword (by decide)) (Nat.zero_le 1) (fun _ => ?_) ?_
  · exact ((carried_expectKeyword _).weaken (Nat.zero_le 1)).taking fun _ =>
      ((hr.expression _ _).weaken (Nat.zero_le 1)).taking fun _ => .pure _
  · exact .eatAnyKeyword (fun w hw => steady_isKeyword (hwords w hw)) (Nat.zero_le 1)
      (fun _ => .andThen (.pure _) fun _ => .pure _) (.of_fails fun _ _ _ => nofun)

omit hp in
theorem carried_betweenTest (left : Expr) (words : String) :
    Carried Anything 1 e (betweenTest r left words) (betweenTest r' left words) :=
  (hr.expression _ _).andThen fun _ => (carried_expectKeyword _).andThen fun _ =>
    (hr.expression _ _).taking fun _ => .pure _

omit hp in
theorem carried_memberTest (left : Expr) (words : List String) :
    Carried Anything 1 e (memberTest r left words) (memberTest r' left words) :=
  .eatKeyword (steady_first_within (·.isKeyword "OF")) le_rfl
    (fun _ => ((hr.expression _ _).weaken (Nat.zero_le 1)).taking fun _ => .pure _)
    ((hr.expression _ _).taking fun _ => .pure _)

theorem carried_likeTest (left : Expr) (words : String) :
    Carried Anything 1 e (likeTest r left words) (likeTest r' left words) :=
  (hr.expression _ _).taking fun _ => .eatKeyword (steady_isKeyword (by decide)) (Nat.zero_le 1)
    (fun _ => ((carried_operand hr hp).weaken (Nat.zero_le 1)).taking fun _ => .pure _) (.pure _)

/-- The tests that may be negated. -/
theorem carried_testBehind (hin : ∀ left words, Carried Anything 1 e (inTest r left words)
      (inTest r' left words)) (left : Expr) (words : List String) (w : String) :
    Carried Anything 1 e (testBehind r left words w) (testBehind r' left words w) :=
  .ite (carried_likeTest hr hp left _) <| .ite (hin left _) <|
    .ite (carried_betweenTest hr left _) <| .ite (carried_memberTest hr left _) (.reject _)

theorem carried_extend (hin : ∀ left words, Carried Anything 1 e (inTest r left words)
      (inTest r' left words)) (left : Expr) (precedence : Precedence) :
    Carried Solid 1 e (extend r left precedence) (extend r' left precedence) := by
  have hbehind (notWord : Option String) : Carried Anything 1 e
      (current >>= fun t => advance >>= fun word =>
        testBehind r left (notWord.toList ++ [word]) t.literal)
      (current >>= fun t => advance >>= fun word =>
        testBehind r' left (notWord.toList ++ [word]) t.literal) := by
    refine .current rfl fun kind literal _ _ => ?_
    cases htest : ["LIKE", "IN", "BETWEEN", "MEMBER"].any (eqIgnoringCase literal) with
    | true =>
      refine .andThen (carried_advance.mono fun ls h => ?_) fun _ =>
        carried_testBehind hr hp hin left _ _
      refine solid_of (g := fun l => ["LIKE", "IN", "BETWEEN", "MEMBER"].any
        (eqIgnoringCase l.literal)) rfl rfl ?_
      rw [h.2]
      exact htest
    | false =>
      refine .of_fails fun s ts v h => ?_
      obtain ⟨word, rest, -, h⟩ := bind_ok_iff.1 h
      simp only [List.any_cons, List.any_nil, Bool.or_false, Bool.or_eq_false_iff] at htest
      obtain ⟨hlike, hin, hbetween, hmember⟩ := htest
      simp only [testBehind, hlike, hin, hbetween, hmember, Bool.false_eq_true, if_false] at h
      cases h
  refine .current rfl fun kind literal _ _ => ?_
  refine .ite ((carried_advance.mono fun _ h => h.1).taking fun _ =>
    ((hr.expression _ _).weaken (Nat.zero_le 1)).taking fun _ => .pure _) ?_
  refine .ite ((carried_isTest hr left).mono fun _ h => h.1) ?_
  exact .eatKeyword (steady_first_within (·.isKeyword "NOT")) le_rfl
    (fun _ => (hbehind (some _)).weaken (Nat.zero_le 1)) (hbehind none).anywhere

omit hr hp in
theorem solid_of_nextOf {ls : List Lexeme} (h : nextOf ls ≠ .lowest) : Solid ls := by
  cases ls with
  | nil => exact absurd rfl h
  | cons l rest =>
    refine ⟨l, rest, rfl, ?_⟩
    by_contra hpoint
    have hkind : l.kind = .punctuator := by
      simp only [Lexeme.isPunctuator, Bool.not_eq_false, Bool.and_eq_true, beq_iff_eq] at hpoint
      exact hpoint.1
    exact h (by simp [nextOf, Lexeme.precedence, hkind])

omit hr hp in
theorem nextOf_image {z : Seam} {ts : List Token} (hz : z.Joint ts) (hts : z.Reaches e ts) :
    nextOf (z.image ts) = nextOf (ts.map Token.lexeme) := steady_nextOf hz hts

section

variable (hin : ∀ left words, Carried Anything 1 e (inTest r left words) (inTest r' left words))

include hin

theorem taken_extendWhile (precedence : Precedence) (n : Nat) {left value : Expr} {s : Setting}
    {ts rest : List Token} (he : s.Ends)
    (hrun : extendWhile r precedence left n s ts = .ok (value, rest)) : Taken 0 e ts rest := by
  induction n generalizing left ts with
  | zero =>
    cases hrun
    exact .nothing e rest
  | succ n ih =>
    rw [extendWhile, bind_eq, looks_nextPrecedence he] at hrun
    dsimp only at hrun
    split at hrun
    next =>
      cases hrun
      exact .nothing e rest
    next hnext =>
      obtain ⟨extended, mid, hmid, hrun⟩ := bind_ok_iff.1 hrun
      have hsolid : Solid (ts.map Token.lexeme) :=
        solid_of_nextOf fun h => hnext (by rw [h]; exact Nat.zero_le _)
      have hfirst := (carried_extend hr hp hin left _).takes he hsolid hmid
      exact (hfirst.weaken (Nat.zero_le 1)).append (ih hrun)

theorem carries_extendWhile (precedence : Precedence) {z : Seam} (n m : Nat) {left value : Expr}
    {ts rest : List Token} (hn : ts.length ≤ n) (hm : ts.length ≤ m) (hz : z.Joint ts)
    (hrun : extendWhile r precedence left n z.setting ts = .ok (value, rest))
    (hr' : z.Reaches e rest) :
    Takes z.goal (extendWhile r' precedence left m) (z.image ts) value (z.image rest) := by
  have hstop (m : Nat) {ts : List Token} {left : Expr} (hz : z.Joint ts) (hts : z.Reaches e ts)
      (hnext : (nextOf (ts.map Token.lexeme)).rank ≤ precedence.rank) :
      Takes z.goal (extendWhile r' precedence left m) (z.image ts) left (z.image ts) :=
    takes_extendWhile_stop z.goal_ends (by rwa [nextOf_image hz hts]) m
  induction n generalizing m left ts with
  | zero =>
    cases hrun
    obtain rfl : rest = [] := List.length_eq_zero_iff.1 (Nat.le_zero.1 hn)
    exact hstop m hz hr' (Nat.zero_le _)
  | succ n ih =>
    have htaken := taken_extendWhile hr hp hin precedence (n + 1) z.setting_ends hrun
    have hts : z.Reaches e ts := hr'.before (k := 0) htaken.suffix htaken.length
    rw [extendWhile, bind_eq, looks_nextPrecedence z.setting_ends] at hrun
    dsimp only at hrun
    split at hrun
    next hnext =>
      cases hrun
      exact hstop m hz hr' hnext
    next hnext =>
      obtain ⟨extended, mid, hmid, hrun⟩ := bind_ok_iff.1 hrun
      have hsolid : Solid (ts.map Token.lexeme) :=
        solid_of_nextOf fun h => hnext (by rw [h]; exact Nat.zero_le _)
      have hextend := carried_extend hr hp hin left (nextOf (ts.map Token.lexeme))
      have hfirst := hextend.takes z.setting_ends hsolid hmid
      have hrest := taken_extendWhile hr hp hin precedence n z.setting_ends hrun
      have hlength := hfirst.length
      obtain ⟨m, rfl⟩ : ∃ j, m = j + 1 := ⟨m - 1, by omega⟩
      have hrun' := ih m (by omega) (by omega) (hz.suffix hfirst.suffix) hrun
      have hextend' := hextend.carries z hsolid hz hmid
        (hr'.before (k := 0) hrest.suffix hrest.length)
      rw [← nextOf_image hz hts] at hextend' hnext
      exact takes_extendWhile_step z.goal_ends (Nat.lt_of_not_le hnext) hextend' hrun'

theorem carried_expression (precedence : Precedence) :
    Carried Anything 1 e (expression r precedence) (expression r' precedence) :=
  (carried_operand hr hp).taking fun _ =>
    { takes := fun _ ts _ _ he _ hrun =>
        taken_extendWhile hr hp hin precedence ts.length he hrun
      carries := fun z ts _ _ _ hz hrun hr' =>
        .bounded (carries_extendWhile hr hp hin precedence ts.length _ le_rfl
          (z.length_le_image ts) hz hrun hr') }

end

end Operands

end Expressions

end Jpql.Grammar
