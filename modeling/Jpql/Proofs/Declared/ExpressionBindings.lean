import Jpql.Proofs.Declared.CarriedOver
import Jpql.Proofs.Declared.ExpressionMarks

/-! Bindings of value expressions. A query is extracted as if its expressions were not there, and
beside that each expression is bound once, in the place where its marker stands. -/

namespace Jpql

namespace ExtractedQuery

open Markers
open Step (result_bind_ok)

variable {p p' : Progress} {s s₀ : Substituted} {o : Occurrence}
  {argument target : BindingIdentifier} {kind : BindingKind}

/-! ### Arguments alone -/

theorem isArgument_of_beq {b b' : ParameterBinding} (h : (b' == b) = true) :
    b'.origin.isArgument = b.origin.isArgument := by
  have hsame {a c : ParameterOrigin} (h : a.same c = true) : a.isArgument = c.isArgument := by
    cases a <;> cases c <;> first | rfl | cases h
  have h : (b'.identifier == b.identifier && b'.origin.same b.origin && b'.kind == b.kind) = true :=
    h
  exact hsame (Bool.and_eq_true_iff.1 (Bool.and_eq_true_iff.1 h).1).2

/-- An argument is added to the bindings as it is to those of arguments. -/
theorem addBinding_arguments {b : ParameterBinding} {bs bs' : List ParameterBinding}
    (h : addBinding b bs = .ok bs') (hb : b.origin.isArgument = true) :
    addBinding b (bs.filter (·.origin.isArgument)) = .ok (bs'.filter (·.origin.isArgument)) := by
  unfold addBinding at h ⊢
  split at h
  · cases h
  next hnone =>
    obtain rfl := Except.ok.inj h
    have hnone' : (bs.filter (·.origin.isArgument)).find? (fun b' => b'.bindsTo b && !(b' == b)) =
        none :=
      List.find?_eq_none.2 fun b' hb' => List.find?_eq_none.1 hnone b' (List.mem_of_mem_filter hb')
    have hany : (bs.filter (·.origin.isArgument)).any (· == b) = bs.any (· == b) := by
      rw [List.any_filter]
      refine congrArg bs.any (funext fun b' => ?_)
      cases heq : b' == b with
      | true => rw [isArgument_of_beq heq, hb]; rfl
      | false => exact Bool.and_false _
    rw [hnone', hany]
    dsimp only
    split
    · rfl
    · rw [List.filter_append, List.filter_singleton, hb]
      rfl

namespace Progress

/-- The progress with the bindings of arguments only. -/
def arguments (p : Progress) : Progress :=
  { p with bindings := p.bindings.filter (·.origin.isArgument) }

/-- The bindings of expressions. -/
def expressions (p : Progress) : List ParameterBinding :=
  p.bindings.filter (·.origin.isExpression)

end Progress

theorem register_arguments {b : ParameterBinding} (h : p.register b = .ok p')
    (hb : b.origin.isArgument = true) : p.arguments.register b = .ok p'.arguments := by
  obtain ⟨bindings, hadd, hp'⟩ := result_bind_ok.1 h
  rw [← Except.ok.inj hp']
  exact result_bind_ok.2 ⟨_, addBinding_arguments hadd hb, rfl⟩

theorem register_expressions {b : ParameterBinding} (h : p.register b = .ok p')
    (hb : b.origin.isExpression = false) : p'.expressions = p.expressions := by
  obtain ⟨bindings, hadd, hp'⟩ := result_bind_ok.1 h
  rw [← Except.ok.inj hp']
  unfold addBinding at hadd
  split at hadd
  · cases hadd
  obtain rfl := Except.ok.inj hadd
  change (if p.bindings.any (· == b) then p.bindings else p.bindings ++ [b]).filter _ = _
  split
  · rfl
  · rw [List.filter_append, List.filter_singleton, hb]
    exact List.append_nil _

/-- An argument is assigned a parameter without regard to expressions and leaves them as they are. -/
theorem assignArgument_arguments (h : p.assignArgument argument kind = .ok (target, p')) :
    p.arguments.assignArgument argument kind = .ok (target, p'.arguments) ∧
      p'.expressions = p.expressions := by
  have hsame : p.arguments.ofArgument argument = p.ofArgument argument := rfl
  unfold Progress.assignArgument at h ⊢
  rw [hsame]
  split at h
  next =>
    obtain ⟨q, hregister, hq⟩ := result_bind_ok.1 h
    obtain ⟨rfl, rfl⟩ := Prod.mk.inj (Except.ok.inj hq)
    exact ⟨result_bind_ok.2 ⟨_, register_arguments hregister rfl, rfl⟩,
      register_expressions hregister rfl⟩
  next =>
    dsimp only at h ⊢
    split at h
    next =>
      obtain ⟨rfl, rfl⟩ := Prod.mk.inj (Except.ok.inj h)
      exact ⟨rfl, rfl⟩
    next =>
      obtain ⟨q, hregister, hq⟩ := result_bind_ok.1 h
      obtain ⟨rfl, rfl⟩ := Prod.mk.inj (Except.ok.inj hq)
      have hfresh : p.arguments.freshIdentifier argument =
          ((p.freshIdentifier argument).1, (p.freshIdentifier argument).2.arguments) := by
        cases argument <;> rfl
      rw [hfresh]
      refine ⟨result_bind_ok.2 ⟨_, register_arguments hregister rfl, rfl⟩, ?_⟩
      rw [register_expressions hregister rfl]
      cases argument <;> rfl

theorem argumentOf_arguments (p : Progress) (m : Marker) :
    argumentOf p.arguments m =
      ((argumentOf p m).1, m.key?, (argumentOf p m).2.2.arguments) := by
  cases m <;> rfl

theorem argumentOf_expressions (p : Progress) (m : Marker) :
    (argumentOf p m).2.1 = m.key? ∧ (argumentOf p m).2.2.expressions = p.expressions := by
  cases m <;> exact ⟨rfl, rfl⟩

/-- A step over a marker that no expression is kept for. -/
theorem step_arguments (hs₀ : s₀.expressions = []) (hnone : o.marker.key?.bind s.expression? = none)
    (h : step s p (.occurrence o) = .ok p') :
    step s₀ p.arguments (.occurrence o) = .ok p'.arguments ∧ p'.expressions = p.expressions := by
  have hnone₀ : o.marker.key?.bind s₀.expression? = none := by
    cases o.marker.key? with
    | none => rfl
    | some key => rw [Option.bind_some, Substituted.expression?, hs₀]; rfl
  obtain ⟨hkey, hexpressions⟩ := argumentOf_expressions p o.marker
  rw [step_occurrence_eq] at h ⊢
  rw [argumentOf_arguments]
  generalize argumentOf p o.marker = start at h hkey hexpressions
  obtain ⟨argument, key, q⟩ := start
  dsimp only at h hkey hexpressions ⊢
  subst hkey
  split at h
  · cases h
  next hunmixed =>
    obtain ⟨⟨target, q'⟩, hassign, hp'⟩ := result_bind_ok.1 h
    rw [Progress.assign, hnone] at hassign
    obtain ⟨harguments, hsame⟩ := assignArgument_arguments hassign
    have hunmixed' : ¬ (q.arguments.identified && q.arguments.unnumbered) = true := hunmixed
    rw [← Except.ok.inj hp', if_neg hunmixed', Progress.assign, hnone₀]
    exact ⟨result_bind_ok.2 ⟨_, harguments, rfl⟩, hsame.trans hexpressions⟩

/-! ### Markers in the places of items -/

/-- An item of a text with what is assigned in its place. A marker of the text stands there
itself. -/
structure Placed where
  item : Item
  assigned : Assigned
  own : ∀ m, item = .marker m → assigned.occurrence.marker = m

namespace Placed

/-- What is assigned to a marker of the text. -/
def argument? (x : Placed) : Option Assigned :=
  match x.item with
  | .marker _ => some x.assigned
  | .expression _ => none

/-- The binding of an expression. -/
def expression? (x : Placed) : Option ParameterBinding :=
  match x.item with
  | .marker _ => none
  | .expression text => some
      { identifier := x.assigned.target, origin := .expression text, kind := x.assigned.kind }

end Placed

/-- The key under which an expression is kept that is bound there. -/
def keyOf : BindingIdentifier → Option String
  | .named name => some name
  | .indexed n => some (toString n)
  | .namedAndIndexed .. => none

/-- What holds of the progress that is made with some items, of which the expressions have the keys
`done`. -/
structure Extends (used : List Nat) (done : List String) (xs : List Placed) (p : Progress) :
    Prop where
  arguments : Consistent used (xs.filterMap Placed.argument?) p.arguments
  expressions : p.expressions = xs.filterMap Placed.expression?
  done : ∀ b ∈ p.expressions, ∃ key ∈ done, keyOf b.identifier = some key

variable {used : List Nat} {done : List String} {xs : List Placed}

theorem Extends.withText (h : Extends used done xs p) (text : List Char) :
    Extends used done xs { p with text } where
  arguments := ⟨h.arguments.shares, h.arguments.bindings, h.arguments.labels, h.arguments.positions,
    h.arguments.allocated, h.arguments.identified, h.arguments.unnumbered⟩
  expressions := h.expressions
  done := h.done

/-- A marker of the text is assigned its argument. -/
theorem Extends.step_argument (h : Extends used done xs p)
    (hnone : o.marker.key?.bind s.expression? = none) (hstep : step s p (.occurrence o) = .ok p') :
    ∃ x : Placed, x.item = .marker o.marker ∧ x.assigned.occurrence = o ∧
      Extends used done (xs ++ [x]) p' ∧
      p'.text = p.text ++ (Segment.marker x.assigned).extracted := by
  have hs₀ : Substituted.expressions { labels := s.labels } = [] := rfl
  obtain ⟨harguments, hexpressions⟩ := step_arguments hs₀ hnone hstep
  obtain ⟨x, rfl, hconsistent, htext⟩ := step_occurrence hs₀ h.arguments harguments
  refine ⟨⟨.marker x.occurrence.marker, x, fun m hm => Item.marker.inj hm⟩, rfl, rfl,
    ⟨?_, ?_, ?_⟩, htext⟩
  · rw [List.filterMap_append]
    exact hconsistent
  · rw [hexpressions, h.expressions, List.filterMap_append]
    exact (List.append_nil _).symm
  · rw [hexpressions]
    exact h.done

theorem argumentOf_of_key? {m : Marker} {key : String} (h : m.key? = some key) (p : Progress) :
    (m == .unnumbered) = false ∧ ∃ argument,
      argumentOf p m = (argument, some key, { p with identified := true }) ∧
        keyOf argument = some key := by
  cases m with
  | unnumbered => cases h
  | numbered n | named name =>
    obtain rfl := Option.some.inj h
    exact ⟨rfl, _, rfl, rfl⟩

/-- Another binding of an expression would have a key that is done. -/
theorem Extends.beq_eq_false (h : Extends used done xs p) {key : String}
    (hkey : keyOf argument = some key) (hnew : key ∉ done) (expression : String)
    (kind : BindingKind) : ∀ b ∈ p.bindings,
      (b == { identifier := argument, origin := .expression expression, kind }) = false := by
  intro b hb
  refine Bool.eq_false_iff.2 fun heq => hnew ?_
  have heq : (b.identifier == argument && b.origin.same (.expression expression) &&
    b.kind == kind) = true := heq
  simp only [Bool.and_eq_true, beq_iff_eq] at heq
  obtain ⟨⟨rfl, horigin⟩, -⟩ := heq
  have hmem : b ∈ p.expressions := by
    refine List.mem_filter.2 ⟨hb, ?_⟩
    cases hb : b.origin with
    | expression _ => rfl
    | argument _ | synthetic _ _ =>
      rw [hb] at horigin
      cases horigin
  obtain ⟨key', hkey', hsame⟩ := h.done b hmem
  rw [hkey] at hsame
  exact Option.some.inj hsame ▸ hkey'

/-- What a binding of an expression leaves that is added. -/
theorem Extends.bind (h : Extends used done xs p) {key : String} {x : Placed}
    {b : ParameterBinding} (hargument : x.argument? = none) (hexpression : x.expression? = some b)
    (hb : b.origin.isArgument = false ∧ b.origin.isExpression = true)
    (hkey : keyOf b.identifier = some key) (text : List Char) :
    Extends used (done ++ [key]) (xs ++ [x])
      { p with bindings := p.bindings ++ [b], identified := true, text } where
  arguments := by
    have hsame : (p.bindings ++ [b]).filter (·.origin.isArgument) =
        p.bindings.filter (·.origin.isArgument) := by
      rw [List.filter_append, List.filter_singleton, hb.1]
      exact List.append_nil _
    rw [List.filterMap_append, List.filterMap_cons_none hargument, List.filterMap_nil,
      List.append_nil, Progress.arguments, hsame]
    exact (h.withText text).arguments.identify
  expressions := by
    rw [List.filterMap_append, ← h.expressions, Progress.expressions, List.filter_append,
      List.filter_singleton, hb.2, List.filterMap_cons_some hexpression]
    rfl
  done := by
    rw [Progress.expressions, List.filter_append, List.filter_singleton, hb.2]
    refine List.forall_mem_append.2 ⟨fun b' hb' => ?_, List.forall_mem_singleton.2 ?_⟩
    · obtain ⟨key', hkey', hsame⟩ := h.done b' hb'
      exact ⟨key', List.mem_append_left _ hkey', hsame⟩
    · exact ⟨key, List.mem_append_right _ (List.mem_singleton_self _), hkey⟩

/-- The marker of an expression is assigned a parameter that is bound to the expression. -/
theorem Extends.step_expression (h : Extends used done xs p) {key expression : String}
    (hkey : o.marker.key? = some key) (hexpression : s.expression? key = some expression)
    (hnew : key ∉ done) (hstep : step s p (.occurrence o) = .ok p') :
    ∃ x : Placed, x.item = .expression expression ∧ x.assigned.occurrence = o ∧
      Extends used (done ++ [key]) (xs ++ [x]) p' ∧
      p'.text = p.text ++ (Segment.marker x.assigned).extracted := by
  obtain ⟨hmarker, argument, hargument, hkeyOf⟩ := argumentOf_of_key? hkey p
  rw [step_occurrence_eq, hargument] at hstep
  dsimp only at hstep
  split at hstep
  · cases hstep
  next hunmixed =>
    have hunmixed : p.unnumbered = false := by simpa using hunmixed
    obtain ⟨⟨target, q⟩, hassign, hp'⟩ := result_bind_ok.1 hstep
    rw [Progress.assign, Option.bind_some, hexpression] at hassign
    obtain ⟨bindings, hadd, hq⟩ := result_bind_ok.1 hassign
    obtain ⟨rfl, rfl⟩ := Prod.mk.inj (Except.ok.inj hq)
    obtain ⟨rfl, -⟩ := addBinding_ok hadd (h.beq_eq_false hkeyOf hnew expression (kindOf o))
    rw [← Except.ok.inj hp']
    refine ⟨⟨.expression expression, ⟨o, argument, argument⟩, fun m hm => by cases hm⟩, rfl, rfl,
      h.bind rfl rfl ⟨rfl, rfl⟩ hkeyOf _, ?_⟩
    change p.text ++ (markerText (!p.unnumbered) argument).toList = _
    rw [hunmixed, Segment.extracted, Assigned.isUnnumbered, hmarker]

/-! ### The whole text -/

/-- The items of a text stand among its pieces, in order. -/
structure Places (items : List Item) (pieces : List Piece) (segments : List Segment)
    (xs : List Placed) : Prop where
  items : xs.map (·.item) = items
  pieces : segments.map Segment.piece = pieces
  assigned : segments.filterMap Segment.assigned? = xs.map (·.assigned)

variable {items : List Item} {ms : List Marker} {more : List (String × String)}
  {pieces : List Piece} {segments : List Segment}

theorem Places.text (h : Places items pieces segments xs) (cs : List Char) :
    Places items (.text cs :: pieces) (.text cs :: segments) xs :=
  ⟨h.items, congrArg _ h.pieces, h.assigned⟩

theorem Places.cons (h : Places items pieces segments xs) (x : Placed) :
    Places (x.item :: items) (.occurrence x.assigned.occurrence :: pieces)
      (.marker x.assigned :: segments) (x :: xs) :=
  ⟨congrArg _ h.items, congrArg _ h.pieces, congrArg _ h.assigned⟩

theorem marked_cons {m : Marker} (h : Marked items (m :: ms) more) :
    (∃ items', items = .marker m :: items' ∧ Marked items' ms more) ∨
      ∃ text key items' more', items = .expression text :: items' ∧ more = (key, text) :: more' ∧
        m.key? = some key ∧ Marked items' ms more' := by
  cases h with
  | marker _ h => exact .inl ⟨_, rfl, h⟩
  | expression text hkey h => exact .inr ⟨text, _, _, _, rfl, rfl, hkey, h⟩

/-- All steps together assign all items. The induction is on the pieces; the keys of the expressions
that are still to come are none of those that are done. -/
theorem foldlM_step_extends (hfound : ∀ e ∈ more, s.expression? e.1 = some e.2)
    (hown : ∀ m, .marker m ∈ items → m.key?.bind s.expression? = none)
    (hmarked : Marked items ((pieces.filterMap Piece.occurrence?).map (·.marker)) more)
    (h : Extends used done xs p) (hnodup : (done ++ more.map (·.1)).Nodup)
    (hrun : pieces.foldlM (step s) p = .ok p') :
    ∃ segments ys, Places items pieces segments ys ∧
      Extends used (done ++ more.map (·.1)) (xs ++ ys) p' ∧
      p'.text = p.text ++ segments.flatMap Segment.extracted := by
  induction pieces generalizing items more done xs p with
  | nil =>
    obtain rfl := Except.ok.inj hrun
    cases hmarked
    exact ⟨[], [], ⟨rfl, rfl, rfl⟩, by simpa using h, by simp⟩
  | cons piece pieces ih =>
    obtain ⟨q, hstep, hrest⟩ := result_bind_ok.1 hrun
    cases piece with
    | text cs =>
      obtain rfl := Except.ok.inj hstep
      obtain ⟨segments, ys, hplaces, hextends, htext⟩ :=
        ih hfound hown hmarked (h.withText _) hnodup hrest
      exact ⟨_, ys, hplaces.text cs, hextends, by simp [htext, Segment.extracted]⟩
    | occurrence o =>
      rcases marked_cons hmarked with
        ⟨items, rfl, hrestMarked⟩ | ⟨expression, key, items, more, rfl, rfl, hkey, hrestMarked⟩
      · obtain ⟨x, hitem, rfl, hx, hxtext⟩ :=
          h.step_argument (hown _ List.mem_cons_self) hstep
        obtain ⟨segments, ys, hplaces, hextends, htext⟩ := ih hfound
          (fun m hm => hown m (List.mem_cons_of_mem _ hm)) hrestMarked hx hnodup hrest
        rw [List.append_assoc xs] at hextends
        refine ⟨_, x :: ys, hitem ▸ hplaces.cons x, hextends, ?_⟩
        rw [htext, hxtext, List.flatMap_cons, List.append_assoc]
      · have hkeys : done ++ ((key, expression) :: more).map (·.1) =
            done ++ [key] ++ more.map (·.1) := by
          rw [List.map_cons, List.append_assoc, List.singleton_append]
        rw [hkeys] at hnodup ⊢
        have hnew : key ∉ done := fun hmem =>
          (List.nodup_append.1 (List.nodup_append.1 hnodup).1).2.2 _ hmem _
            (List.mem_singleton_self _) rfl
        obtain ⟨x, hitem, rfl, hx, hxtext⟩ :=
          h.step_expression hkey (hfound _ List.mem_cons_self) hnew hstep
        obtain ⟨segments, ys, hplaces, hextends, htext⟩ :=
          ih (fun e he => hfound e (List.mem_cons_of_mem _ he))
            (fun m hm => hown m (List.mem_cons_of_mem _ hm)) hrestMarked hx hnodup hrest
        rw [List.append_assoc xs] at hextends
        refine ⟨_, x :: ys, hitem ▸ hplaces.cons x, hextends, ?_⟩
        rw [htext, hxtext, List.flatMap_cons, List.append_assoc]

theorem extends_start (cs : List Char) {byIndex : Bool} {s : Substituted}
    (h : Fresh byIndex (positions cs) s) : Extends (positions cs) [] [] { labels := s.labels } where
  arguments :=
    { shares := (consistent_start cs).shares
      bindings := rfl
      labels := h.labels
      positions := fun _ hn => h.kept hn
      allocated := List.forall_mem_nil _
      identified := List.forall_mem_nil _
      unnumbered := List.forall_mem_nil _ }
  expressions := rfl
  done := List.forall_mem_nil _

/-- Every expression of a text that is accepted is bound once, in the place of its marker, and the
markers of the text are bound to their own arguments; no two bindings have a parameter in common.
This holds unless a marker is named by the number that stands for an expression, since the expression
is then found under the name too. No text in memory is so long that it runs out of numbers. -/
theorem parse_binds_expressions {query : String} {isNative : Bool} {r : ExtractedQuery}
    (hitems : items? query.toList = some items) (hlength : query.length < 2 ^ 63)
    (hreserved : ∀ name, .marker (.named name) ∈ items → ¬ reserved.toList <+: name.toList)
    (hnumbers : ∀ n : Nat, .marker (.named (toString n)) ∈ items →
      (substituted query.toList).expression? (toString n) = none)
    (h : parse query isNative = .ok r) :
    ∃ segments xs, Places items (Markers.pieces (substituted query.toList).text) segments xs ∧
      r.query = String.ofList (segments.flatMap Segment.extracted) ∧
      r.bindings.filter (·.origin.isExpression) = xs.filterMap Placed.expression? ∧
      Shares (positions query.toList) (xs.filterMap Placed.argument?)
        (r.bindings.filter (·.origin.isArgument)) ∧
      r.bindings.Pairwise fun a b => a.bindsTo b = false := by
  obtain ⟨p, hp, rfl⟩ := parse_ok h
  obtain ⟨hmarked, byIndex, hfresh⟩ := substituted_marked hitems (by rwa [String.length_toList])
  have hown : ∀ m, .marker m ∈ items →
      m.key?.bind (substituted query.toList).expression? = none := by
    intro m hm
    refine hfresh.expression?_eq_none ?_ ?_ ?_
    · rintro n rfl
      exact (reads_itemsFrom? hitems).numbered hm
    · rintro name rfl
      exact hreserved name hm
    · rintro n rfl
      exact hnumbers n hm
  obtain ⟨segments, xs, hplaces, hextends, htext⟩ :=
    foldlM_step_extends (fun e he => hfresh.expression?_eq he) hown hmarked
      (extends_start query.toList hfresh) hfresh.nodup hp
  refine ⟨segments, xs, hplaces, congrArg String.ofList htext, hextends.expressions, ?_,
    (tidy_scanned hp).apart⟩
  have hshares := hextends.arguments.shares
  rw [← hextends.arguments.bindings] at hshares
  exact hshares

/-- An expression beside a marker with a number gets another number. -/
theorem parse_binds_expression_and_number : ∃ r,
    parse "u.name like %:#\x7b x \x7d% and u.age = ?1" false = .ok r ∧
    ∃ segments xs, Places [.expression "x", .marker (.numbered 1)]
        (Markers.pieces (substituted "u.name like %:#\x7b x \x7d% and u.age = ?1".toList).text)
        segments xs ∧
      r.query = String.ofList (segments.flatMap Segment.extracted) ∧
      r.bindings.filter (·.origin.isExpression) = xs.filterMap Placed.expression? ∧
      Shares (positions "u.name like %:#\x7b x \x7d% and u.age = ?1".toList)
        (xs.filterMap Placed.argument?) (r.bindings.filter (·.origin.isArgument)) ∧
      r.bindings.Pairwise fun a b => a.bindsTo b = false := by
  have haccepted : (parse "u.name like %:#\x7b x \x7d% and u.age = ?1" false).toOption.map
      (·.query) = some "u.name like ?2 and u.age = ?1" := by
    decide
  obtain ⟨r, hr, -⟩ := Step.exists_of_toOption_map haccepted
  have hitems : items? "u.name like %:#\x7b x \x7d% and u.age = ?1".toList =
      some [.expression "x", .marker (.numbered 1)] := by
    decide
  refine ⟨r, hr, parse_binds_expressions hitems (by decide) ?_ ?_ hr⟩
  · intro name hname
    simp at hname
  · intro n hn
    simp at hn

/-- A marker that is named as an expression is numbered is bound to the expression too. -/
theorem parse_binds_expression_twice : ∃ r items,
    parse "u.name = ?#\x7bx\x7d and u.age = :1" false = .ok r ∧
    items? "u.name = ?#\x7bx\x7d and u.age = :1".toList = some items ∧
    (∀ name, .marker (.named name) ∈ items → ¬ reserved.toList <+: name.toList) ∧
    ¬ ∃ xs : List Placed, xs.map (·.item) = items ∧
      r.bindings.filter (·.origin.isExpression) = xs.filterMap Placed.expression? := by
  have htwice : (parse "u.name = ?#\x7bx\x7d and u.age = :1" false).toOption.map
      (fun r => (r.bindings.filter (·.origin.isExpression)).length) = some 2 := by
    decide
  obtain ⟨r, hr, hlength⟩ := Step.exists_of_toOption_map htwice
  have hitems : items? "u.name = ?#\x7bx\x7d and u.age = :1".toList =
      some [.expression "x", .marker (.named "1")] := by
    decide
  refine ⟨r, _, hr, hitems, ?_, ?_⟩
  · intro name hname
    obtain rfl : name = "1" := by simpa using hname
    decide
  · rintro ⟨xs, hxs, hsame⟩
    obtain ⟨x, rest, rfl, hx, hrest⟩ := List.map_eq_cons_iff.1 hxs
    obtain ⟨y, rest, rfl, hy, hnil⟩ := List.map_eq_cons_iff.1 hrest
    obtain rfl := List.map_eq_nil_iff.1 hnil
    have hone : ([x, y].filterMap Placed.expression?).length = 1 := by
      simp [Placed.expression?, hx, hy]
    rw [← hsame, hlength] at hone
    cases hone

end ExtractedQuery

end Jpql
