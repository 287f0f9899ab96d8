import Jpql.Proofs.Declared.Sharing
import Mathlib

/-! Extraction as a run: the value expressions are replaced, the text is cut into pieces, and one
step after the other assigns the parameters. At the end every marker's parameter has one binding, and
every binding a marker. -/

namespace Jpql.ExtractedQuery

open Markers
open Step (result_bind_ok)

/-! ### The run -/

/-- A query text with its value expressions replaced by markers. -/
def substituted (cs : List Char) : Substituted :=
  let labels := Labels.ofUsed (positions cs)
  substitute (!labels.used.isEmpty || Text.contains ['?', '#', '\x7b'] cs) labels cs

/-- All steps of the extraction of a text. -/
def scanned (cs : List Char) : Result Progress :=
  (pieces (substituted cs).text).foldlM (step (substituted cs)) { labels := (substituted cs).labels }

/-- The extracted query at the end of all steps. -/
def finished (query : String) (isNative : Bool)
    (adapt : List ParameterBinding → List ParameterBinding) (p : Progress) : ExtractedQuery :=
  let bindings := adapt p.bindings
  { query := String.ofList p.text, isNative, bindings
    usesUnnumbered := p.unnumbered
    mentionsPageable := Text.contains "#pageable".toList query.toList
    hasNamedParameter := bindings.any fun b => b.name?.isSome && b.origin.isArgument }

theorem extract_eq (query : String) (isNative : Bool)
    (adapt : List ParameterBinding → List ParameterBinding) :
    extract query isNative adapt = (scanned query.toList).map (finished query isNative adapt) := by
  change scanned query.toList >>= _ = _
  cases scanned query.toList <;> rfl

theorem parse_ok {query : String} {isNative : Bool} {r : ExtractedQuery}
    (h : parse query isNative = .ok r) :
    ∃ p, scanned query.toList = .ok p ∧ r = finished query isNative id p := by
  rw [parse, extract_eq] at h
  obtain ⟨p, hp, rfl⟩ := Step.result_map_ok.1 h
  exact ⟨p, hp, rfl⟩

/-! ### One step -/

/-- The parameter for an occurrence of an argument, or of an expression that it was put for. -/
def Progress.assign (p : Progress) (s : Substituted) (argument : BindingIdentifier)
    (key : Option String) (kind : BindingKind) : Result (BindingIdentifier × Progress) :=
  match key.bind s.expression? with
  | some expression => p.assignExpression argument expression kind
  | none => p.assignArgument argument kind

/-- Puts the marker of a parameter behind the text. -/
def Progress.write (target : BindingIdentifier) (p : Progress) : Progress :=
  { p with text := p.text ++ (markerText (!p.unnumbered) target).toList }

theorem step_occurrence_eq (s : Substituted) (p : Progress) (o : Occurrence) :
    step s p (.occurrence o) =
      let (argument, key, q) := argumentOf p o.marker
      if q.identified && q.unnumbered then .error (.invalidQuery .mixedMarkers)
      else q.assign s argument key (kindOf o) >>= fun (target, q) => .ok (q.write target) := by
  simp only [step]
  generalize argumentOf p o.marker = start
  obtain ⟨argument, key, q⟩ := start
  dsimp only
  split
  · rfl
  · unfold Progress.assign
    cases key.bind s.expression? <;> rfl

/-- What reading a marker leaves of the progress. -/
theorem argumentOf_eq (p : Progress) (m : Marker) :
    ∃ argument key labels unnumbered identified,
      argumentOf p m = (argument, key, { p with labels, unnumbered, identified }) ∧
        ((∃ n, argument = .indexed n) ∨ ∃ name, m = .named name ∧ argument = .named name) ∧
        (p.unnumbered = true → unnumbered = true) ∧
        ((identified && unnumbered) = false → unnumbered = (m == .unnumbered)) := by
  cases m with
  | unnumbered => exact ⟨_, _, _, _, _, rfl, .inl ⟨_, rfl⟩, fun _ => rfl, fun _ => rfl⟩
  | numbered n => exact ⟨_, _, _, _, _, rfl, .inl ⟨_, rfl⟩, id, id⟩
  | named name => exact ⟨_, _, _, _, _, rfl, .inr ⟨_, rfl, rfl⟩, id, id⟩

/-! ### Bound parameters -/

/-- A property that positions have, and that names made from a name share with it. -/
structure Inherited (P : BindingIdentifier → Prop) : Prop where
  indexed : ∀ n, P (.indexed n)
  fresh : ∀ name names, P (.named name) → P (.named (freshName name names))

/-- Some binding addresses the parameter and prepares its value in that way. -/
def Binds (bindings : List ParameterBinding) (target : BindingIdentifier) (kind : BindingKind) :
    Prop := ∃ b ∈ bindings, b.identifier = target ∧ b.kind = kind

variable {P : BindingIdentifier → Prop} {p p' : Progress} {o : Occurrence}
  {argument target : BindingIdentifier} {kind : BindingKind}

theorem Binds.mono {bs bs' : List ParameterBinding} (h : Binds bs target kind) (hsub : bs ⊆ bs') :
    Binds bs' target kind := by
  obtain ⟨b, hb, hidentifier, hkind⟩ := h
  exact ⟨b, hsub hb, hidentifier, hkind⟩

/-- What adding a binding leads to. -/
structure Adds (b : ParameterBinding) (bs bs' : List ParameterBinding) : Prop where
  kept : bs ⊆ bs'
  binds : Binds bs' b.identifier b.kind
  added : ∀ b' ∈ bs', b' ∈ bs ∨ b'.identifier = b.identifier
  nodup : (bs'.map (·.identifier)).Nodup

theorem adds_of_addBinding {b : ParameterBinding} {bs bs' : List ParameterBinding}
    (h : addBinding b bs = .ok bs') (hbs : (bs.map (·.identifier)).Nodup) : Adds b bs bs' := by
  cases hany : bs.any (· == b) with
  | true =>
    -- The binding is present already.
    obtain ⟨b', hb', heq⟩ := List.any_eq_true.1 hany
    have heq : (b'.identifier == b.identifier && b'.origin == b.origin && b'.kind == b.kind) = true :=
      heq
    simp only [Bool.and_eq_true, beq_iff_eq] at heq
    unfold addBinding at h
    split at h
    · cases h
    rw [hany] at h
    obtain rfl := Except.ok.inj h
    exact ⟨List.Subset.refl _, ⟨b', hb', heq.1.1, heq.2⟩, fun _ => .inl, hbs⟩
  | false =>
    obtain ⟨rfl, hapart⟩ := addBinding_ok h fun b' hb' => by
      simpa using List.any_eq_false.1 hany b' hb'
    refine ⟨List.subset_append_left _ _, ⟨b, by simp, rfl, rfl⟩, ?_, ?_⟩
    · simp only [List.mem_append, List.mem_singleton]
      exact fun b' hb' => hb'.imp_right (congrArg _)
    · rw [List.map_append, List.nodup_append]
      refine ⟨hbs, List.nodup_singleton _, fun i hi j hj heq => ?_⟩
      obtain ⟨b', hb', rfl⟩ := List.mem_map.1 hi
      obtain rfl := List.mem_singleton.1 hj
      have hfree : b'.identifier.overlaps b.identifier = false := hapart b' hb'
      rw [heq, overlaps_self] at hfree
      cases hfree

/-- The registered bindings stem from occurrences and are among all bindings, of which each has a
parameter of its own. -/
structure Registered (P : BindingIdentifier → Prop) (p : Progress) : Prop where
  kind : ∀ b ∈ p.registered, ∃ o, b.kind = kindOf o
  identifier : ∀ b ∈ p.registered, P b.identifier
  bound : ∀ b ∈ p.registered, Binds p.bindings b.identifier b.kind
  nodup : (p.bindings.map (·.identifier)).Nodup

/-- The same bindings are registered. -/
theorem Registered.congr (h : Registered P p) (hregistered : p'.registered = p.registered)
    (hbindings : p'.bindings = p.bindings) : Registered P p' where
  kind := hregistered ▸ h.kind
  identifier := hregistered ▸ h.identifier
  bound := hregistered ▸ hbindings ▸ h.bound
  nodup := hbindings ▸ h.nodup

theorem registered_start (labels : Labels) : Registered P { labels } :=
  ⟨List.forall_mem_nil _, List.forall_mem_nil _, List.forall_mem_nil _, List.nodup_nil⟩

/-- What a step leads to that binds a parameter. -/
structure Leads (P : BindingIdentifier → Prop) (p p' : Progress) (target : BindingIdentifier)
    (kind : BindingKind) : Prop where
  registered : Registered P p'
  identifier : P target
  kept : p.bindings ⊆ p'.bindings
  binds : Binds p'.bindings target kind
  added : ∀ b ∈ p'.bindings, b ∈ p.bindings ∨ b.identifier = target
  text : p'.text = p.text
  unnumbered : p'.unnumbered = p.unnumbered

theorem leads_of_register {b : ParameterBinding} (h : p.register b = .ok p') (hp : Registered P p)
    (hkind : ∃ o, b.kind = kindOf o) (hidentifier : P b.identifier) :
    Leads P p p' b.identifier b.kind := by
  obtain ⟨bindings, hadd, hp'⟩ := result_bind_ok.1 h
  obtain ⟨hkept, hbinds, hadded, hnodup⟩ := adds_of_addBinding hadd hp.nodup
  rw [← Except.ok.inj hp']
  refine ⟨⟨?_, ?_, ?_, hnodup⟩, hidentifier, hkept, hbinds, hadded, rfl, rfl⟩
  · exact List.forall_mem_append.2 ⟨hp.kind, List.forall_mem_singleton.2 hkind⟩
  · exact List.forall_mem_append.2 ⟨hp.identifier, List.forall_mem_singleton.2 hidentifier⟩
  · exact List.forall_mem_append.2
      ⟨fun b hb => (hp.bound b hb).mono hkept, List.forall_mem_singleton.2 hbinds⟩

theorem Inherited.freshIdentifier (hP : Inherited P) (hargument : P argument) (p : Progress) :
    P (p.freshIdentifier argument).1 := by
  cases argument with
  | named name => exact hP.fresh name _ hargument
  | indexed | namedAndIndexed => exact hP.indexed _

theorem leads_of_assignArgument (hP : Inherited P)
    (h : p.assignArgument argument (kindOf o) = .ok (target, p')) (hp : Registered P p)
    (hargument : P argument) : Leads P p p' target (kindOf o) := by
  unfold Progress.assignArgument at h
  split at h
  next =>
    obtain ⟨q, hregister, hq⟩ := result_bind_ok.1 h
    obtain ⟨rfl, rfl⟩ := Prod.mk.inj (Except.ok.inj hq)
    exact leads_of_register hregister hp ⟨o, rfl⟩ hargument
  next =>
    dsimp only at h
    split at h
    next b hfind =>
      obtain ⟨rfl, rfl⟩ := Prod.mk.inj (Except.ok.inj h)
      have hb := List.mem_of_mem_filter (List.mem_of_find?_eq_some hfind)
      have hfound := List.find?_some hfind
      have hcompatible : b.kind.isCompatibleWith (kindOf o) = true :=
        (Bool.and_eq_true_iff.1 hfound).2
      obtain ⟨o', hkind⟩ := hp.kind b hb
      rw [hkind, isCompatibleWith_kindOf] at hcompatible
      have hsame : b.kind = kindOf o := hkind.trans (eq_of_beq hcompatible)
      exact ⟨hp, hp.identifier b hb, List.Subset.refl _, hsame ▸ hp.bound b hb, fun _ => .inl, rfl,
        rfl⟩
    next =>
      obtain ⟨q, hregister, hq⟩ := result_bind_ok.1 h
      obtain ⟨rfl, rfl⟩ := Prod.mk.inj (Except.ok.inj hq)
      have htarget := hP.freshIdentifier hargument p
      obtain ⟨labels, hfresh, -⟩ := freshIdentifier_eq p argument
      rw [hfresh] at hregister
      have hleads := leads_of_register hregister (hp.congr rfl rfl) ⟨o, rfl⟩ htarget
      exact ⟨hleads.registered, htarget, hleads.kept, hleads.binds, hleads.added, hleads.text,
        hleads.unnumbered⟩

theorem leads_of_assignExpression {expression : String}
    (h : p.assignExpression argument expression (kindOf o) = .ok (target, p'))
    (hp : Registered P p) (hargument : P argument) : Leads P p p' target (kindOf o) := by
  obtain ⟨bindings, hadd, hq⟩ := result_bind_ok.1 h
  obtain ⟨rfl, rfl⟩ := Prod.mk.inj (Except.ok.inj hq)
  obtain ⟨hkept, hbinds, hadded, hnodup⟩ := adds_of_addBinding hadd hp.nodup
  exact ⟨⟨hp.kind, hp.identifier, fun b hb => (hp.bound b hb).mono hkept, hnodup⟩, hargument, hkept,
    hbinds, hadded, rfl, rfl⟩

theorem leads_of_assign {s : Substituted} {key : Option String} (hP : Inherited P)
    (h : p.assign s argument key (kindOf o) = .ok (target, p')) (hp : Registered P p)
    (hargument : P argument) : Leads P p p' target (kindOf o) := by
  unfold Progress.assign at h
  split at h
  · exact leads_of_assignExpression h hp hargument
  · exact leads_of_assignArgument hP h hp hargument

theorem Segment.eq_text {segment : Segment} {cs : List Char} (h : segment.piece = .text cs) :
    segment = .text cs := by
  cases segment with
  | text => rw [Piece.text.inj h]
  | marker => cases h

theorem Segment.exists_marker {segment : Segment} {o : Occurrence}
    (h : segment.piece = .occurrence o) : ∃ x : Assigned, segment = .marker x ∧ x.occurrence = o := by
  cases segment with
  | text => cases h
  | marker x => exact ⟨x, rfl, Piece.occurrence.inj h⟩

/-- What some steps lead to that have met these segments. -/
structure Assigns (P : BindingIdentifier → Prop) (p p' : Progress) (segments : List Segment) :
    Prop where
  registered : Registered P p'
  identifier : ∀ x ∈ segments.filterMap Segment.assigned?, P x.target
  kept : p.bindings ⊆ p'.bindings
  binds : ∀ x ∈ segments.filterMap Segment.assigned?, Binds p'.bindings x.target x.kind
  added : ∀ b ∈ p'.bindings, b ∈ p.bindings ∨
    ∃ x ∈ segments.filterMap Segment.assigned?, b.identifier = x.target
  text : p'.text = p.text ++ segments.flatMap Segment.extracted
  unnumbered : p.unnumbered = true ∨
    (∃ x ∈ segments.filterMap Segment.assigned?, x.isUnnumbered = true) → p'.unnumbered = true

/-- A step puts the parameter of an occurrence in its place. -/
theorem step_assigns {s : Substituted} (hP : Inherited P)
    (h : step s p (.occurrence o) = .ok p') (hp : Registered P p)
    (hnamed : ∀ name, o.marker = .named name → P (.named name)) :
    ∃ x : Assigned, x.occurrence = o ∧ Assigns P p p' [.marker x] := by
  obtain ⟨argument, key, labels, unnumbered, identified, heq, hargument, hkept, hmarker⟩ :=
    argumentOf_eq p o.marker
  rw [step_occurrence_eq, heq] at h
  dsimp only at h
  split at h
  · cases h
  next hunmixed =>
    have hunnumbered := hmarker (Bool.eq_false_iff.2 hunmixed)
    have hargument : P argument := by
      obtain ⟨n, rfl⟩ | ⟨name, hname, rfl⟩ := hargument
      · exact hP.indexed n
      · exact hnamed name hname
    obtain ⟨⟨target, q⟩, hassign, hp'⟩ := result_bind_ok.1 h
    have hleads := leads_of_assign hP hassign (hp.congr rfl rfl) hargument
    have hsame : (q.write target).unnumbered = unnumbered := hleads.unnumbered
    rw [← Except.ok.inj hp']
    refine ⟨⟨o, argument, target⟩, rfl, ?_⟩
    constructor
    case registered => exact hleads.registered.congr rfl rfl
    case identifier => exact List.forall_mem_cons.2 ⟨hleads.identifier, List.forall_mem_nil _⟩
    case kept => exact hleads.kept
    case binds => exact List.forall_mem_cons.2 ⟨hleads.binds, List.forall_mem_nil _⟩
    case added =>
      exact fun b hb => (hleads.added b hb).imp_right fun heq => ⟨_, List.mem_singleton_self _, heq⟩
    case text =>
      simp [Progress.write, hleads.text, hleads.unnumbered, hunnumbered, Segment.extracted,
        Assigned.isUnnumbered]
    case unnumbered =>
      rw [hsame]
      rintro (hbefore | ⟨x, hx, hnow⟩)
      · exact hkept hbefore
      · obtain rfl := List.mem_singleton.1 hx
        exact hunnumbered.trans hnow

theorem Assigns.text_cons {segments : List Segment} {cs : List Char}
    (h : Assigns P { p with text := p.text ++ cs } p' segments) :
    Assigns P p p' (.text cs :: segments) where
  registered := h.registered
  identifier := h.identifier
  kept := h.kept
  binds := h.binds
  added := h.added
  text := by simp [h.text, Segment.extracted]
  unnumbered := h.unnumbered

theorem Assigns.trans {q : Progress} {segments segments' : List Segment}
    (h : Assigns P p q segments) (h' : Assigns P q p' segments') :
    Assigns P p p' (segments ++ segments') := by
  have hassigned : (segments ++ segments').filterMap Segment.assigned? =
      segments.filterMap Segment.assigned? ++ segments'.filterMap Segment.assigned? :=
    List.filterMap_append
  constructor
  case registered => exact h'.registered
  case identifier =>
    rw [hassigned]
    exact List.forall_mem_append.2 ⟨h.identifier, h'.identifier⟩
  case kept => exact List.Subset.trans h.kept h'.kept
  case binds =>
    rw [hassigned]
    exact List.forall_mem_append.2 ⟨fun x hx => (h.binds x hx).mono h'.kept, h'.binds⟩
  case added =>
    rw [hassigned]
    intro b hb
    rcases h'.added b hb with hb | ⟨x, hx, heq⟩
    · rcases h.added b hb with hb | ⟨x, hx, heq⟩
      · exact .inl hb
      · exact .inr ⟨x, List.mem_append_left _ hx, heq⟩
    · exact .inr ⟨x, List.mem_append_right _ hx, heq⟩
  case text => rw [h'.text, h.text, List.flatMap_append, List.append_assoc]
  case unnumbered =>
    rw [hassigned]
    rintro (hbefore | ⟨x, hx, hnow⟩)
    · exact h'.unnumbered (.inl (h.unnumbered (.inl hbefore)))
    · rcases List.mem_append.1 hx with hx | hx
      · exact h'.unnumbered (.inl (h.unnumbered (.inr ⟨x, hx, hnow⟩)))
      · exact h'.unnumbered (.inr ⟨x, hx, hnow⟩)

/-- All steps together put the parameters of all occurrences in their places. -/
theorem foldlM_step_assigns {s : Substituted} {pieces : List Piece} (hP : Inherited P)
    (h : pieces.foldlM (step s) p = .ok p') (hp : Registered P p)
    (hnamed : ∀ o name, .occurrence o ∈ pieces → o.marker = .named name → P (.named name)) :
    ∃ segments : List Segment, segments.map Segment.piece = pieces ∧ Assigns P p p' segments := by
  induction pieces generalizing p with
  | nil =>
    obtain rfl := Except.ok.inj h
    exact ⟨[], rfl, hp, by simp, List.Subset.refl _, by simp, fun _ => .inl, by simp, by simp⟩
  | cons piece pieces ih =>
    obtain ⟨q, hstep, hrest⟩ := result_bind_ok.1 h
    have hnamed' := fun o name ho => hnamed o name (List.mem_cons_of_mem _ ho)
    cases piece with
    | text cs =>
      obtain rfl := Except.ok.inj hstep
      obtain ⟨segments, hpieces, hassigns⟩ := ih hrest (hp.congr rfl rfl) hnamed'
      exact ⟨.text cs :: segments, congrArg _ hpieces, hassigns.text_cons⟩
    | occurrence o =>
      obtain ⟨x, rfl, hx⟩ := step_assigns hP hstep hp fun name => hnamed _ name List.mem_cons_self
      obtain ⟨segments, hpieces, hassigns⟩ := ih hrest hx.registered hnamed'
      exact ⟨.marker x :: segments, congrArg _ hpieces, hx.trans hassigns⟩

end Jpql.ExtractedQuery
