import Jpql.PropertyPath
import Mathlib

/-! Resolution step by step, and what it finds. A source that resolves falls into pieces, each of
which names an attribute of the type that the attributes before it lead to. -/

namespace Jpql.PropertyPath

/-- The pieces name the segments: the first is an attribute of the owner, and each next one an
attribute of the type that the one before it leads to. -/
inductive Spells (m : Metamodel) : String → List (List Char) → List PathSegment → Prop
  | nil {owner : String} : Spells m owner [] []
  | cons {owner : String} {piece : List Char} {pieces : List (List Char)} {a : Attribute}
      {segments : List PathSegment}
      (named : (m.managedType? owner).bind (·.attribute? (String.ofList (decapitalize piece))) =
        some a)
      (rest : Spells m (targetKey a) pieces segments) :
      Spells m owner (piece :: pieces) (⟨owner, a⟩ :: segments)

/-- The type that is reached along segments from an owner. -/
def reached (owner : String) (segments : List PathSegment) : String :=
  (segments.getLast?.map fun s => targetKey s.member).getD owner

theorem reached_cons (owner : String) (s : PathSegment) (segments : List PathSegment) :
    reached owner (s :: segments) = reached (targetKey s.member) segments := by
  cases segments with
  | nil => rfl
  | cons t segments => rw [reached, reached, List.getLast?_cons_cons]; rfl

theorem reached_append (owner : String) (segments segments' : List PathSegment) :
    reached owner (segments ++ segments') = reached (reached owner segments) segments' := by
  induction segments generalizing owner with
  | nil => rfl
  | cons s segments ih => rw [List.cons_append, reached_cons, reached_cons, ih]

variable {m : Metamodel} {owner : String} {depth : Nat} {source tail : List Char}
  {segments segments' : List PathSegment} {ps ps' : List (List Char)}

theorem Spells.append (h : Spells m owner ps segments)
    (h' : Spells m (reached owner segments) ps' segments') :
    Spells m owner (ps ++ ps') (segments ++ segments') := by
  induction h with
  | nil => exact h'
  | cons named _ ih =>
    rw [reached_cons] at h'
    exact .cons named (ih h')

/-! ### Resolution step by step -/

/-- A source as one attribute, with the tail behind it. -/
def direct (m : Metamodel) (owner : String) (depth : Nat) (source tail : List Char) :
    Except Failure (List PathSegment) :=
  match segment m owner depth source with
  | .error f => .error f
  | .ok s =>
    if tail.isEmpty || source.isEmpty then .ok [s]
    else (resolve m (targetKey s.member) (depth + 1) tail []).map (s :: ·)

/-- What a failure becomes once the source is cut. -/
def afterCut (m : Metamodel) (owner : String) (depth : Nat) (tail : List Char) (failure : Failure) :
    Option (List Char × List Char) → Except Failure (List PathSegment)
  | none => .error failure
  | some (front, word) =>
    if front.isEmpty then .error failure
    else
      match resolve m owner depth front (word ++ tail) with
      | .ok segments => .ok segments
      | .error other => .error (if failure.depth < other.depth then other else failure)

theorem resolve_eq (m : Metamodel) (owner : String) (depth : Nat) (source tail : List Char) :
    resolve m owner depth source tail =
      if maxDepth < depth then .error ⟨depth, .invalidQuery (.pathTooDeep maxDepth)⟩
      else
        match direct m owner depth source tail with
        | .ok segments => .ok segments
        | .error failure => afterCut m owner depth tail failure (splitLastWord? source) := by
  rw [resolve]
  split
  next => rfl
  next =>
    change (match direct m owner depth source tail with
      | Except.ok segments => Except.ok segments
      | Except.error failure => _) = _
    cases direct m owner depth source tail with
    | ok segments => rfl
    | error failure =>
      dsimp only
      split
      next hsplit =>
        rw [hsplit]
        rfl
      next front word hsplit =>
        rw [hsplit]
        rfl

theorem segment_ok {s : PathSegment} :
    segment m owner depth source = .ok s ↔ s.owner = owner ∧
      (m.managedType? owner).bind (·.attribute? (String.ofList (decapitalize source))) =
        some s.member := by
  obtain ⟨owner', a⟩ := s
  unfold segment
  extract_lets name
  split
  next a' ha' => simp [name, ha', eq_comm]
  next hnone => simp [name, hnone]

theorem direct_ok (hsource : source ≠ []) :
    direct m owner depth source tail = .ok segments ↔
      ∃ a rest, (m.managedType? owner).bind (·.attribute? (String.ofList (decapitalize source))) =
          some a ∧ segments = ⟨owner, a⟩ :: rest ∧
        (tail = [] ∧ rest = [] ∨
          tail ≠ [] ∧ resolve m (targetKey a) (depth + 1) tail [] = .ok rest) := by
  have hnonempty : source.isEmpty = false := by simpa using hsource
  unfold direct
  cases hsegment : segment m owner depth source with
  | error f =>
    have hnone (s : PathSegment) : segment m owner depth source ≠ .ok s := by simp [hsegment]
    constructor
    · rintro ⟨⟩
    · rintro ⟨a, rest, ha, -⟩
      exact (hnone ⟨owner, a⟩ (segment_ok.2 ⟨rfl, ha⟩)).elim
  | ok s =>
    obtain ⟨owner', a⟩ := s
    obtain ⟨rfl, ha⟩ := segment_ok.1 hsegment
    simp only at ha
    rw [ha]
    dsimp only
    by_cases htail : tail = []
    · subst htail
      constructor
      · rintro ⟨⟩
        exact ⟨a, [], rfl, rfl, .inl ⟨rfl, rfl⟩⟩
      · rintro ⟨_, _, ⟨⟩, rfl, ⟨-, rfl⟩ | ⟨hne, -⟩⟩
        · rfl
        · exact absurd rfl hne
    · rw [if_neg (by simp [htail, hnonempty])]
      cases hrest : resolve m (targetKey a) (depth + 1) tail [] with
      | error f => simp [htail, hrest, Except.map]
      | ok rest =>
        constructor
        · rintro ⟨⟩
          exact ⟨a, rest, rfl, rfl, .inr ⟨htail, hrest⟩⟩
        · rintro ⟨_, _, ⟨⟩, rfl, ⟨hempty, -⟩ | ⟨-, hrest'⟩⟩
          · exact absurd hempty htail
          · obtain ⟨⟩ := hrest.symm.trans hrest'
            rfl

theorem resolve_of_direct (hdepth : depth ≤ maxDepth)
    (h : direct m owner depth source tail = .ok segments) :
    resolve m owner depth source tail = .ok segments := by
  rw [resolve_eq, if_neg (Nat.not_lt.2 hdepth), h]

/-- A source that resolves starts with the name of an attribute, and what is behind it resolves from
there. -/
theorem exists_of_resolve (hsource : source ≠ [])
    (h : resolve m owner depth source tail = .ok segments) :
    depth ≤ maxDepth ∧ ∃ piece behind a rest, piece ≠ [] ∧ piece ++ behind = source ++ tail ∧
      (m.managedType? owner).bind (·.attribute? (String.ofList (decapitalize piece))) = some a ∧
      segments = ⟨owner, a⟩ :: rest ∧
      (behind = [] ∧ rest = [] ∨
        behind ≠ [] ∧ resolve m (targetKey a) (depth + 1) behind [] = .ok rest) := by
  induction hlength : source.length using Nat.strong_induction_on generalizing source tail with
  | _ n ih =>
    rw [resolve_eq] at h
    split at h
    next => cases h
    next hdepth =>
      cases hdirect : direct m owner depth source tail with
      | ok found =>
        rw [hdirect] at h
        cases h
        obtain ⟨a, rest, ha⟩ := (direct_ok hsource).1 hdirect
        exact ⟨Nat.not_lt.1 hdepth, source, tail, a, rest, hsource, rfl, ha⟩
      | error failure =>
        rw [hdirect] at h
        dsimp only at h
        cases hsplit : splitLastWord? source with
        | none =>
          rw [hsplit] at h
          cases h
        | some split =>
          obtain ⟨front, word⟩ := split
          rw [hsplit, afterCut] at h
          split at h
          next => cases h
          next hfront =>
            split at h
            next found hfound =>
              cases h
              obtain ⟨happend, -⟩ := append_of_splitLastWord? hsplit
              have hrest := ih _ (hlength ▸ (length_lt_of_splitLastWord? hsplit).1)
                (by simpa using hfront) hfound rfl
              rwa [← List.append_assoc, happend] at hrest
            next => cases h

theorem resolve_ne_nil (hsource : source ≠ [])
    (h : resolve m owner depth source tail = .ok segments) : segments ≠ [] := by
  obtain ⟨-, _, _, a, rest, -, -, -, rfl, -⟩ := exists_of_resolve hsource h
  exact List.cons_ne_nil _ _

/-- A source that resolves consists of the pieces that name the segments found. -/
theorem spells_of_resolve (hsource : source ≠ [])
    (h : resolve m owner depth source tail = .ok segments) :
    ∃ ps, Spells m owner ps segments ∧ ps.flatten = source ++ tail ∧ (∀ piece ∈ ps, piece ≠ []) ∧
      depth + segments.length ≤ maxDepth + 1 := by
  induction hlength : (source ++ tail).length using Nat.strong_induction_on
    generalizing owner depth source tail segments with
  | _ n ih =>
    obtain ⟨hdepth, piece, behind, a, rest, hpiece, happend, ha, rfl, hbehind⟩ :=
      exists_of_resolve hsource h
    rcases hbehind with ⟨rfl, rfl⟩ | ⟨hne, hbehind⟩
    · exact ⟨[piece], .cons ha .nil, by simpa using happend, by simpa using hpiece,
        Nat.succ_le_succ hdepth⟩
    · have hshorter : (behind ++ []).length < n := by
        have hpos := List.length_pos_of_ne_nil hpiece
        rw [← hlength, ← happend, List.append_nil, List.length_append]
        omega
      obtain ⟨ps, hspells, hflatten, hps, hbound⟩ := ih _ hshorter hne hbehind rfl
      refine ⟨piece :: ps, .cons ha hspells, ?_, List.forall_mem_cons.2 ⟨hpiece, hps⟩, ?_⟩
      · rw [List.flatten_cons, hflatten, List.append_nil, happend]
      · rw [List.length_cons]
        omega

/-! ### Pieces -/

theorem pieces_uncut (hne : source ≠ []) (h : ∀ c ∈ source, c ≠ '_' ∧ c ≠ '.') :
    pieces source = [source] := by
  induction source with
  | nil => exact absurd rfl hne
  | cons c source ih =>
    obtain ⟨hc, hsource⟩ := List.forall_mem_cons.1 h
    rw [pieces, if_neg (by simp [hc])]
    cases source with
    | nil => rfl
    | cons d source => rw [ih (by simp) hsource]

/-- The first piece of a source takes up what stands in front without a cut. -/
theorem pieces_append {front : List Char} (hne : front ≠ []) (h : ∀ c ∈ front, c ≠ '_' ∧ c ≠ '.')
    (source : List Char) :
    pieces (front ++ source) = (front ++ (pieces source).headD []) :: (pieces source).tail := by
  induction front with
  | nil => exact absurd rfl hne
  | cons c front ih =>
    obtain ⟨hc, hfront⟩ := List.forall_mem_cons.1 h
    rw [List.cons_append, pieces, if_neg (by simp [hc])]
    cases front with
    | nil =>
      rw [List.nil_append]
      cases pieces source <;> rfl
    | cons d front =>
      rw [ih (by simp) hfront]
      rfl

/-- No piece is cut again. -/
theorem uncut_of_mem_pieces {piece : List Char} (h : piece ∈ pieces source) :
    ∀ c ∈ piece, c ≠ '_' ∧ c ≠ '.' := by
  induction source generalizing piece with
  | nil => cases h
  | cons c source ih =>
    rw [pieces] at h
    split at h
    next =>
      rcases List.mem_cons.1 h with rfl | h
      · simp
      · exact ih h
    next hc =>
      simp only [Bool.or_eq_true, beq_iff_eq, not_or] at hc
      split at h
      next =>
        rw [List.mem_singleton] at h
        simpa [h] using hc
      next first rest hpieces =>
        rw [hpieces] at ih
        rcases List.mem_cons.1 h with rfl | h
        · exact List.forall_mem_cons.2 ⟨hc, ih (List.mem_cons_self ..)⟩
        · exact ih (List.mem_cons_of_mem _ h)

theorem resolvePieces_cons_ok {resolved : List PathSegment} {piece : List Char} :
    resolvePieces m owner resolved (piece :: ps) = .ok segments ↔
      ∃ found, resolve m (reached owner resolved) resolved.length piece [] = .ok found ∧
        resolvePieces m owner (resolved ++ found) ps = .ok segments := by
  simp only [resolvePieces, reached]
  split
  next found hfound => simp [hfound]
  next failure hfailure => simp [hfailure]

/-- Pieces that resolve are cut further into those that name the segments found. -/
theorem spells_of_resolvePieces {resolved : List PathSegment} (hps : ∀ piece ∈ ps, piece ≠ [])
    (hresolved : resolved.length ≤ maxDepth + 1)
    (h : resolvePieces m owner resolved ps = .ok segments) :
    ∃ ps' segments', segments = resolved ++ segments' ∧
      Spells m (reached owner resolved) ps' segments' ∧ ps'.flatten = ps.flatten ∧
      (∀ piece ∈ ps', piece ≠ []) ∧ segments.length ≤ maxDepth + 1 := by
  induction ps generalizing resolved with
  | nil =>
    cases h
    exact ⟨[], [], (List.append_nil _).symm, .nil, rfl, by simp, hresolved⟩
  | cons piece ps ih =>
    obtain ⟨hpiece, hps⟩ := List.forall_mem_cons.1 hps
    obtain ⟨found, hfound, hrest⟩ := resolvePieces_cons_ok.1 h
    obtain ⟨qs, hspells, hflatten, hqs, hbound⟩ := spells_of_resolve hpiece hfound
    obtain ⟨ps', segments', rfl, hspells', hflatten', hps', hlength⟩ :=
      ih hps (by rwa [List.length_append]) hrest
    rw [reached_append] at hspells'
    refine ⟨qs ++ ps', found ++ segments', List.append_assoc .., hspells.append hspells', ?_, ?_,
      hlength⟩
    · rw [List.flatten_append, hflatten, hflatten', List.append_nil, List.flatten_cons]
    · exact List.forall_mem_append.2 ⟨hqs, hps'⟩

/-! ### Whole sources -/

theorem ofSource_ok {owner : ManagedType} {source : String} {p : PropertyPath} :
    ofSource m owner source = .ok p ↔
      resolvePieces m owner.name [] ((pieces source.toList).filter (!·.isEmpty)) =
        .ok p.segments := by
  unfold ofSource
  cases resolvePieces m owner.name [] ((pieces source.toList).filter (!·.isEmpty)) with
  | error e => simp [bind, Except.bind]
  | ok segments =>
    obtain ⟨segments', hne⟩ := p
    by_cases h : segments = []
    · subst h
      simp [bind, Except.bind, ofSegments?, hne.symm]
    · simp [bind, Except.bind, ofSegments?, h]

/-- A path found from a source is spelled by pieces of it that are not cut again. -/
theorem spells_of_ofSource {owner : ManagedType} {source : String} {p : PropertyPath}
    (h : ofSource m owner source = .ok p) :
    ∃ ps, Spells m owner.name ps p.segments ∧
      (∀ piece ∈ ps, piece ≠ [] ∧ ∀ c ∈ piece, c ≠ '_' ∧ c ≠ '.') ∧
      p.segments.length ≤ maxDepth + 1 := by
  have hnonempty : ∀ piece ∈ (pieces source.toList).filter (!·.isEmpty), piece ≠ [] := by
    intro piece hpiece
    simpa using (List.mem_filter.1 hpiece).2
  obtain ⟨ps, segments, hsegments, hspells, hflatten, hps, hlength⟩ :=
    spells_of_resolvePieces hnonempty (Nat.zero_le _) (ofSource_ok.1 h)
  rw [List.nil_append] at hsegments
  subst hsegments
  refine ⟨ps, hspells, fun piece hpiece => ⟨hps piece hpiece, fun c hc => ?_⟩, hlength⟩
  have hmem : c ∈ ps.flatten := List.mem_flatten.2 ⟨piece, hpiece, hc⟩
  rw [hflatten] at hmem
  obtain ⟨whole, hwhole, hc⟩ := List.mem_flatten.1 hmem
  exact uncut_of_mem_pieces (List.mem_filter.1 hwhole).1 c hc

/-- A source without cuts is resolved in one piece. -/
theorem ofSource_uncut_ok {owner : ManagedType} {source : String} {p : PropertyPath}
    (hne : source.toList ≠ []) (huncut : ∀ c ∈ source.toList, c ≠ '_' ∧ c ≠ '.') :
    ofSource m owner source = .ok p ↔
      resolve m owner.name 0 source.toList [] = .ok p.segments := by
  have hpieces : (pieces source.toList).filter (!·.isEmpty) = [source.toList] := by
    simp [pieces_uncut hne huncut, hne]
  rw [ofSource_ok, hpieces, resolvePieces_cons_ok]
  constructor
  · rintro ⟨found, hfound, ⟨⟩⟩
    exact hfound
  · exact fun h => ⟨_, h, rfl⟩

/-- A source without cuts that spells an attribute names that attribute. -/
theorem ofSource_attribute {owner : ManagedType} {a : Attribute}
    (hknown : m.managedType? owner.name = some owner) (hfound : owner.attribute? a.name = some a)
    {source : String} (hne : source.toList ≠ []) (huncut : ∀ c ∈ source.toList, c ≠ '_' ∧ c ≠ '.')
    (hname : decapitalize source.toList = a.name.toList) :
    ofSource m owner source = .ok ⟨[⟨owner.name, a⟩], by simp⟩ := by
  rw [ofSource_uncut_ok hne huncut]
  refine resolve_of_direct (Nat.zero_le _) ((direct_ok hne).2 ⟨a, [], ?_, rfl, .inl ⟨rfl, rfl⟩⟩)
  simp [hname, hknown, hfound]

/-! ### Attributes of the metamodel -/

/-- The segment is an attribute of a managed type and has a name. -/
def IsAttribute (m : Metamodel) (s : PathSegment) : Prop :=
  s.name ≠ "" ∧ ∃ t ∈ m.types, s.member ∈ t.attributes

theorem lowerOf_ne_nil (c : Char) : Text.lowerOf c ≠ [] := by
  unfold Text.lowerOf Text.mapCase
  split
  · simp
  · split
    next codes h =>
      simp only [Text.lowerSpecial, List.lookup] at h
      split at h <;> cases h
      simp
    next => split <;> simp

theorem decapitalize_ne_nil {source : List Char} (h : source ≠ []) : decapitalize source ≠ [] := by
  rcases source with _ | ⟨c, _ | ⟨d, cs⟩⟩
  · exact absurd rfl h
  · exact lowerOf_ne_nil c
  · rw [decapitalize]
    split <;> simp

/-- The name of an attribute that a piece names. -/
theorem name_of_named {piece : List Char} {a : Attribute}
    (h : (m.managedType? owner).bind (·.attribute? (String.ofList (decapitalize piece))) = some a) :
    a.name = String.ofList (decapitalize piece) := by
  obtain ⟨t, -, ha⟩ := Option.bind_eq_some_iff.1 h
  simpa using List.find?_some ha

theorem Spells.isAttribute (h : Spells m owner ps segments) (hps : ∀ piece ∈ ps, piece ≠ []) :
    ∀ s ∈ segments, IsAttribute m s := by
  induction h with
  | nil => simp
  | cons named _ ih =>
    obtain ⟨hpiece, hps⟩ := List.forall_mem_cons.1 hps
    refine List.forall_mem_cons.2 ⟨⟨?_, ?_⟩, ih hps⟩
    · rw [PathSegment.name, name_of_named named]
      intro hempty
      exact decapitalize_ne_nil hpiece (by simpa using congrArg String.toList hempty)
    · obtain ⟨t, ht, ha⟩ := Option.bind_eq_some_iff.1 named
      exact ⟨t, List.mem_of_find?_eq_some ht, List.mem_of_find?_eq_some ha⟩

/-- A path found from a source consists of attributes of the metamodel. -/
theorem ofSource_isAttribute {owner : ManagedType} {source : String} {p : PropertyPath}
    (h : ofSource m owner source = .ok p) : ∀ s ∈ p.segments, IsAttribute m s := by
  obtain ⟨ps, hspells, hps, -⟩ := spells_of_ofSource h
  exact hspells.isAttribute fun piece hpiece => (hps piece hpiece).1

end Jpql.PropertyPath
