import Jpql.Proofs.PropertyPath.Cuts
import Jpql.Proofs.Text.LowerCase

/-! Names that spell themselves. The name of an attribute resolves to that attribute just if it is
not cut and starts as a resolved name does. Every path found from a source consists of such
attributes, so that the names of its segments, with points between them, resolve to it again. -/

namespace Jpql.PropertyPath

/-- What is in lower case in front is left as it is. -/
theorem decapitalize_settled {c : Char} (h : Text.lowerOf c = [c]) (cs : List Char) :
    decapitalize (c :: cs) = c :: cs := by
  cases cs with
  | nil => exact h
  | cons d cs =>
    rw [decapitalize, h]
    split <;> rfl

theorem exists_lowerOf (c : Char) : ∃ d ds, Text.lowerOf c = d :: ds ∧ Text.lowerOf d = [d] := by
  rcases Text.lowerOf_cases c with h | ⟨d, h, hd, -⟩ | h
  · exact ⟨c, [], h, h⟩
  · exact ⟨d, [], h, hd⟩
  · exact ⟨'i', _, h, by decide⟩

/-- What lower case changes is no separator, before or after. -/
theorem uncut_of_lowerOf {c : Char} (h : Text.lowerOf c ≠ [c]) :
    (c ≠ '_' ∧ c ≠ '.') ∧ ∀ d ∈ Text.lowerOf c, d ≠ '_' ∧ d ≠ '.' := by
  refine ⟨⟨?_, ?_⟩, fun d hd => ?_⟩
  · rintro rfl
    exact h (by decide)
  · rintro rfl
    exact h (by decide)
  · have hbehind := Text.lt_of_mem_lowerOf h d hd
    constructor <;> rintro rfl <;> exact absurd hbehind (by decide)

theorem decapitalize_decapitalize (source : List Char) :
    decapitalize (decapitalize source) = decapitalize source := by
  have hlower (c : Char) (cs : List Char) :
      decapitalize (Text.lowerOf c ++ cs) = Text.lowerOf c ++ cs := by
    obtain ⟨d, ds, hd, hsettled⟩ := exists_lowerOf c
    rw [hd]
    exact decapitalize_settled hsettled _
  rcases source with _ | ⟨c, _ | ⟨d, cs⟩⟩
  · rfl
  · change decapitalize (Text.lowerOf c) = Text.lowerOf c
    simpa using hlower c []
  · rw [decapitalize]
    split
    next hupper => rw [decapitalize, if_pos hupper]
    next => exact hlower c _

theorem uncut_decapitalize {source : List Char} (h : ∀ c ∈ source, c ≠ '_' ∧ c ≠ '.') :
    ∀ c ∈ decapitalize source, c ≠ '_' ∧ c ≠ '.' := by
  have hlower (c : Char) (hc : c ≠ '_' ∧ c ≠ '.') : ∀ d ∈ Text.lowerOf c, d ≠ '_' ∧ d ≠ '.' := by
    by_cases hsame : Text.lowerOf c = [c]
    · simpa [hsame] using hc
    · exact (uncut_of_lowerOf hsame).2
  rcases source with _ | ⟨c, _ | ⟨d, cs⟩⟩
  · exact h
  · exact hlower c (h c (by simp))
  · obtain ⟨hc, hcs⟩ := List.forall_mem_cons.1 h
    rw [decapitalize]
    split
    next => exact h
    next => exact List.forall_mem_append.2 ⟨hlower c hc, hcs⟩

/-! ### Names that spell themselves -/

/-- The name is not cut, and its first letter is left as it is. -/
def SpellsItself (name : String) : Prop :=
  name ≠ "" ∧ (∀ c ∈ name.toList, c ≠ '_' ∧ c ≠ '.') ∧ decapitalize name.toList = name.toList

theorem SpellsItself.toList_ne_nil {name : String} (h : SpellsItself name) : name.toList ≠ [] :=
  fun hnil => h.1 (String.toList_eq_nil_iff.1 hnil)

variable {m : Metamodel} {ps : List (List Char)} {segments : List PathSegment}

/-- The names of segments that are spelled by pieces spell them, too. -/
theorem Spells.names {owner : String} (h : Spells m owner ps segments)
    (hps : ∀ piece ∈ ps, piece ≠ [] ∧ ∀ c ∈ piece, c ≠ '_' ∧ c ≠ '.') :
    Spells m owner (segments.map (·.name.toList)) segments ∧
      ∀ s ∈ segments, SpellsItself s.name := by
  induction h with
  | nil => exact ⟨.nil, by simp⟩
  | @cons owner piece pieces a segments named _ ih =>
    obtain ⟨⟨hne, huncut⟩, hpieces⟩ := List.forall_mem_cons.1 hps
    obtain ⟨hspells, hnames⟩ := ih hpieces
    have hname : a.name.toList = decapitalize piece := by
      rw [name_of_named named, String.toList_ofList]
    have hself : SpellsItself a.name := by
      refine ⟨fun hempty => ?_, ?_, ?_⟩
      · rw [hempty] at hname
        exact decapitalize_ne_nil hne hname.symm
      · rw [hname]
        exact uncut_decapitalize huncut
      · rw [hname, decapitalize_decapitalize]
    have hagain : (m.managedType? owner).bind
        (·.attribute? (String.ofList (decapitalize a.name.toList))) = some a := by
      rw [hname, decapitalize_decapitalize, named]
    exact ⟨.cons hagain hspells, List.forall_mem_cons.2 ⟨hself, hnames⟩⟩

/-- Names between points are the pieces of a source. -/
theorem pieces_intercalate {names : List String} (h : ∀ name ∈ names, SpellsItself name) :
    pieces (".".intercalate names).toList = names.map String.toList := by
  induction names with
  | nil => rfl
  | cons name names ih =>
    obtain ⟨hname, hnames⟩ := List.forall_mem_cons.1 h
    cases names with
    | nil => simpa using pieces_uncut hname.toList_ne_nil hname.2.1
    | cons next names =>
      have hpoint (rest : String) : pieces ("." ++ rest).toList = [] :: pieces rest.toList := by
        rw [String.toList_append]
        rfl
      rw [String.intercalate_cons_cons, String.append_assoc, String.toList_append,
        pieces_append hname.toList_ne_nil hname.2.1, hpoint, ih hnames]
      simp

/-- Names that spell segments resolve to them one by one. -/
theorem resolvePieces_names {owner : String} {resolved : List PathSegment}
    (h : Spells m (reached owner resolved) ps segments) (hps : ∀ piece ∈ ps, piece ≠ [])
    (hlength : resolved.length + segments.length ≤ maxDepth + 1) :
    resolvePieces m owner resolved ps = .ok (resolved ++ segments) := by
  induction ps generalizing resolved segments with
  | nil =>
    cases h
    rw [resolvePieces, List.append_nil]
  | cons piece ps ih =>
    obtain ⟨hpiece, hps⟩ := List.forall_mem_cons.1 hps
    cases h with
    | @cons _ _ _ a segments named rest =>
      rw [List.length_cons] at hlength
      have hfound : resolve m (reached owner resolved) resolved.length piece [] =
          .ok [⟨reached owner resolved, a⟩] :=
        resolve_of_direct (by omega)
          ((direct_ok hpiece).2 ⟨a, [], named, rfl, .inl ⟨rfl, rfl⟩⟩)
      rw [resolvePieces_cons_ok]
      refine ⟨_, hfound, ?_⟩
      rw [ih ?_ hps ?_, List.append_assoc, List.singleton_append]
      · rwa [reached_append, reached_cons]
      · rw [List.length_append, List.length_singleton]
        omega

/-- A path that is found is found again by its names. -/
theorem ofSource_toDotPath {owner : ManagedType} {source : String} {p : PropertyPath}
    (h : ofSource m owner source = .ok p) : ofSource m owner p.toDotPath = .ok p := by
  obtain ⟨ps, hspells, hps, hlength⟩ := spells_of_ofSource h
  obtain ⟨hnames, hself⟩ := hspells.names hps
  have hself' : ∀ name ∈ p.segments.map PathSegment.name, SpellsItself name :=
    List.forall_mem_map.2 hself
  have hne : ∀ piece ∈ p.segments.map (·.name.toList), piece ≠ [] :=
    List.forall_mem_map.2 fun s hs => (hself s hs).toList_ne_nil
  have hpieces : (pieces p.toDotPath.toList).filter (!·.isEmpty) =
      p.segments.map (·.name.toList) := by
    rw [toDotPath, pieces_intercalate hself', List.map_map]
    exact List.filter_eq_self.2 fun piece hpiece => by simpa using hne piece hpiece
  rw [ofSource_ok, hpieces, resolvePieces_names hnames hne (by simpa using hlength),
    List.nil_append]

/-- A path that was cut before a capital and at a separator is found again by its names. -/
theorem ofSource_toDotPath_of_city :
    ∃ p, ofSource staff employee "Manager_AddressCity" = .ok p ∧
      p.toDotPath = "manager.address.city" ∧
      ofSource staff employee "manager.address.city" = .ok p := by
  have hp : ofSource staff employee "Manager_AddressCity" =
      .ok ⟨[⟨"app.Employee", .toType .manyToOne "manager" "app.Employee"⟩,
        ⟨"app.Employee", .toType .embedded "address" "app.Address"⟩,
        ⟨"app.Address", .basic "city" .string⟩], List.cons_ne_nil _ _⟩ := by cbv
  exact ⟨_, hp, by cbv, ofSource_toDotPath hp⟩

/-! ### Names of attributes -/

theorem attribute?_name {t : ManagedType} {a : Attribute}
    (hdistinct : (t.attributes.map (·.name)).Nodup) (ha : a ∈ t.attributes) :
    t.attribute? a.name = some a := by
  unfold ManagedType.attribute?
  obtain ⟨b, hb⟩ : ∃ b, t.attributes.find? (·.name == a.name) = some b :=
    Option.isSome_iff_exists.1 (List.find?_isSome.2 ⟨a, ha, by simp⟩)
  have hname : b.name = a.name := by simpa using List.find?_some hb
  rw [hb, List.inj_on_of_nodup_map hdistinct (List.mem_of_find?_eq_some hb) ha hname]

/-- The name of an attribute leads to that attribute just if it spells itself. -/
theorem ofSource_name_iff {owner : ManagedType} {a : Attribute}
    (hknown : m.managedType? owner.name = some owner)
    (hdistinct : (owner.attributes.map (·.name)).Nodup) (ha : a ∈ owner.attributes) :
    ofSource m owner a.name = .ok ⟨[⟨owner.name, a⟩], List.cons_ne_nil _ _⟩ ↔
      SpellsItself a.name := by
  constructor
  · intro h
    obtain ⟨ps, hspells, hps, -⟩ := spells_of_ofSource h
    exact (hspells.names hps).2 _ (List.mem_cons_self ..)
  · intro h
    exact ofSource_attribute hknown (attribute?_name hdistinct ha) h.toList_ne_nil h.2.1 h.2.2

end Jpql.PropertyPath
