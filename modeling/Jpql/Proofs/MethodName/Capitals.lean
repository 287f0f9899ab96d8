import Jpql.Proofs.MethodName.Conditions
import Jpql.Proofs.PropertyPath.Names
import Jpql.Proofs.Text.Search

/-! Conditions and sorts that spell a property alike. A sort resolves a property as it is spelled, a
condition only once its first letter is in lower case. Both find the same path or none, unless the
property is spelled with two capitals in front, as acronyms are: a sort keeps these, and a condition
does not. -/

namespace Jpql

namespace PropertyPath

open MethodName.Operator (uncapitalize)

/-- Two capitals in front, of which the first becomes another character in lower case. -/
def isAcronym : List Char → Bool
  | c :: d :: _ => Text.isUpper c && Text.isUpper d && Text.lowerOf c != [c]
  | _ => false

theorem decapitalize_eq {source : List Char} (h : isAcronym source = false) :
    decapitalize source = uncapitalize source := by
  rcases source with _ | ⟨c, _ | ⟨d, cs⟩⟩
  · rfl
  · exact (List.append_nil _).symm
  · rw [decapitalize, uncapitalize]
    split
    next hupper =>
      have hsame : Text.lowerOf c = [c] := by simpa [isAcronym, hupper] using h
      rw [hsame, List.singleton_append]
    next => rfl

theorem decapitalize_uncapitalize (source : List Char) :
    decapitalize (uncapitalize source) = uncapitalize source := by
  cases source with
  | nil => rfl
  | cons c cs =>
    obtain ⟨d, ds, hlower, hd⟩ := exists_lowerOf c
    rw [uncapitalize, hlower]
    exact decapitalize_settled hd _

/-! ### Cuts before a word -/

/-- A word is cut off a text alike whatever stands in front, unless all of the text belongs to it. -/
theorem splitLastWord?_append (front text : List Char) :
    splitLastWord? (front ++ text) =
      if text.all isWordTail then (splitLastWord? front).map fun (f, w) => (f, w ++ text)
      else (splitLastWord? text).map fun (f, w) => (front ++ f, w) := by
  unfold splitLastWord?
  rw [List.reverse_append, List.dropWhile_append, List.takeWhile_append]
  by_cases hall : text.all isWordTail = true
  · have hdrop : text.reverse.dropWhile isWordTail = [] := by
      rw [List.dropWhile_eq_nil_iff, ← List.all_eq_true, List.all_reverse, hall]
    have htake : text.reverse.takeWhile isWordTail = text.reverse := by
      rw [List.takeWhile_eq_self_iff, ← List.all_eq_true, List.all_reverse, hall]
    rw [hdrop, htake, if_pos List.isEmpty_nil, if_pos rfl, if_pos hall]
    cases front.reverse.dropWhile isWordTail with
    | nil => rfl
    | cons c rest => split <;> simp
  · have htake : (text.reverse.takeWhile isWordTail).length ≠ text.reverse.length := by
      intro hlength
      have hself := (List.takeWhile_prefix isWordTail).eq_of_length hlength
      rw [List.takeWhile_eq_self_iff, ← List.all_eq_true, List.all_reverse] at hself
      exact hall hself
    rw [if_neg htake, if_neg hall]
    cases hdrop : text.reverse.dropWhile isWordTail with
    | nil =>
      rw [List.dropWhile_eq_nil_iff, ← List.all_eq_true, List.all_reverse] at hdrop
      exact absurd hdrop hall
    | cons c rest =>
      simp only [List.isEmpty_cons, Bool.false_eq_true, if_false, List.cons_append]
      split <;> simp

/-! ### Resolution step by step -/

theorem direct_uncapitalize {m : Metamodel} {owner : String} {depth : Nat} {source tail : List Char}
    (h : isAcronym source = false) :
    direct m owner depth (uncapitalize source) tail = direct m owner depth source tail := by
  have hempty : (uncapitalize source).isEmpty = source.isEmpty := by
    cases source with
    | nil => rfl
    | cons c cs => simp [uncapitalize, lowerOf_ne_nil]
  have hsegment : segment m owner depth (uncapitalize source) = segment m owner depth source := by
    simp only [segment, decapitalize_uncapitalize, decapitalize_eq h]
  rw [direct, hsegment, hempty, direct]

/-- Nothing is left in front of a cut before the first letter, be it in lower case or not. -/
theorem afterCut_front {m : Metamodel} {owner : String} {depth : Nat} {tail : List Char}
    {failure : Failure} {c : Char} {front : List Char} (h : front = [c] ∨ front = Text.lowerOf c)
    (text : List Char) :
    afterCut m owner depth tail failure ((splitLastWord? front).map fun (f, w) => (f, w ++ text)) =
      .error failure := by
  have hsingle (d : Char) : splitLastWord? [d] = none ∨ ∃ w, splitLastWord? [d] = some ([], w) := by
    unfold splitLastWord?
    cases htail : isWordTail d <;> cases hupper : Text.isUpper d <;> simp [htail, hupper]
  have hfront : splitLastWord? front = none ∨ ∃ w, splitLastWord? front = some ([], w) := by
    rcases h with rfl | rfl
    · exact hsingle c
    · rcases Text.lowerOf_cases c with h | ⟨d, h, -⟩ | h <;> rw [h]
      · exact hsingle c
      · exact hsingle d
      · exact .inl (by decide +kernel)
  rcases hfront with h | ⟨w, h⟩ <;> rw [h] <;> rfl

theorem isAcronym_of_append {c : Char} {front word cs : List Char} (happend : front ++ word = cs)
    (h : isAcronym (c :: cs) = false) : isAcronym (c :: front) = false := by
  subst happend
  cases front with
  | nil => rfl
  | cons d front => exact h

/-- A source resolves alike whether or not its first letter is in lower case. -/
theorem resolve_uncapitalize {m : Metamodel} {owner : String} {depth : Nat} {source tail : List Char}
    (h : isAcronym source = false) :
    resolve m owner depth (uncapitalize source) tail = resolve m owner depth source tail := by
  induction hlength : source.length using Nat.strong_induction_on generalizing source tail with
  | _ n ih =>
    rcases source with _ | ⟨c, cs⟩
    · rfl
    rw [resolve_eq, resolve_eq m owner depth (c :: cs), direct_uncapitalize h]
    split
    next => rfl
    next =>
      cases direct m owner depth (c :: cs) tail with
      | ok segments => rfl
      | error failure =>
        change afterCut m owner depth tail failure (splitLastWord? (Text.lowerOf c ++ cs)) =
          afterCut m owner depth tail failure (splitLastWord? ([c] ++ cs))
        rw [splitLastWord?_append, splitLastWord?_append]
        by_cases hall : cs.all isWordTail = true
        · rw [if_pos hall, if_pos hall, afterCut_front (.inl rfl), afterCut_front (.inr rfl)]
        · rw [if_neg hall, if_neg hall]
          cases hsplit : splitLastWord? cs with
          | none => rfl
          | some split =>
            obtain ⟨front, word⟩ := split
            have happend := (append_of_splitLastWord? hsplit).1
            have hshorter : (c :: front).length < n := by
              rw [← hlength]
              exact Nat.succ_lt_succ (length_lt_of_splitLastWord? hsplit).1
            have hrest := @ih _ hshorter (c :: front) (word ++ tail) (isAcronym_of_append happend h) rfl
            have hempty : (Text.lowerOf c ++ front).isEmpty = false := by
              simp [lowerOf_ne_nil]
            simp only [Option.map_some, afterCut, hempty]
            rw [uncapitalize] at hrest
            rw [hrest]
            rfl

theorem prefix_of_resolvePieces {m : Metamodel} {owner : String} {resolved segments : List PathSegment}
    {ps : List (List Char)} (h : resolvePieces m owner resolved ps = .ok segments) :
    resolved <+: segments := by
  induction ps generalizing resolved with
  | nil =>
    cases h
    exact List.prefix_rfl
  | cons piece ps ih =>
    simp only [resolvePieces] at h
    split at h
    next => exact (List.prefix_append _ _).trans (ih h)
    next => cases h

theorem resolvePieces_ne_nil {m : Metamodel} {owner : String} {piece : List Char}
    {rest : List (List Char)} {segments : List PathSegment} (hpiece : piece ≠ [])
    (h : resolvePieces m owner [] (piece :: rest) = .ok segments) : segments ≠ [] := by
  obtain ⟨found, hfound, hrest⟩ := resolvePieces_cons_ok.1 h
  rintro rfl
  exact resolve_ne_nil hpiece hfound (by simpa using prefix_of_resolvePieces hrest)

/-! ### Whole sources -/

theorem isAcronym_piece {c : Char} {cs : List Char} (h : isAcronym (c :: cs) = false) :
    isAcronym (c :: (pieces cs).headD []) = false := by
  cases cs with
  | nil => rfl
  | cons d ds =>
    rw [pieces]
    split
    next => rfl
    next => split <;> exact h

/-- A source leads to the same path whether or not its first letter is in lower case. -/
theorem ofSource_uncapitalize {m : Metamodel} {owner : ManagedType} {source : String}
    (h : isAcronym source.toList = false) :
    ofSource m owner (String.ofList (uncapitalize source.toList)) = ofSource m owner source := by
  cases hsource : source.toList with
  | nil => rw [uncapitalize, ← hsource, String.ofList_toList]
  | cons c cs =>
    rw [hsource] at h
    by_cases hlower : Text.lowerOf c = [c]
    · rw [uncapitalize, hlower, List.singleton_append, ← hsource, String.ofList_toList]
    obtain ⟨hc, hds⟩ := uncut_of_lowerOf hlower
    have hpieces : (pieces (c :: cs)).filter (!·.isEmpty) =
        (c :: (pieces cs).headD []) :: (pieces cs).tail.filter (!·.isEmpty) := by
      rw [show c :: cs = [c] ++ cs from rfl, pieces_append (List.cons_ne_nil _ _) (by simpa using hc)]
      rfl
    have hpieces' : (pieces (Text.lowerOf c ++ cs)).filter (!·.isEmpty) =
        uncapitalize (c :: (pieces cs).headD []) :: (pieces cs).tail.filter (!·.isEmpty) := by
      rw [pieces_append (lowerOf_ne_nil c) hds, List.filter_cons_of_pos (by simp [lowerOf_ne_nil])]
      rfl
    have hresolve : resolvePieces m owner.name []
          (uncapitalize (c :: (pieces cs).headD []) :: (pieces cs).tail.filter (!·.isEmpty)) =
        resolvePieces m owner.name []
          ((c :: (pieces cs).headD []) :: (pieces cs).tail.filter (!·.isEmpty)) := by
      simp only [resolvePieces, resolve_uncapitalize (isAcronym_piece h)]
    rw [ofSource, ofSource, hsource, uncapitalize, String.toList_ofList, hpieces, hpieces', hresolve]
    cases hsegments : resolvePieces m owner.name []
        ((c :: (pieces cs).headD []) :: (pieces cs).tail.filter (!·.isEmpty)) with
    | error e => rfl
    | ok segments =>
      simp only [bind, Except.bind, ofSegments?,
        dif_pos (resolvePieces_ne_nil (List.cons_ne_nil _ _) hsegments)]

/-! ### Acronyms -/

theorem decapitalize_acronym {source : List Char} (h : isAcronym source = true) :
    decapitalize source = source := by
  rcases source with _ | ⟨c, _ | ⟨d, cs⟩⟩
  · cases h
  · cases h
  · simp only [isAcronym, Bool.and_eq_true] at h
    rw [decapitalize, if_pos (by simp [h])]

/-- A source fails as long as no attribute of its owner starts as it does. -/
theorem resolve_fails {m : Metamodel} {owner : String} {c : Char} (hc : Text.lowerOf c = [c])
    (hnone : ∀ cs, (m.managedType? owner).bind (·.attribute? (String.ofList (c :: cs))) = none)
    (depth : Nat) (cs tail : List Char) :
    ∃ failure, resolve m owner depth (c :: cs) tail = .error failure := by
  induction hlength : cs.length using Nat.strong_induction_on generalizing cs tail with
  | _ n ih =>
    have hdirect : ∃ failure, direct m owner depth (c :: cs) tail = .error failure := by
      refine ⟨⟨depth, .propertyNotFound (String.ofList (c :: cs)) (simpleName owner)⟩, ?_⟩
      simp only [direct, segment, decapitalize_settled hc, hnone]
    obtain ⟨failure, hdirect⟩ := hdirect
    rw [resolve_eq, hdirect]
    split
    next => exact ⟨_, rfl⟩
    next =>
      dsimp only
      cases hsplit : splitLastWord? (c :: cs) with
      | none => exact ⟨_, rfl⟩
      | some split =>
        obtain ⟨front, word⟩ := split
        rcases front with _ | ⟨c', front⟩
        · exact ⟨_, rfl⟩
        · obtain ⟨happend, -⟩ := append_of_splitLastWord? hsplit
          obtain ⟨rfl, -⟩ := List.cons.inj happend
          have hshorter := (length_lt_of_splitLastWord? hsplit).1
          obtain ⟨other, hother⟩ :=
            ih front.length (by simpa [hlength] using hshorter) front (word ++ tail) rfl
          refine ⟨if failure.depth < other.depth then other else failure, ?_⟩
          simp only [afterCut, List.isEmpty_cons, Bool.false_eq_true, if_false, hother]

theorem ofSource_fails {m : Metamodel} {owner : ManagedType} {c : Char} {cs : List Char}
    (hc : Text.lowerOf c = [c]) (huncut : ∀ d ∈ c :: cs, d ≠ '_' ∧ d ≠ '.')
    (hnone : ∀ cs, (m.managedType? owner.name).bind (·.attribute? (String.ofList (c :: cs))) = none) :
    ∃ e, ofSource m owner (String.ofList (c :: cs)) = .error e := by
  obtain ⟨failure, hfailure⟩ := resolve_fails hc hnone 0 cs []
  refine ⟨failure.error, ?_⟩
  have hsegments : resolvePieces m owner.name [] ([c :: cs].filter (!·.isEmpty)) =
      .error failure.error := by
    simp [resolvePieces, hfailure]
  rw [ofSource, String.toList_ofList, pieces_uncut (List.cons_ne_nil _ _) huncut, hsegments]
  rfl

end PropertyPath

namespace MethodName

open Operator (uncapitalize)

/-! ### Conditions without a keyword -/

theorem ofPart_of_no_keyword {source : String}
    (h : ∀ op : Operator, ∀ k ∈ op.keywords, ¬ k.toList <:+ source.toList) :
    Operator.ofPart source = .simpleProperty := by
  have hnone : Operator.all.find? (·.supports source) = none := by
    rw [List.find?_eq_none]
    intro op _ hsupports
    obtain ⟨k, hk, hstrip⟩ := List.any_eq_true.1 hsupports
    exact h op k hk (Text.stripEnd?_isSome.1 hstrip)
  rw [Operator.ofPart, hnone]
  rfl

/-- Lower case in front makes no keyword at the end. -/
theorem suffix_of_suffix_uncapitalize {c : Char} {k source : List Char} (hc : c.toNat ≤ 95)
    (h : c :: k <:+ uncapitalize source) : c :: k <:+ source := by
  cases source with
  | nil => exact h
  | cons d ds =>
    by_cases hlower : Text.lowerOf d = [d]
    · rwa [uncapitalize, hlower, List.singleton_append] at h
    · have hbehind := Text.lt_of_mem_lowerOf hlower
      rw [uncapitalize] at h
      generalize Text.lowerOf d = front at h hbehind
      refine List.IsSuffix.trans ?_ (List.suffix_cons d ds)
      induction front with
      | nil => exact h
      | cons e front ih =>
        obtain ⟨he, hfront⟩ := List.forall_mem_cons.1 hbehind
        rcases List.suffix_cons_iff.1 h with heq | hrest
        · obtain ⟨rfl, -⟩ := List.cons.inj heq
          omega
        · exact ih hrest hfront

theorem propertyOf_simpleProperty {source : String}
    (h : ∀ k ∈ Operator.simpleProperty.keywords, ¬ k.toList <:+ source.toList) :
    Operator.simpleProperty.propertyOf source = String.ofList (uncapitalize source.toList) := by
  have hnone : (Operator.simpleProperty.keywords.findSome? fun k =>
      Text.stripEnd? k.toList (uncapitalize source.toList)) = none := by
    rw [List.findSome?_eq_none_iff]
    intro k hk
    rw [Text.stripEnd?_eq_none]
    intro hsuffix
    obtain ⟨c, cs, heq, hc⟩ : ∃ c cs, k.toList = c :: cs ∧ c.toNat ≤ 95 := by
      simp only [Operator.keywords, List.mem_cons, List.not_mem_nil, or_false] at hk
      rcases hk with rfl | rfl
      · exact ⟨'I', _, rfl, by decide⟩
      · exact ⟨'E', _, rfl, by decide⟩
    rw [heq] at hsuffix
    exact h k hk (heq ▸ suffix_of_suffix_uncapitalize hc hsuffix)
  simp only [Operator.propertyOf, hnone, Option.getD_none]

/-- A condition without a keyword or a marker is an equality on the property that it spells with its
first letter in lower case. -/
theorem parse_plain (m : Metamodel) (owner : ManagedType) (allIgnoreCase : Bool) {source : String}
    (hmarker : ∀ w ∈ Part.ignoreCaseWords, ¬ w <:+: source.toList)
    (hkeyword : ∀ op : Operator, ∀ k ∈ op.keywords, ¬ k.toList <:+ source.toList) :
    Part.parse m owner allIgnoreCase source =
      (PropertyPath.ofSource m owner (String.ofList (uncapitalize source.toList))).map fun property =>
        { source, operator := .simpleProperty, property
          ignoreCase := if allIgnoreCase then .whenPossible else .never } := by
  rw [Part.parse, Text.cutFirst?_eq_none.2 hmarker]
  dsimp only
  rw [ofPart_of_no_keyword hkeyword, propertyOf_simpleProperty (hkeyword _)]
  cases PropertyPath.ofSource m owner (String.ofList (uncapitalize source.toList)) <;> rfl

/-- A page whose only attribute is as given. -/
def pageWith (name : String) : ManagedType :=
  { name := "app.Page", entityName := "Page", isEntity := true
    attributes := [.basic name .string] }

/-- A sort finds an attribute that is an acronym, a condition does not. -/
theorem acronym_found_by_sort_only {source : String}
    (hacronym : PropertyPath.isAcronym source.toList = true)
    (huncut : ∀ c ∈ source.toList, c ≠ '_' ∧ c ≠ '.') :
    (∃ p, PropertyPath.ofSource ⟨[pageWith source]⟩ (pageWith source) source = .ok p) ∧
      ∃ e, PropertyPath.ofSource ⟨[pageWith source]⟩ (pageWith source)
        (String.ofList (uncapitalize source.toList)) = .error e := by
  have hknown : Metamodel.managedType? ⟨[pageWith source]⟩ "app.Page" = some (pageWith source) := rfl
  have hne : source.toList ≠ [] := by
    intro hnil
    rw [hnil] at hacronym
    cases hacronym
  constructor
  · have hfound : (pageWith source).attribute? (Attribute.basic source .string).name =
        some (.basic source .string) := by
      simp [ManagedType.attribute?, pageWith]
    exact ⟨_, PropertyPath.ofSource_attribute hknown hfound hne huncut
      (PropertyPath.decapitalize_acronym hacronym)⟩
  · obtain ⟨c, cs, hsource⟩ := List.exists_cons_of_ne_nil hne
    rw [hsource] at hacronym huncut ⊢
    have hlower : Text.lowerOf c ≠ [c] := by
      rcases cs with _ | ⟨d, cs⟩
      · cases hacronym
      · simp only [PropertyPath.isAcronym, Bool.and_eq_true, bne_iff_ne] at hacronym
        exact hacronym.2
    obtain ⟨d, ds, hd, hsettled⟩ := PropertyPath.exists_lowerOf c
    have huncut' := (PropertyPath.uncut_of_lowerOf hlower).2
    rw [uncapitalize, hd, List.cons_append]
    rw [hd] at huncut'
    refine PropertyPath.ofSource_fails hsettled ?_ fun front => ?_
    · intro e he
      rcases List.mem_append.1 (List.cons_append ▸ he : e ∈ (d :: ds) ++ cs) with he | he
      · exact huncut' e he
      · exact huncut e (List.mem_cons_of_mem _ he)
    · have hother : source ≠ String.ofList (d :: front) := by
        intro heq
        rw [heq, String.toList_ofList] at hsource
        obtain ⟨rfl, -⟩ := List.cons.inj hsource
        exact hlower hsettled
      rw [show (pageWith source).name = "app.Page" from rfl, hknown]
      simpa [ManagedType.attribute?, pageWith, Attribute.basic] using hother

/-- A condition without a keyword or a marker finds the path that a sort finds, and fails as it does,
unless its property starts with two capitals. Then it looks for a property in lower case instead, and
there are attributes that only a sort finds. -/
theorem parse_agrees_with_sort {source : String}
    (hmarker : ∀ w ∈ Part.ignoreCaseWords, ¬ w <:+: source.toList)
    (hkeyword : ∀ op : Operator, ∀ k ∈ op.keywords, ¬ k.toList <:+ source.toList) :
    (PropertyPath.isAcronym source.toList = false →
      ∀ (m : Metamodel) (owner : ManagedType) (allIgnoreCase : Bool),
        (Part.parse m owner allIgnoreCase source).map (·.property) =
          PropertyPath.ofSource m owner source) ∧
    (PropertyPath.isAcronym source.toList = true →
      (∀ (m : Metamodel) (owner : ManagedType) (allIgnoreCase : Bool),
        (Part.parse m owner allIgnoreCase source).map (·.property) =
          PropertyPath.ofSource m owner (String.ofList (uncapitalize source.toList))) ∧
      ((∀ c ∈ source.toList, c ≠ '_' ∧ c ≠ '.') →
        ∃ (m : Metamodel) (owner : ManagedType) (p : PropertyPath),
          PropertyPath.ofSource m owner source = .ok p ∧
          ∀ allIgnoreCase, ∃ e, Part.parse m owner allIgnoreCase source = .error e)) := by
  have hproperty (m : Metamodel) (owner : ManagedType) (allIgnoreCase : Bool) :
      (Part.parse m owner allIgnoreCase source).map (·.property) =
        PropertyPath.ofSource m owner (String.ofList (uncapitalize source.toList)) := by
    rw [parse_plain m owner allIgnoreCase hmarker hkeyword]
    cases PropertyPath.ofSource m owner (String.ofList (uncapitalize source.toList)) <;> rfl
  refine ⟨fun hplain m owner allIgnoreCase => ?_, fun hacronym => ⟨hproperty, fun huncut => ?_⟩⟩
  · rw [hproperty, PropertyPath.ofSource_uncapitalize hplain]
  · obtain ⟨⟨p, hp⟩, e, he⟩ := acronym_found_by_sort_only hacronym huncut
    refine ⟨_, _, p, hp, fun allIgnoreCase => ⟨e, ?_⟩⟩
    rw [parse_plain _ _ _ hmarker hkeyword, he]
    rfl

theorem parse_name_agrees_with_sort :
    (∀ w ∈ Part.ignoreCaseWords, ¬ w <:+: "Name".toList) ∧
    (∀ op : Operator, ∀ k ∈ op.keywords, ¬ k.toList <:+ "Name".toList) ∧
    ∀ (m : Metamodel) (owner : ManagedType) (allIgnoreCase : Bool),
      (Part.parse m owner allIgnoreCase "Name").map (·.property) =
        PropertyPath.ofSource m owner "Name" := by
  have hmarker : ∀ w ∈ Part.ignoreCaseWords, ¬ w <:+: "Name".toList := by decide +kernel
  have hkeyword : ∀ op : Operator, ∀ k ∈ op.keywords, ¬ k.toList <:+ "Name".toList := by
    intro op
    cases op <;> decide +kernel
  exact ⟨hmarker, hkeyword, (parse_agrees_with_sort hmarker hkeyword).1 (by decide +kernel)⟩

/-- An attribute `URL` can be sorted by, but no condition finds it. -/
theorem url_found_by_sort_only :
    (∀ w ∈ Part.ignoreCaseWords, ¬ w <:+: "URL".toList) ∧
    (∀ op : Operator, ∀ k ∈ op.keywords, ¬ k.toList <:+ "URL".toList) ∧
    (PropertyPath.ofSource ⟨[pageWith "URL"]⟩ (pageWith "URL") "URL").toOption.map
      PropertyPath.toDotPath = some "URL" ∧
    Part.parse ⟨[pageWith "URL"]⟩ (pageWith "URL") false "URL" =
      .error (.propertyNotFound "uRL" "Page") := by
  refine ⟨by decide +kernel, ?_, by cbv, by cbv⟩
  intro op
  cases op <;> decide +kernel

end MethodName

end Jpql
