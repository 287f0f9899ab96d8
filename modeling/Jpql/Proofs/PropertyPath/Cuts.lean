import Jpql.Proofs.PropertyPath

/-! Resolution as a search among cuts. A source of words falls into pieces before its capitals in
many ways. The search finds a way in which the pieces name attributes one after another, whenever
there is one, and of several the one with the longest first piece, then the longest second piece, and
so on. -/

namespace Jpql.PropertyPath

/-- A text in pieces: the whole, or what is in front of a capital, and then pieces of the rest. -/
inductive IsCut : List Char → List (List Char) → Prop
  | whole {text : List Char} (nonempty : text ≠ []) : IsCut text [text]
  | before {piece rest : List Char} {c : Char} {pieces : List (List Char)}
      (nonempty : piece ≠ []) (capital : Text.isUpper c = true) (cut : IsCut (c :: rest) pieces) :
      IsCut (piece ++ c :: rest) (piece :: pieces)

/-- A text in pieces, or no pieces of an empty one. -/
def IsCutBehind (text : List Char) (ps : List (List Char)) : Prop :=
  text = [] ∧ ps = [] ∨ text ≠ [] ∧ IsCut text ps

/-- The pieces of a text, the first of them no longer than `n`, name the segments. -/
structure Finds (m : Metamodel) (owner : String) (text : List Char) (n : Nat)
    (ps : List (List Char)) (segments : List PathSegment) : Prop where
  cut : IsCut text ps
  spells : Spells m owner ps segments
  bounded : (ps.headD []).length ≤ n

/-- The outcome is the longest way to cut the text, or a failure if there is none. -/
def IsLongest (m : Metamodel) (owner : String) (text : List Char) (n : Nat) :
    Except Failure (List PathSegment) → Prop
  | .ok segments => ∃ ps, Finds m owner text n ps segments ∧
      ∀ ps' segments', Finds m owner text n ps' segments' →
        ps'.map List.length ≤ ps.map List.length
  | .error _ => ∀ ps segments, ¬ Finds m owner text n ps segments

/-! ### Words -/

/-- A source of words is cut before its last capital, if it has one. -/
theorem splitLastWord?_cases {source : List Char}
    (hwords : ∀ c ∈ source, Text.isUpper c = true ∨ isWordTail c = true) :
    (splitLastWord? source = none ∧ ∀ c ∈ source, Text.isUpper c = false) ∨
      ∃ front c word, splitLastWord? source = some (front, c :: word) ∧
        source = front ++ c :: word ∧ Text.isUpper c = true ∧
        ∀ d ∈ word, Text.isUpper d = false := by
  have htail (c : Char) (h : isWordTail c = true) : Text.isUpper c = false := by
    simpa using (Bool.and_eq_true_iff.1 h).1
  have hword : ∀ c ∈ (source.reverse.takeWhile isWordTail), Text.isUpper c = false := fun c hc =>
    htail c (List.all_eq_true.1 List.all_takeWhile c hc)
  have happend := List.takeWhile_append_dropWhile (p := isWordTail) (l := source.reverse)
  unfold splitLastWord?
  cases hdrop : source.reverse.dropWhile isWordTail with
  | nil =>
    rw [hdrop, List.append_nil] at happend
    rw [happend] at hword
    exact .inl ⟨rfl, by simpa using hword⟩
  | cons c rest =>
    have hc : isWordTail c = false := by
      have hhead := List.head_dropWhile_not (p := isWordTail) (l := source.reverse) (by simp [hdrop])
      simpa only [hdrop, List.head_cons] using hhead
    rw [hdrop] at happend
    have hmem : c ∈ source := by
      rw [← List.mem_reverse, ← happend]
      simp
    have hupper : Text.isUpper c = true := (hwords c hmem).resolve_right (by simp [hc])
    refine .inr ⟨rest.reverse, c, _, if_pos hupper, ?_, hupper, by simpa using hword⟩
    have hsource := congrArg List.reverse happend
    simpa using hsource.symm

/-! ### Cuts -/

variable {m : Metamodel} {owner : String} {depth : Nat} {source tail text : List Char} {n k : Nat}
  {segments : List PathSegment} {ps : List (List Char)}

/-- The first piece of a cut is all of the text, or a capital stands behind it. -/
theorem IsCut.head_cases {piece : List Char} (h : IsCut text (piece :: ps)) :
    piece ≠ [] ∧ (piece = text ∧ ps = [] ∨
      ∃ c rest, text = piece ++ c :: rest ∧ Text.isUpper c = true ∧ IsCut (c :: rest) ps) := by
  cases h with
  | whole nonempty => exact ⟨nonempty, .inl ⟨rfl, rfl⟩⟩
  | before nonempty capital cut => exact ⟨nonempty, .inr ⟨_, _, rfl, capital, cut⟩⟩

theorem not_isCut_nil : ¬ IsCut text [] := by
  intro h
  cases h

theorem IsCut.text_ne_nil (h : IsCut text ps) : text ≠ [] := by
  cases h with
  | whole nonempty => exact nonempty
  | before => simp

theorem IsCut.head_le (h : IsCut text ps) : (ps.headD []).length ≤ text.length := by
  cases h <;> simp

/-- The pieces behind the source, if it is the first piece. -/
theorem IsCut.of_head {piece : List Char} (h : IsCut (source ++ tail) (piece :: ps))
    (hlength : piece.length = source.length) :
    piece = source ∧ IsCutBehind tail ps := by
  obtain ⟨-, ⟨rfl, rfl⟩ | ⟨c, rest, htext, -, hcut⟩⟩ := h.head_cases
  · obtain rfl : tail = [] := by simpa using hlength
    exact ⟨List.append_nil _, .inl ⟨rfl, rfl⟩⟩
  · obtain ⟨rfl, rfl⟩ := List.append_inj htext hlength.symm
    exact ⟨rfl, .inr ⟨List.cons_ne_nil _ _, hcut⟩⟩

/-- A capital stands in the source where a shorter first piece ends. -/
theorem IsCut.exists_capital {piece : List Char} (h : IsCut (source ++ tail) (piece :: ps))
    (hlength : piece.length < source.length) :
    ∃ c, source[piece.length]? = some c ∧ Text.isUpper c = true := by
  obtain ⟨-, ⟨rfl, -⟩ | ⟨c, rest, htext, hcapital, -⟩⟩ := h.head_cases
  · rw [List.length_append] at hlength
    omega
  · refine ⟨c, ?_, hcapital⟩
    have hat : (source ++ tail)[piece.length]? = source[piece.length]? :=
      List.getElem?_append_left hlength
    rw [← hat, htext, List.getElem?_append_right (Nat.le_refl _), Nat.sub_self]
    rfl

/-- What is cut off within a source of words ends at its last capital or before. -/
theorem IsCut.head_le_front {front word piece : List Char} {d : Char}
    (hword : ∀ e ∈ word, Text.isUpper e = false)
    (h : IsCut (front ++ d :: word ++ tail) (piece :: ps))
    (hlength : piece.length < (front ++ d :: word).length) : piece.length ≤ front.length := by
  by_contra hlonger
  obtain ⟨c, hat, hcapital⟩ := h.exists_capital hlength
  obtain ⟨i, hi⟩ : ∃ i, piece.length - front.length = i + 1 :=
    ⟨piece.length - front.length - 1, by omega⟩
  rw [List.getElem?_append_right (by omega), hi, List.getElem?_cons_succ] at hat
  exact absurd (hword c (List.mem_of_getElem? hat)) (by simp [hcapital])

/-! ### The search -/

theorem IsLongest.congr {r : Except Failure (List PathSegment)} (h : IsLongest m owner text k r)
    (hsame : ∀ ps segments, Finds m owner text n ps segments ↔ Finds m owner text k ps segments) :
    IsLongest m owner text n r := by
  cases r with
  | ok segments =>
    obtain ⟨ps, hfinds, hlongest⟩ := h
    exact ⟨ps, (hsame ps segments).2 hfinds,
      fun ps' segments' h' => hlongest ps' segments' ((hsame ps' segments').1 h')⟩
  | error failure => exact fun ps segments hfinds => h ps segments ((hsame ps segments).1 hfinds)

section Direct

variable (hrest : tail ≠ [] → ∀ owner,
  IsLongest m owner tail tail.length (resolve m owner (depth + 1) tail []))

include hrest

/-- What is behind an attribute is cut in the longest way. -/
theorem behind_longest {a : Attribute} {rest : List PathSegment}
    (h : tail = [] ∧ rest = [] ∨
      tail ≠ [] ∧ resolve m (targetKey a) (depth + 1) tail [] = .ok rest) :
    ∃ qs, IsCutBehind tail qs ∧ Spells m (targetKey a) qs rest ∧
      ∀ qs' segments', IsCutBehind tail qs' → Spells m (targetKey a) qs' segments' →
        qs'.map List.length ≤ qs.map List.length := by
  rcases h with ⟨rfl, rfl⟩ | ⟨hne, hresolve⟩
  · refine ⟨[], .inl ⟨rfl, rfl⟩, .nil, ?_⟩
    rintro qs' - (⟨-, rfl⟩ | ⟨hne, -⟩) -
    · exact le_refl _
    · exact absurd rfl hne
  · have hlongest := hrest hne (targetKey a)
    rw [hresolve] at hlongest
    obtain ⟨qs, hfinds, hlongest⟩ := hlongest
    refine ⟨qs, .inr ⟨hne, hfinds.cut⟩, hfinds.spells, ?_⟩
    rintro qs' segments' (⟨hempty, -⟩ | ⟨-, hcut⟩) hspells
    · exact absurd hempty hne
    · exact hlongest qs' segments' ⟨hcut, hspells, hcut.head_le⟩

/-- A source that is one attribute is the longest first piece. -/
theorem direct_longest (hsource : source ≠ []) (htail : ∀ c ∈ tail.head?, Text.isUpper c = true)
    (h : direct m owner depth source tail = .ok segments) :
    IsLongest m owner (source ++ tail) source.length (.ok segments) := by
  obtain ⟨a, rest, ha, rfl, hbehind⟩ := (direct_ok hsource).1 h
  obtain ⟨qs, hqs, hspells, hlongest⟩ := behind_longest hrest hbehind
  have hcut : IsCut (source ++ tail) (source :: qs) := by
    rcases hqs with ⟨rfl, rfl⟩ | ⟨hne, hqs⟩
    · simpa using IsCut.whole hsource
    · obtain ⟨c, tail, rfl⟩ := List.exists_cons_of_ne_nil hne
      exact .before hsource (htail c rfl) hqs
  refine ⟨source :: qs, ⟨hcut, .cons ha hspells, Nat.le_refl _⟩, fun ps' segments' hfinds => ?_⟩
  rcases ps' with _ | ⟨piece, qs'⟩
  · exact absurd hfinds.cut not_isCut_nil
  have hbounded : piece.length ≤ source.length := hfinds.bounded
  rcases Nat.lt_or_eq_of_le hbounded with hshorter | hequal
  · exact le_of_lt (List.Lex.rel hshorter)
  · obtain ⟨rfl, hqs'⟩ := hfinds.cut.of_head hequal
    cases hfinds.spells with
    | cons named hspells' =>
      obtain rfl := Option.some.inj (ha.symm.trans named)
      exact List.cons_le_cons _ (hlongest qs' _ hqs' hspells')

/-- Where a source is no attribute, or nothing behind it resolves, the first piece is shorter. -/
theorem head_lt_of_direct (hsource : source ≠ []) {failure : Failure}
    (h : direct m owner depth source tail = .error failure)
    (hfinds : Finds m owner (source ++ tail) source.length ps segments) :
    (ps.headD []).length < source.length := by
  rcases ps with _ | ⟨piece, qs⟩
  · exact absurd hfinds.cut not_isCut_nil
  refine Nat.lt_of_le_of_ne hfinds.bounded fun hequal => ?_
  obtain ⟨rfl, hqs⟩ := hfinds.cut.of_head hequal
  cases hfinds.spells with
  | @cons _ _ _ a rest named hspells =>
    have hnot (found : List PathSegment) : direct m owner depth piece tail ≠ .ok found := by
      simp [h]
    rcases hqs with ⟨rfl, rfl⟩ | ⟨hne, hcut⟩
    · exact hnot _ ((direct_ok hsource).2 ⟨a, [], named, rfl, .inl ⟨rfl, rfl⟩⟩)
    · have hlongest := hrest hne (targetKey a)
      cases hresolve : resolve m (targetKey a) (depth + 1) tail [] with
      | ok found =>
        exact hnot _ ((direct_ok hsource).2 ⟨a, found, named, rfl, .inr ⟨hne, hresolve⟩⟩)
      | error other =>
        rw [hresolve] at hlongest
        exact hlongest qs rest ⟨hcut, hspells, hcut.head_le⟩

end Direct

/-- Where the source itself does not lead on, the search goes on with what is in front of its last
capital, and no shorter first piece is left out. -/
theorem afterCut_longest {failure : Failure}
    (hwords : ∀ c ∈ source, Text.isUpper c = true ∨ isWordTail c = true)
    (hshorter : ∀ ps segments, Finds m owner (source ++ tail) source.length ps segments →
      (ps.headD []).length < source.length)
    (hrest : ∀ front c word, source = front ++ c :: word → front ≠ [] → Text.isUpper c = true →
      IsLongest m owner (source ++ tail) front.length
        (resolve m owner depth front (c :: word ++ tail))) :
    IsLongest m owner (source ++ tail) source.length
      (afterCut m owner depth tail failure (splitLastWord? source)) := by
  rcases splitLastWord?_cases hwords with
    ⟨hsplit, hnone⟩ | ⟨front, c, word, hsplit, rfl, hcapital, hword⟩
  · rw [hsplit]
    rintro (_ | ⟨piece, ps⟩) segments hfinds
    · exact not_isCut_nil hfinds.cut
    obtain ⟨c, hat, hcapital⟩ := hfinds.cut.exists_capital (hshorter _ _ hfinds)
    exact absurd (hnone c (List.mem_of_getElem? hat)) (by simp [hcapital])
  have hfront (ps : List (List Char)) (segments : List PathSegment)
      (hfinds : Finds m owner (front ++ c :: word ++ tail) (front ++ c :: word).length ps
        segments) : Finds m owner (front ++ c :: word ++ tail) front.length ps segments := by
    rcases ps with _ | ⟨piece, ps⟩
    · exact absurd hfinds.cut not_isCut_nil
    · exact ⟨hfinds.cut, hfinds.spells, hfinds.cut.head_le_front hword (hshorter _ _ hfinds)⟩
  rw [hsplit, afterCut]
  split
  next hempty =>
    obtain rfl : front = [] := by simpa using hempty
    rintro (_ | ⟨piece, ps⟩) segments hfinds
    · exact not_isCut_nil hfinds.cut
    · have hnil := (hfront _ _ hfinds).bounded
      exact hfinds.cut.head_cases.1 (List.length_eq_zero_iff.1 (Nat.le_zero.1 hnil))
  next hnonempty =>
    have hlongest := (hrest front c word rfl (by simpa using hnonempty) hcapital).congr
      fun ps segments => ⟨hfront ps segments, fun hfinds => ⟨hfinds.cut, hfinds.spells,
        Nat.le_trans hfinds.bounded (by simp)⟩⟩
    cases hresolve : resolve m owner depth front (c :: word ++ tail) with
    | ok segments =>
      rw [hresolve] at hlongest
      exact hlongest
    | error other =>
      rw [hresolve] at hlongest
      exact hlongest

/-- The search finds the longest way to cut a source with its tail, among those that cut within the
source or behind it. -/
theorem resolve_longest (hsource : source ≠ [])
    (hwords : ∀ c ∈ source ++ tail, Text.isUpper c = true ∨ isWordTail c = true)
    (htail : ∀ c ∈ tail.head?, Text.isUpper c = true)
    (hdepth : depth + (source ++ tail).tail.countP Text.isUpper ≤ maxDepth) :
    IsLongest m owner (source ++ tail) source.length (resolve m owner depth source tail) := by
  induction htext : (source ++ tail).length using Nat.strong_induction_on
    generalizing owner depth source tail with
  | _ l ihText =>
  induction hlength : source.length using Nat.strong_induction_on generalizing source tail with
  | _ n ihSource =>
    subst hlength
    -- A tail starts with a capital, so one attribute further there are fewer capitals left.
    have hrest : tail ≠ [] → ∀ owner,
        IsLongest m owner tail tail.length (resolve m owner (depth + 1) tail []) := by
      intro hne owner
      obtain ⟨c, rest, rfl⟩ := List.exists_cons_of_ne_nil hne
      obtain ⟨s, source, rfl⟩ := List.exists_cons_of_ne_nil hsource
      have hcount : 1 + rest.countP Text.isUpper ≤
          ((s :: source ++ c :: rest).tail).countP Text.isUpper := by
        rw [List.cons_append, List.tail_cons, List.countP_append, List.countP_cons_of_pos
          (htail c rfl)]
        omega
      have hlongest : IsLongest m owner (c :: rest ++ []) (c :: rest).length
          (resolve m owner (depth + 1) (c :: rest) []) :=
        ihText (c :: rest ++ []).length (by simp [← htext]) hne
          (fun d hd => hwords d (by simp_all)) (by simp) (by simpa using by omega) rfl
      simpa using hlongest
    rw [resolve_eq, if_neg (by omega)]
    cases hdirect : direct m owner depth source tail with
    | ok segments => exact direct_longest hrest hsource htail hdirect
    | error failure =>
      refine afterCut_longest (fun c hc => hwords c (List.mem_append_left _ hc))
        (fun ps segments hfinds => head_lt_of_direct hrest hsource hdirect hfinds) ?_
      rintro front c word rfl hfront hcapital
      have happend : front ++ c :: word ++ tail = front ++ (c :: word ++ tail) :=
        List.append_assoc ..
      rw [happend] at hwords hdepth htext ⊢
      exact ihSource front.length (by simp) hfront hwords (by simpa using hcapital) hdepth htext rfl

section Words

variable (hwords : ∀ c ∈ source,
  Text.isUpper c = true ∨ Text.isLower c = true ∨ Text.isNumeric c = true)

include hwords

theorem uncut_of_words : ∀ c ∈ source, c ≠ '_' ∧ c ≠ '.' := by
  intro c hc
  constructor <;> rintro rfl <;> exact absurd (hwords _ hc) (by decide)

/-- The search among all cuts of a source of words. It is not given up for its depth, as each
attribute behind the first one takes up a capital. -/
theorem words_longest (hne : source ≠ []) (hcapitals : source.countP Text.isUpper ≤ maxDepth) :
    IsLongest m owner source source.length (resolve m owner 0 source []) := by
  have hparts : ∀ c ∈ source ++ [], Text.isUpper c = true ∨ isWordTail c = true := by
    rw [List.append_nil]
    intro c hc
    have hkind := hwords c hc
    cases hupper : Text.isUpper c <;> simp_all [isWordTail]
  have hdepth : 0 + (source ++ []).tail.countP Text.isUpper ≤ maxDepth := by
    rw [List.append_nil, Nat.zero_add]
    exact ((List.tail_sublist source).countP_le).trans hcapitals
  have hlongest : IsLongest m owner (source ++ []) source.length (resolve m owner 0 source []) :=
    resolve_longest hne hparts (by simp) hdepth
  rwa [List.append_nil] at hlongest

end Words

/-- A source of words resolves just if it can be cut before capitals into names of attributes, one
after another, and then to the attributes of the longest such cut: the one whose first piece is
longest, of these the one whose second piece is longest, and so on. -/
theorem ofSource_longest_cut {owner : ManagedType} {source : String}
    (hwords : ∀ c ∈ source.toList,
      Text.isUpper c = true ∨ Text.isLower c = true ∨ Text.isNumeric c = true)
    (hcapitals : source.toList.countP Text.isUpper < 1000) :
    ((∃ p, ofSource m owner source = .ok p) ↔
      ∃ ps segments, IsCut source.toList ps ∧ Spells m owner.name ps segments) ∧
    ∀ p, ofSource m owner source = .ok p →
      ∃ ps, IsCut source.toList ps ∧ Spells m owner.name ps p.segments ∧
        ∀ ps' segments', IsCut source.toList ps' → Spells m owner.name ps' segments' →
          ps'.map List.length ≤ ps.map List.length := by
  by_cases hne : source.toList = []
  · have hnone (p : PropertyPath) : ofSource m owner source ≠ .ok p := by
      rw [Ne, ofSource_ok, hne]
      exact fun h => p.nonempty (Except.ok.inj h).symm
    refine ⟨⟨fun ⟨p, hp⟩ => (hnone p hp).elim, ?_⟩, fun p hp => (hnone p hp).elim⟩
    exact fun ⟨ps, segments, hcut, _⟩ => (hcut.text_ne_nil hne).elim
  have huncut := uncut_of_words hwords
  have hlongest : IsLongest m owner.name source.toList source.toList.length
      (resolve m owner.name 0 source.toList []) :=
    words_longest hwords hne (Nat.le_of_lt hcapitals)
  have hfinds {ps : List (List Char)} {segments : List PathSegment} (hcut : IsCut source.toList ps)
      (hspells : Spells m owner.name ps segments) :
      Finds m owner.name source.toList source.toList.length ps segments :=
    ⟨hcut, hspells, hcut.head_le⟩
  cases hresolve : resolve m owner.name 0 source.toList [] with
  | error failure =>
    rw [hresolve] at hlongest
    have hnone (p : PropertyPath) : ofSource m owner source ≠ .ok p := by
      simp [ofSource_uncut_ok hne huncut, hresolve]
    refine ⟨⟨fun ⟨p, hp⟩ => (hnone p hp).elim, ?_⟩, fun p hp => (hnone p hp).elim⟩
    exact fun ⟨ps, segments, hcut, hspells⟩ => (hlongest ps segments (hfinds hcut hspells)).elim
  | ok segments =>
    rw [hresolve] at hlongest
    obtain ⟨ps, hps, hlongest⟩ := hlongest
    have hfound : ofSource m owner source = .ok ⟨segments, resolve_ne_nil hne hresolve⟩ :=
      (ofSource_uncut_ok hne huncut).2 hresolve
    refine ⟨⟨fun _ => ⟨ps, segments, hps.cut, hps.spells⟩, fun _ => ⟨_, hfound⟩⟩, fun p hp => ?_⟩
    obtain ⟨⟩ := hfound.symm.trans hp
    exact ⟨ps, hps.cut, hps.spells, fun ps' segments' hcut hspells =>
      hlongest ps' segments' (hfinds hcut hspells)⟩

def address : ManagedType :=
  { ManagedType.embeddable "app.Address" with
    attributes := [.basic "line" .string, .basic "city" .string] }

/-- An employee with an address, whose first line is an attribute of its own, and with a manager. -/
def employee : ManagedType :=
  { name := "app.Employee", entityName := "Employee", isEntity := true
    attributes := [.id "id" .long, .toType .embedded "address" "app.Address",
      .basic "addressLine" .string, .toType .manyToOne "manager" "app.Employee"] }

def staff : Metamodel := ⟨[employee, address]⟩

/-- Of two ways to cut a source, the one with the longer second piece is found. -/
theorem ofSource_longest_cut_of_manager :
    (∀ c ∈ "ManagerAddressLine".toList,
      Text.isUpper c = true ∨ Text.isLower c = true ∨ Text.isNumeric c = true) ∧
    "ManagerAddressLine".toList.countP Text.isUpper < 1000 ∧
    (∃ segments, Spells staff "app.Employee"
      ["Manager".toList, "Address".toList, "Line".toList] segments) ∧
    ∃ p, ofSource staff employee "ManagerAddressLine" = .ok p ∧
      p.toDotPath = "manager.addressLine" ∧
      ∃ ps, IsCut "ManagerAddressLine".toList ps ∧ Spells staff "app.Employee" ps p.segments ∧
        ∀ ps' segments', IsCut "ManagerAddressLine".toList ps' →
          Spells staff "app.Employee" ps' segments' →
          ps'.map List.length ≤ ps.map List.length := by
  have hwords : ∀ c ∈ "ManagerAddressLine".toList,
      Text.isUpper c = true ∨ Text.isLower c = true ∨ Text.isNumeric c = true := by
    have hall : ("ManagerAddressLine".toList.all fun c =>
        Text.isUpper c || (Text.isLower c || Text.isNumeric c)) = true := by decide +kernel
    simpa only [List.all_eq_true, Bool.or_eq_true] using hall
  have hcapitals : "ManagerAddressLine".toList.countP Text.isUpper < 1000 := by decide +kernel
  have hline : ∃ segments, Spells staff "app.Employee"
      ["Manager".toList, "Address".toList, "Line".toList] segments :=
    ⟨_, .cons (by rfl) (.cons (by rfl) (.cons (by rfl) .nil))⟩
  have hp : ofSource staff employee "ManagerAddressLine" =
      .ok ⟨[⟨"app.Employee", .toType .manyToOne "manager" "app.Employee"⟩,
        ⟨"app.Employee", .basic "addressLine" .string⟩], List.cons_ne_nil _ _⟩ := by cbv
  exact ⟨hwords, hcapitals, hline, _, hp, by cbv,
    (ofSource_longest_cut hwords hcapitals).2 _ hp⟩

end Jpql.PropertyPath
