import Jpql.Proofs.MethodName.Description
import Jpql.Proofs.MethodName.Words
import Jpql.Proofs.PropertyPath
import Jpql.Proofs.Token.Lexing

/-! Conditions read back. A noun is one word, and no operator has a keyword that ends in it, so the
operator found at the end of a condition is the one found in its keyword alone. Behind the noun stand
keywords only, of which there are few enough to look at all of them. -/

namespace Jpql

namespace MethodName

/-! ### Nouns -/

theorem forall_plain (P : Char → Prop) (hletter : ∀ n ∈ List.range' 97 26, P (Char.ofNat n))
    (hdigit : ∀ n ∈ List.range' 48 10, P (Char.ofNat n)) {c : Char} (h : isPlain c = true) : P c := by
  rcases Bool.or_eq_true_iff.1 h with h | h
  · obtain ⟨hlow, hhigh⟩ : 97 ≤ c.toNat ∧ c.toNat ≤ 122 := by
      simpa [Char.isLower, UInt32.le_iff_toNat_le] using h
    exact Lexer.forall_char_range P 97 26 hletter hlow (by omega)
  · exact Lexer.forall_digit P hdigit h

theorem isBoundary_of_isPlain {c : Char} (h : isPlain c = true) : isBoundary [c] = false :=
  forall_plain (isBoundary [·] = false) (by decide) (by decide +kernel) h

theorem uncut_of_isPlain {c : Char} (h : isPlain c = true) : c ≠ '_' ∧ c ≠ '.' :=
  forall_plain (fun c => c ≠ '_' ∧ c ≠ '.') (by decide) (by decide +kernel) h

/-- What a lower-case letter and its capital are. -/
theorem letter_spec {c : Char} (h : c.isLower = true) :
    isPlain c = true ∧ Text.isUpper c.toUpper = true ∧ c.toUpper ≠ '_' ∧ c.toUpper ≠ '.' ∧
      Text.lowerOf c.toUpper = [c] ∧ Text.lowerOf c = [c] := by
  obtain ⟨hlow, hhigh⟩ : 97 ≤ c.toNat ∧ c.toNat ≤ 122 := by
    simpa [Char.isLower, UInt32.le_iff_toNat_le] using h
  exact Lexer.forall_char_range (fun c => isPlain c = true ∧ Text.isUpper c.toUpper = true ∧
    c.toUpper ≠ '_' ∧ c.toUpper ≠ '.' ∧ Text.lowerOf c.toUpper = [c] ∧ Text.lowerOf c = [c])
    97 26 (by decide) hlow (by omega)

theorem isUpper_of_isPlain {c : Char} (h : isPlain c = true) : Text.isUpper c = false :=
  (Bool.or_eq_false_iff.1 (isBoundary_of_isPlain h)).1

theorem decapitalize_plain {b c : Char} {cs : List Char} (hlower : Text.lowerOf b = [c])
    (hcs : ∀ d ∈ cs, isPlain d = true) : PropertyPath.decapitalize (b :: cs) = c :: cs := by
  cases cs with
  | nil => exact hlower
  | cons d cs => simp [PropertyPath.decapitalize, isUpper_of_isPlain (hcs d (by simp)), hlower]

variable {m : Metamodel} {owner : ManagedType} (n : Noun owner)

namespace Noun

theorem exists_word : ∃ c cs, n.member.name.toList = c :: cs ∧ n.text = c.toUpper :: cs ∧
    c.isLower = true ∧ ∀ d ∈ cs, isPlain d = true := by
  have hplain := n.plain
  cases hname : n.member.name.toList with
  | nil => simp [hname, isPlainWord] at hplain
  | cons c cs =>
    rw [hname, isPlainWord, Bool.and_eq_true, List.all_eq_true] at hplain
    exact ⟨c, cs, rfl, by rw [text, hname, capitalize], hplain⟩

theorem isBoundary_text : isBoundary n.text = true := by
  obtain ⟨c, cs, -, htext, hc, -⟩ := n.exists_word
  rw [htext, isBoundary, (letter_spec hc).2.1, Bool.true_or]

/-- A noun is one word. -/
theorem words_text_append {rest : List Char} (hrest : StartsWord rest) :
    words (n.text ++ rest) = n.text :: words rest := by
  obtain ⟨c, cs, -, htext, -, hcs⟩ := n.exists_word
  rw [htext, words_cons (fun d hd => isBoundary_of_isPlain (hcs d hd)) hrest]

/-- An end of a noun that starts with a capital is the whole noun. -/
theorem eq_of_suffix {s : List Char} (hs : s <:+ n.text) (hstart : isBoundary s = true) :
    s = n.text := by
  obtain ⟨c, cs, -, htext, -, hcs⟩ := n.exists_word
  rw [htext] at hs ⊢
  exact eq_of_suffix_word (fun d hd => isBoundary_of_isPlain (hcs d hd)) hs hstart

/-- The capitalised spelling of an attribute leads to it. -/
theorem ofSource_text (hknown : m.managedType? owner.name = some owner) :
    PropertyPath.ofSource m owner (String.ofList n.text) = .ok n.path := by
  obtain ⟨c, cs, hname, htext, hc, hcs⟩ := n.exists_word
  obtain ⟨-, hupper, hunderscore, hdot, hlower, -⟩ := letter_spec hc
  refine PropertyPath.ofSource_attribute hknown n.found ?_ ?_ ?_
  · simp [htext]
  · rw [String.toList_ofList, htext]
    exact List.forall_mem_cons.2 ⟨⟨hunderscore, hdot⟩, fun d hd => uncut_of_isPlain (hcs d hd)⟩
  · rw [String.toList_ofList, htext, hname]
    exact decapitalize_plain hlower hcs

/-- So does its name. -/
theorem ofSource_name (hknown : m.managedType? owner.name = some owner) :
    PropertyPath.ofSource m owner n.member.name = .ok n.path := by
  obtain ⟨c, cs, hname, -, hc, hcs⟩ := n.exists_word
  obtain ⟨hplain, -, -, -, -, hlower⟩ := letter_spec hc
  refine PropertyPath.ofSource_attribute hknown n.found ?_ ?_ ?_
  · simp [hname]
  · rw [hname]
    exact List.forall_mem_cons.2 ⟨uncut_of_isPlain hplain, fun d hd => uncut_of_isPlain (hcs d hd)⟩
  · rw [hname]
    exact decapitalize_plain hlower hcs

/-- An end of a noun with something behind it that starts with a capital. -/
theorem suffix_text_append {k rest : List Char} (hk : isBoundary k = true) :
    k <:+ n.text ++ rest ↔ k <:+ rest ∨ k = n.text ++ rest := by
  constructor
  · rintro ⟨front, heq⟩
    rcases List.append_eq_append_iff.1 heq with ⟨s, htext, rfl⟩ | ⟨s, -, rfl⟩
    · cases s with
      | nil => exact .inl List.suffix_rfl
      | cons c s => exact .inr (by rw [n.eq_of_suffix ⟨front, htext.symm⟩ hk])
    · exact .inl (List.suffix_append s k)
  · rintro (h | rfl)
    · exact h.trans (List.suffix_append _ _)
    · exact List.suffix_rfl

end Noun

/-! ### Operators -/

theorem mem_all (op : Operator) : op ∈ Operator.all := by cases op <;> decide

theorem mem_keywordTexts {op : Operator} {k : String} (h : k ∈ op.keywords) : k ∈ keywordTexts :=
  List.mem_flatMap.2 ⟨op, mem_all op, h⟩

/-- The operators in the order of detection, with the letters of their keywords. -/
def keywordTable : List (Operator × List (List Char)) :=
  Operator.all.map fun op => (op, op.keywords.map String.toList)

/-- Words that join conditions or stand for all of them. -/
def joints : List String := ["And", "Or", "All"]

/-- Words of a method name that are not words of keywords. -/
def otherWords : List String := joints ++ ["By", "Order", "Ignore", "Ignoring"]

/-- Of all operators the first with a keyword at the end of a keyword is its own, and it strips the
whole. Keywords have none of the other words in them. If a keyword is a single word, or another
keyword with a word in front, then this first word is a keyword too. -/
theorem keywordTable_spec : ∀ e ∈ keywordTable, ∀ k ∈ e.2,
    (keywordTable.find? fun e' => e'.2.any fun k' => (Text.stripEnd? k' k).isSome).map Prod.fst =
      some e.1 ∧
    (e.2.findSome? fun k' => Text.stripEnd? k' k) = some [] ∧
    isBoundary k = true ∧ (∀ w ∈ otherWords, w.toList ∉ words k) ∧
    ¬ "Case".toList <+: k ++ "IgnoreCase".toList ∧
    ((words k).tail.flatten ∈ [] :: keywordTexts.map String.toList →
      (words k).headD [] ∈ keywordTexts.map String.toList) := by
  -- The keywords are spelled out first, for then the rest is soon checked.
  simp only [keywordTable, keywordTexts, otherWords, joints, Operator.all, Operator.keywords,
    List.flatMap_cons, List.flatMap_nil, List.append_nil, List.cons_append, List.nil_append,
    List.map_cons, List.map_nil, String.reduceToList]
  decide

theorem mem_keywordTable (op : Operator) : (op, op.keywords.map String.toList) ∈ keywordTable :=
  List.mem_map.2 ⟨op, mem_all op, rfl⟩

theorem ofPart_keyword {op : Operator} {k : String} (h : k ∈ op.keywords) :
    Operator.ofPart k = op := by
  have hfirst := (keywordTable_spec _ (mem_keywordTable op) _ (List.mem_map_of_mem h)).1
  have hsupports : (fun op : Operator => (op.keywords.map String.toList).any fun k' =>
      (Text.stripEnd? k' k.toList).isSome) = (·.supports k) := by
    funext op
    rw [List.any_map]
    rfl
  rw [keywordTable, List.find?_map, Option.map_map] at hfirst
  obtain ⟨op', hfind, rfl⟩ := Option.map_eq_some_iff.1 hfirst
  rw [Operator.ofPart, ← hsupports]
  exact congrArg (Option.getD · .simpleProperty) hfind

theorem stripped_keyword {op : Operator} {k : String} (h : k ∈ op.keywords) :
    (op.keywords.findSome? fun k' => Text.stripEnd? k'.toList k.toList) = some [] := by
  have hstripped := (keywordTable_spec _ (mem_keywordTable op) _ (List.mem_map_of_mem h)).2.1
  rwa [List.findSome?_map] at hstripped

/-- What is true of a keyword whatever its operator is. -/
theorem keyword_spec {k : String} (hk : k ∈ keywordTexts) : isBoundary k.toList = true ∧
    (∀ w ∈ otherWords, w.toList ∉ words k.toList) ∧
    ¬ "Case".toList <+: k.toList ++ "IgnoreCase".toList ∧
    ((words k.toList).tail.flatten ∈ [] :: keywordTexts.map String.toList →
      (words k.toList).headD [] ∈ keywordTexts.map String.toList) := by
  obtain ⟨op, -, hop⟩ := List.mem_flatMap.1 hk
  exact (keywordTable_spec _ (mem_keywordTable op) _ (List.mem_map_of_mem hop)).2.2

theorem isBoundary_keyword {k : String} (hk : k ∈ keywordTexts) : isBoundary k.toList = true :=
  (keyword_spec hk).1

theorem startsWord_keyword {k : String} (hk : k ∈ "" :: keywordTexts) : StartsWord k.toList := by
  rcases List.mem_cons.1 hk with rfl | hk
  · exact startsWord_nil
  · exact startsWord_of_isBoundary (isBoundary_keyword hk)

theorem notMem_words_keyword {k w : String} (hk : k ∈ "" :: keywordTexts)
    (hw : w ∈ otherWords) : w.toList ∉ words k.toList := by
  rcases List.mem_cons.1 hk with rfl | hk
  · simp
  · exact (keyword_spec hk).2.1 w hw

/-- Attributes may be named like a word with a meaning elsewhere in a method name. -/
theorem notMem_reserved {w : String} (hw : w ∈ ["By", "Order", "Ignore", "Ignoring"]) :
    w.toList ∉ reserved.map String.toList := by
  have hjoints : ∀ w ∈ ["By", "Order", "Ignore", "Ignoring"],
      words w.toList = [w.toList] ∧
        w.toList ∉ ["And", "Or", "All", "Asc", "Desc"].map String.toList := by
    decide
  rw [reserved, List.map_append, List.mem_append, not_or]
  refine ⟨(hjoints w hw).2, fun hmem => ?_⟩
  obtain ⟨k, hk, heq⟩ := List.mem_map.1 hmem
  have hnot := (keyword_spec hk).2.1 w (List.mem_append_right _ hw)
  rw [heq, (hjoints w hw).1] at hnot
  exact hnot (by simp)

/-- A noun in front of a keyword does not make a longer one. -/
theorem noun_append_ne {k rest : String} (hk : k ∈ keywordTexts)
    (hrest : rest ∈ "" :: keywordTexts) : k.toList ≠ n.text ++ rest.toList := by
  intro heq
  have hwords := n.words_text_append (startsWord_keyword hrest)
  have hfirst := (keyword_spec hk).2.2.2
  rw [heq, hwords, List.tail_cons, flatten_words, List.headD_cons] at hfirst
  obtain ⟨w, hw, htext⟩ := List.mem_map.1 (hfirst (List.mem_map_of_mem hrest))
  exact n.unreserved (List.mem_map.2 ⟨w, List.mem_append_right _ hw, htext⟩)

theorem supports_iff {op : Operator} {part : String} :
    op.supports part = true ↔ ∃ k ∈ op.keywords, k.toList <:+ part.toList := by
  simp [Operator.supports, Text.stripEnd?_isSome]

theorem ofPart_empty : Operator.ofPart "" = .simpleProperty := by
  have hnone : Operator.all.find? (·.supports "") = none := by
    refine List.find?_eq_none.2 fun op _ hsupports => ?_
    obtain ⟨k, hk, hsuffix⟩ := supports_iff.1 hsupports
    have hstart := isBoundary_keyword (mem_keywordTexts hk)
    rw [List.suffix_nil.1 hsuffix] at hstart
    cases hstart
  rw [Operator.ofPart, hnone]
  rfl

/-- The operator of a noun with a keyword is that of the keyword. -/
theorem ofPart_noun {rest : String} (hrest : rest ∈ "" :: keywordTexts) :
    Operator.ofPart (String.ofList (n.text ++ rest.toList)) = Operator.ofPart rest := by
  have hsupports (op : Operator) :
      op.supports (String.ofList (n.text ++ rest.toList)) = op.supports rest := by
    rw [Bool.eq_iff_iff, supports_iff, supports_iff, String.toList_ofList]
    refine exists_congr fun k => and_congr_right fun hk => ?_
    have hk := mem_keywordTexts hk
    rw [n.suffix_text_append (isBoundary_keyword hk)]
    exact or_iff_left (noun_append_ne n hk hrest)
  rw [Operator.ofPart, Operator.ofPart, funext hsupports]

/-- A word that starts with a capital is stripped from behind a text without any. -/
theorem stripEnd?_append {front rest k : List Char} (hfront : ∀ c ∈ front, isPlain c = true)
    (hk : isBoundary k = true) :
    Text.stripEnd? k (front ++ rest) = (Text.stripEnd? k rest).map (front ++ ·) := by
  cases hrest : Text.stripEnd? k rest with
  | some behind =>
    rw [Option.map_some, Text.stripEnd?_eq_some, List.append_assoc, Text.stripEnd?_eq_some.1 hrest]
  | none =>
    rw [Option.map_none, Text.stripEnd?_eq_none]
    rintro ⟨front', heq⟩
    rcases List.append_eq_append_iff.1 heq with ⟨s, rfl, rfl⟩ | ⟨s, -, rfl⟩
    · cases s with
      | nil => exact Text.stripEnd?_eq_none.1 hrest List.suffix_rfl
      | cons c s =>
        have hc := isBoundary_of_isPlain (hfront c (by simp))
        rw [show isBoundary [c] = true from hk] at hc
        cases hc
    · exact Text.stripEnd?_eq_none.1 hrest (List.suffix_append s k)

theorem findSome?_stripEnd?_append {front : List Char} (hfront : ∀ c ∈ front, isPlain c = true)
    (rest : List Char) {ks : List String} (hks : ∀ k ∈ ks, isBoundary k.toList = true) :
    (ks.findSome? fun k => Text.stripEnd? k.toList (front ++ rest)) =
      (ks.findSome? fun k => Text.stripEnd? k.toList rest).map (front ++ ·) := by
  induction ks with
  | nil => rfl
  | cons k ks ih =>
    obtain ⟨hk, hks⟩ := List.forall_mem_cons.1 hks
    rw [List.findSome?_cons, List.findSome?_cons, stripEnd?_append hfront hk, ih hks]
    cases Text.stripEnd? k.toList rest <;> rfl

/-- The property of a noun with or without a keyword is the attribute of the noun. -/
theorem propertyOf_noun {op : Operator} {rest : String}
    (h : (op.keywords.findSome? fun k => Text.stripEnd? k.toList rest.toList).getD rest.toList = []) :
    op.propertyOf (String.ofList (n.text ++ rest.toList)) = n.member.name := by
  obtain ⟨c, cs, hname, htext, hc, hcs⟩ := n.exists_word
  obtain ⟨hplain, -, -, -, hlower, -⟩ := letter_spec hc
  have hcandidate : Operator.uncapitalize (n.text ++ rest.toList) =
      n.member.name.toList ++ rest.toList := by
    rw [htext, hname, List.cons_append, Operator.uncapitalize, hlower]
    rfl
  have hfront : ∀ d ∈ n.member.name.toList, isPlain d = true := by
    rw [hname]
    exact List.forall_mem_cons.2 ⟨hplain, hcs⟩
  rw [Operator.propertyOf, String.toList_ofList, hcandidate, findSome?_stripEnd?_append hfront _
    fun k hk => isBoundary_keyword (mem_keywordTexts hk)]
  rw [String.ext_iff, String.toList_ofList]
  cases hstripped : op.keywords.findSome? fun k => Text.stripEnd? k.toList rest.toList with
  | none => simpa [hstripped] using h
  | some front => simpa [hstripped] using h

/-! ### Conditions -/

theorem not_starts_case {k : String} (hk : k ∈ "" :: keywordTexts) {rest : List Char}
    (hrest : rest = [] ∨ rest = "IgnoreCase".toList) : ¬ "Case".toList <+: k.toList ++ rest := by
  have hlong : ¬ "Case".toList <+: k.toList ++ "IgnoreCase".toList := by
    rcases List.mem_cons.1 hk with rfl | hk
    · decide
    · exact (keyword_spec hk).2.2.1
  rcases hrest with rfl | rfl
  · rw [List.append_nil]
    exact fun h => hlong (h.trans (List.prefix_append _ _))
  · exact hlong

/-- What ignores case is found behind a noun and a keyword, or not at all. -/
theorem cutFirst?_ignoreCaseWords {k : String} (hk : k ∈ "" :: keywordTexts) {rest : List Char}
    (hrest : rest = [] ∨ rest = "IgnoreCase".toList) :
    Text.cutFirst? Part.ignoreCaseWords (n.text ++ k.toList ++ rest) =
      (Text.cutFirst? Part.ignoreCaseWords rest).map fun (before, behind) =>
        (n.text ++ k.toList ++ before, behind) := by
  have hwords : ∀ w ∈ Part.ignoreCaseWords, ∃ v : String, w = v.toList ++ "Case".toList ∧
      v ∈ otherWords ∧ isBoundary v.toList = true ∧
      words v.toList = [v.toList] := by
    intro w hw
    rcases List.mem_pair.1 hw with rfl | rfl
    · exact ⟨"Ignoring", by decide⟩
    · exact ⟨"Ignore", by decide⟩
  have hstart : StartsWord rest := by
    rcases hrest with rfl | rfl
    · exact startsWord_nil
    · exact startsWord_of_isBoundary (by decide)
  refine Text.cutFirst?_append fun s hs hne w hw => ?_
  rintro ⟨behind, heq⟩
  obtain ⟨v, rfl, hv, hcapital, hword⟩ := hwords w hw
  have hsuffix : words s <:+ n.text :: words k.toList := by
    have hs' : StartsWord s := by
      rw [List.append_assoc] at heq
      exact startsWord_of_append_eq hcapital heq
    rw [← n.words_text_append (startsWord_keyword hk)]
    exact words_suffix hs hs'
  have hcase : isBoundary "Case".toList = true := by decide
  have hreading := congrArg words heq
  rw [List.append_assoc, words_append _ (startsWord_append hcase behind), hword, words_append _ hstart,
    List.singleton_append] at hreading
  rcases List.suffix_cons_iff.1 hsuffix with hall | hk'
  · -- The noun is the first of the two words, so the other one would stand behind it.
    rw [hall, List.cons_append, ← words_append _ hstart] at hreading
    exact not_starts_case hk hrest ⟨behind, eq_of_words (List.cons.inj hreading).2⟩
  · obtain ⟨u, us, hu⟩ := List.exists_cons_of_ne_nil (words_ne_nil hne)
    rw [hu, List.cons_append] at hreading
    obtain rfl := (List.cons.inj hreading).1
    exact notMem_words_keyword hk hv (hk'.subset (by simp [hu]))

namespace Condition

variable (c : Condition owner)

theorem keywordText_mem : c.keywordText ∈ "" :: keywordTexts := by
  unfold keywordText
  split
  next k _ => exact List.mem_cons_of_mem _ (mem_keywordTexts k.announces)
  next => exact List.mem_cons_self

theorem ignoreCaseText_cases :
    c.ignoreCaseText.toList = [] ∨ c.ignoreCaseText.toList = "IgnoreCase".toList := by
  unfold ignoreCaseText
  split <;> simp

theorem ofPart_keywordText : Operator.ofPart c.keywordText = c.operator := by
  unfold keywordText operator
  split
  next k _ => exact ofPart_keyword k.announces
  next => exact ofPart_empty

theorem propertyOf_text :
    c.operator.propertyOf (String.ofList (c.noun.text ++ c.keywordText.toList)) =
      c.noun.member.name := by
  refine propertyOf_noun c.noun ?_
  unfold keywordText operator
  split
  next k _ => rw [stripped_keyword k.announces, Option.getD_some]
  next => rfl

/-- A condition reads as what it says. -/
theorem parse_text (hknown : m.managedType? owner.name = some owner) :
    Part.parse m owner false (String.ofList c.text) = .ok c.part := by
  have hcut : Text.cutFirst? Part.ignoreCaseWords c.text =
      if c.ignoreCase then some (c.noun.text ++ c.keywordText.toList, []) else none := by
    rw [text, ← List.append_assoc,
      cutFirst?_ignoreCaseWords c.noun c.keywordText_mem c.ignoreCaseText_cases]
    unfold ignoreCaseText
    split
    · rw [show Text.cutFirst? Part.ignoreCaseWords "IgnoreCase".toList = some ([], []) by decide,
        Option.map_some]
      simp only [List.append_nil]
    · rfl
  have hproperty := c.propertyOf_text
  have hstripped : Operator.ofPart (String.ofList (c.noun.text ++ c.keywordText.toList)) =
      c.operator := by rw [ofPart_noun c.noun c.keywordText_mem, c.ofPart_keywordText]
  rw [Part.parse, String.toList_ofList, hcut]
  cases hignore : c.ignoreCase with
  | true =>
    simp only [if_true, List.append_nil]
    rw [hstripped, hproperty, c.noun.ofSource_name hknown]
    simp only [Condition.part, hignore]
    rfl
  | false =>
    have htext : c.text = c.noun.text ++ c.keywordText.toList := by
      simp [text, ignoreCaseText, hignore]
    simp only [htext, Bool.false_eq_true, if_false]
    rw [hstripped, hproperty, c.noun.ofSource_name hknown]
    simp only [Condition.part, htext, hignore]
    rfl

end Condition

end MethodName

end Jpql
