import Jpql.Proofs.MethodName.Conditions

/-! The predicate of a method name taken apart. Its words are nouns, words of keywords and the words
that join them. The joining words stand nowhere else, and `By` stands behind `Order` only where the
order starts, so each cut falls where two pieces were joined. -/

namespace Jpql.MethodName

variable {m : Metamodel} {owner : ManagedType}

/-! ### Words of conditions -/

namespace Condition

variable (c : Condition owner)

theorem isBoundary_text : isBoundary c.text = true := isBoundary_append c.noun.isBoundary_text _

theorem startsWord_ignoreCaseText : StartsWord c.ignoreCaseText.toList := by
  rcases c.ignoreCaseText_cases with h | h
  · rw [h]
    exact startsWord_nil
  · rw [h]
    exact startsWord_of_isBoundary (by decide)

theorem words_text : words c.text =
    c.noun.text :: (words c.keywordText.toList ++ words c.ignoreCaseText.toList) := by
  rw [text, c.noun.words_text_append
    ((startsWord_keyword c.keywordText_mem).append c.startsWord_ignoreCaseText),
    words_append _ c.startsWord_ignoreCaseText]

theorem notMem_words_ending {w : String} (hw : w ∈ joints ++ ["By"]) :
    w.toList ∉ words c.keywordText.toList ++ words c.ignoreCaseText.toList := by
  have hignore : ∀ w ∈ joints ++ ["By"], w.toList ∉ words "IgnoreCase".toList := by decide
  have hother : w ∈ otherWords := (List.Sublist.append_left (by simp) joints).subset hw
  rw [List.mem_append, not_or]
  refine ⟨notMem_words_keyword c.keywordText_mem hother, ?_⟩
  rcases c.ignoreCaseText_cases with h | h
  · simp [h]
  · rw [h]
    exact hignore w hw

/-- No joining word is a word of a condition. -/
theorem notMem_words_text {w : String} (hw : w ∈ joints) : w.toList ∉ words c.text := by
  have hreserved : w ∈ reserved := List.mem_append_left _ (List.mem_append_left ["Asc", "Desc"] hw)
  rw [words_text, List.mem_cons, not_or]
  exact ⟨fun heq => c.noun.unreserved (List.mem_map.2 ⟨w, hreserved, heq⟩),
    c.notMem_words_ending (List.mem_append_left _ hw)⟩

theorem isChain_words : (words c.text).IsChain Apart := by
  rw [words_text]
  exact isChain_apart (c.notMem_words_ending (by simp))

end Condition

/-! ### Alternatives -/

namespace Alternative

variable (a : Alternative owner)

theorem isBoundary_text : isBoundary a.text = true :=
  isBoundary_intercalate _ (by simpa using a.nonempty)
    (List.forall_mem_map.2 fun c _ => c.isBoundary_text)

theorem splitAnd_text : splitAnd a.text = a.conditions.map Condition.text :=
  filter_splitKeyword_intercalate (by decide) (by decide) (by decide)
    (List.forall_mem_map.2 fun c _ =>
      ⟨c.isBoundary_text, c.notMem_words_text (w := "And") (by decide)⟩)

theorem words_text :
    words a.text = ["And".toList].intercalate (a.conditions.map fun c => words c.text) := by
  rw [text, words_intercalate (by decide) (List.forall_mem_map.2 fun c _ => c.isBoundary_text),
    List.map_map]
  rfl

theorem notMem_words_text {w : String} (hw : w ∈ joints) (hne : w ≠ "And") :
    w.toList ∉ words a.text := by
  rw [words_text]
  intro hmem
  rcases mem_of_mem_intercalate hmem with hmem | ⟨ws, hws, hmem⟩
  · exact hne (String.toList_inj.1 (List.mem_singleton.1 hmem))
  · obtain ⟨c, -, rfl⟩ := List.mem_map.1 hws
    exact c.notMem_words_text hw hmem

theorem isChain_words : (words a.text).IsChain Apart := by
  rw [words_text]
  exact isChain_apart_intercalate (by decide) (by decide)
    (List.forall_mem_map.2 fun c _ => c.isChain_words)

end Alternative

/-! ### The order -/

namespace Noun

variable (n : Noun owner)

theorem text_ne {w : String} (hw : w ∈ reserved) : n.text ≠ w.toList :=
  fun heq => n.unreserved (List.mem_map.2 ⟨w, hw, heq.symm⟩)

end Noun

/-- The text ends in a direction. -/
def Directed (cs : List Char) : Prop := ∃ direction, (directionText direction).toList <:+ cs

theorem ended_iff {block : List Char} :
    ((Text.stripFront? "csA".toList block).isSome ||
      (Text.stripFront? "cseD".toList block).isSome) = true ↔ Directed block.reverse := by
  have hstrip (direction : Direction) :
      (Text.stripFront? (directionText direction).toList.reverse block).isSome = true ↔
        (directionText direction).toList <:+ block.reverse := by
    rw [← Text.stripEnd?_isSome, Text.stripEnd?, List.reverse_reverse, Option.isSome_map]
  rw [Bool.or_eq_true]
  constructor
  · rintro (h | h)
    · exact ⟨.asc, (hstrip .asc).1 h⟩
    · exact ⟨.desc, (hstrip .desc).1 h⟩
  · rintro ⟨_ | _, h⟩
    · exact .inl ((hstrip .asc).2 h)
    · exact .inr ((hstrip .desc).2 h)

theorem directionBlocks_plain (block : List Char) {cs : List Char}
    (h : ∀ c ∈ cs, Text.isUpper c = false) (rest : List Char) :
    directionBlocks block (cs ++ rest) = directionBlocks (cs.reverse ++ block) rest := by
  induction cs generalizing block with
  | nil => rfl
  | cons c cs ih =>
    obtain ⟨hc, hcs⟩ := List.forall_mem_cons.1 h
    rw [List.cons_append, directionBlocks]
    simp only [hc, Bool.false_and, Bool.false_eq_true, if_false]
    rw [ih (c :: block) hcs]
    simp

/-- A word behind a direction starts a block. -/
theorem directionBlocks_cut {block : List Char} (hblock : Directed block.reverse) {c : Char}
    {cs : List Char} (hc : Text.isUpper c = true) (hcs : ∀ d ∈ cs, Text.isUpper d = false)
    (rest : List Char) :
    directionBlocks block (c :: cs ++ rest) =
      block.reverse :: directionBlocks (c :: cs).reverse rest := by
  rw [List.cons_append, directionBlocks]
  simp only [hc, ended_iff.2 hblock, Bool.and_self, if_true]
  rw [directionBlocks_plain [c] hcs, List.reverse_cons]

/-- Any other word goes on with the block. -/
theorem directionBlocks_keep {block : List Char} (hblock : ¬ Directed block.reverse) {c : Char}
    {cs : List Char} (hcs : ∀ d ∈ cs, Text.isUpper d = false) (rest : List Char) :
    directionBlocks block (c :: cs ++ rest) = directionBlocks ((c :: cs).reverse ++ block) rest := by
  rw [List.cons_append, directionBlocks]
  simp only [Bool.eq_false_iff.2 fun h => hblock (ended_iff.1 h), Bool.and_false,
    Bool.false_eq_true, if_false]
  rw [directionBlocks_plain (c :: block) hcs]
  simp

namespace Noun

variable (n : Noun owner)

theorem exists_text : ∃ c cs, n.text = c :: cs ∧ Text.isUpper c = true ∧
    ∀ d ∈ cs, Text.isUpper d = false := by
  obtain ⟨c, cs, -, htext, hc, hcs⟩ := n.exists_word
  exact ⟨c.toUpper, cs, htext, (letter_spec hc).2.1, fun d hd => isUpper_of_isPlain (hcs d hd)⟩

theorem not_directed : ¬ Directed n.text := by
  rintro ⟨direction, hdirection⟩
  have hstart : isBoundary (directionText direction).toList = true := by
    cases direction <;> decide
  refine n.text_ne (w := directionText direction) ?_ (n.eq_of_suffix hdirection hstart).symm
  refine List.mem_append_left _ ?_
  cases direction <;> decide

end Noun

theorem directed_reverse (o : Noun owner × Direction) :
    Directed (orderText o).reverse.reverse := by
  rw [List.reverse_reverse]
  exact ⟨o.2, List.suffix_append _ _⟩

/-- The direction stays with its noun. -/
theorem directionBlocks_direction (o : Noun owner × Direction) (rest : List Char) :
    directionBlocks o.1.text.reverse ((directionText o.2).toList ++ rest) =
      directionBlocks (orderText o).reverse rest := by
  obtain ⟨c, cs, htext, hcs⟩ : ∃ c cs, (directionText o.2).toList = c :: cs ∧
      ∀ d ∈ cs, Text.isUpper d = false := by
    have hlower : ∀ d ∈ ['e', 's', 'c'], Text.isUpper d = false := by
      rintro d hd
      fin_cases hd <;> rfl
    cases o.2
    · exact ⟨'A', ['s', 'c'], rfl, fun d hd => hlower d (List.mem_cons_of_mem _ hd)⟩
    · exact ⟨'D', ['e', 's', 'c'], rfl, hlower⟩
  have hopen : ¬ Directed o.1.text.reverse.reverse := by
    rw [List.reverse_reverse]
    exact o.1.not_directed
  rw [orderText, List.reverse_append, htext, directionBlocks_keep hopen hcs]

theorem directionBlocks_behind {block : List Char} (hblock : Directed block.reverse)
    (orders : List (Noun owner × Direction)) :
    directionBlocks block (orders.flatMap orderText) = block.reverse :: orders.map orderText := by
  induction orders generalizing block with
  | nil => rfl
  | cons o orders ih =>
    obtain ⟨c, cs, htext, hc, hcs⟩ := o.1.exists_text
    have hnext := ih (directed_reverse o)
    rw [List.flatMap_cons, orderText, List.append_assoc, htext, directionBlocks_cut hblock hc hcs,
      ← htext, directionBlocks_direction, hnext, List.reverse_reverse]
    rfl

/-- The blocks of an order clause are its orders. -/
theorem directionBlocks_orders {orders : List (Noun owner × Direction)} (hne : orders ≠ []) :
    directionBlocks [] (orders.flatMap orderText) = orders.map orderText := by
  obtain ⟨o, orders, rfl⟩ := List.exists_cons_of_ne_nil hne
  obtain ⟨c, cs, htext, hc, hcs⟩ := o.1.exists_text
  have hempty : ¬ Directed [].reverse := by
    rintro ⟨_ | _, h⟩ <;> exact absurd (List.suffix_nil.1 h) (by decide)
  have hnext := directionBlocks_behind (directed_reverse o) orders
  rw [List.flatMap_cons, orderText, List.append_assoc, htext, directionBlocks_keep hempty hcs,
    List.append_nil, ← htext, directionBlocks_direction, hnext, List.reverse_reverse]
  rfl

theorem cutDirection_orderText (o : Noun owner × Direction) :
    cutDirection (orderText o) = (o.1.text, o.2) := by
  obtain ⟨n, _ | _⟩ := o
  · have hasc : Text.stripEnd? "Asc".toList (orderText (n, .asc)) = some n.text :=
      Text.stripEnd?_eq_some.2 rfl
    rw [cutDirection, hasc]
  · have hasc : Text.stripEnd? "Asc".toList (orderText (n, .desc)) = none := by
      simp [orderText, directionText, Text.stripEnd?, Text.stripFront?]
    have hdesc : Text.stripEnd? "Desc".toList (orderText (n, .desc)) = some n.text :=
      Text.stripEnd?_eq_some.2 rfl
    rw [cutDirection, hasc, hdesc]

theorem orderOfBlock_orderText (hknown : m.managedType? owner.name = some owner)
    (o : Noun owner × Direction) : orderOfBlock m owner (orderText o) = .ok (order o) := by
  have hne : o.1.text.isEmpty = false := by
    obtain ⟨c, cs, htext, -, -⟩ := o.1.exists_text
    rw [htext]
    rfl
  rw [orderOfBlock, cutDirection_orderText]
  simp only [hne]
  rw [o.1.ofSource_text hknown]
  rfl

theorem mapM_map_ok {α β γ : Type} {f : β → Result γ} {g : α → β} {h : α → γ} {as : List α}
    (hok : ∀ a ∈ as, f (g a) = .ok (h a)) : (as.map g).mapM f = .ok (as.map h) := by
  induction as with
  | nil => rfl
  | cons a as ih =>
    obtain ⟨ha, has⟩ := List.forall_mem_cons.1 hok
    rw [List.map_cons, List.mapM_cons, ha, ih has]
    rfl

/-- An order clause reads as its orders. -/
theorem parseSort_orders (hknown : m.managedType? owner.name = some owner)
    {orders : List (Noun owner × Direction)} (hne : orders ≠ []) :
    parseSort m owner (orders.flatMap orderText) = .ok ⟨orders.map order⟩ := by
  rw [parseSort, directionBlocks_orders hne,
    mapM_map_ok fun o _ => orderOfBlock_orderText hknown o]
  rfl

theorem isBoundary_orders {orders : List (Noun owner × Direction)} (hne : orders ≠ []) :
    isBoundary (orders.flatMap orderText) = true := by
  obtain ⟨o, orders, rfl⟩ := List.exists_cons_of_ne_nil hne
  rw [List.flatMap_cons, orderText, List.append_assoc]
  exact isBoundary_append o.1.isBoundary_text _

theorem words_orders (orders : List (Noun owner × Direction)) :
    words (orders.flatMap orderText) =
      orders.flatMap fun o => [o.1.text, (directionText o.2).toList] := by
  have hdirection (direction : Direction) :
      words (directionText direction).toList = [(directionText direction).toList] ∧
        isBoundary (directionText direction).toList = true := by
    cases direction <;> decide
  induction orders with
  | nil => rfl
  | cons o orders ih =>
    have hrest : StartsWord (orders.flatMap orderText) := by
      by_cases hne : orders = []
      · rw [hne]
        exact startsWord_nil
      · exact startsWord_of_isBoundary (isBoundary_orders hne)
    rw [List.flatMap_cons, orderText, List.append_assoc,
      o.1.words_text_append (startsWord_append (hdirection o.2).2 _), words_append _ hrest,
      (hdirection o.2).1, ih]
    rfl

theorem isChain_orders (orders : List (Noun owner × Direction)) :
    (words (orders.flatMap orderText)).IsChain Apart := by
  rw [words_orders]
  induction orders with
  | nil => exact .nil
  | cons o orders ih =>
    have hdirection : (directionText o.2).toList ≠ "By".toList ∧
        (directionText o.2).toList ≠ "Order".toList := by
      cases o.2 <;> decide
    rw [List.flatMap_cons, List.cons_append, List.isChain_cons, List.cons_append, List.nil_append,
      List.isChain_cons]
    refine ⟨fun w hw _ => ?_, fun w _ horder => absurd horder hdirection.2, ih⟩
    obtain rfl := Option.some.inj hw
    exact hdirection.1

theorem notMem_words_orders (orders : List (Noun owner × Direction)) :
    "All".toList ∉ words (orders.flatMap orderText) := by
  have hdirection (direction : Direction) : "All".toList ≠ (directionText direction).toList := by
    cases direction <;> decide
  rw [words_orders]
  intro hmem
  obtain ⟨⟨n, direction⟩, -, hmem⟩ := List.mem_flatMap.1 hmem
  rcases List.mem_pair.1 hmem with h | h
  · exact n.text_ne (w := "All") (List.mem_append_left _ (by decide)) h.symm
  · exact hdirection direction h

/-! ### The predicate -/

namespace Description

variable (d : Description owner)

theorem splitOr_conditions : splitOr d.conditions = d.alternatives.map Alternative.text :=
  filter_splitKeyword_intercalate (by decide) (by decide) (by decide)
    (List.forall_mem_map.2 fun a _ =>
      ⟨a.isBoundary_text, a.notMem_words_text (w := "Or") (by decide) (by decide)⟩)

theorem words_conditions :
    words d.conditions = ["Or".toList].intercalate (d.alternatives.map fun a => words a.text) := by
  rw [conditions,
    words_intercalate (by decide) (List.forall_mem_map.2 fun a _ => a.isBoundary_text), List.map_map]
  rfl

theorem isChain_conditions : (words d.conditions).IsChain Apart := by
  rw [words_conditions]
  exact isChain_apart_intercalate (by decide) (by decide)
    (List.forall_mem_map.2 fun a _ => a.isChain_words)

theorem notMem_words_conditions : "All".toList ∉ words d.conditions := by
  rw [words_conditions]
  intro hmem
  rcases mem_of_mem_intercalate hmem with hmem | ⟨ws, hws, hmem⟩
  · exact absurd (List.mem_singleton.1 hmem) (by decide)
  · obtain ⟨a, -, rfl⟩ := List.mem_map.1 hws
    exact a.notMem_words_text (by decide) (by decide) hmem

theorem notMem_words_predicate : "All".toList ∉ words d.predicate := by
  unfold predicate
  split
  next => exact d.notMem_words_conditions
  next hne =>
    have hclause : isBoundary d.clause = true := isBoundary_orders (by simpa using hne)
    have horder : isBoundary "OrderBy".toList = true := by decide
    have hall : "All".toList ∉ words "OrderBy".toList := by decide
    rw [words_append _ (startsWord_append horder _),
      words_append _ (startsWord_of_isBoundary hclause), List.mem_append, List.mem_append]
    rintro (h | h | h)
    · exact d.notMem_words_conditions h
    · exact hall h
    · exact notMem_words_orders d.orders h

/-- The predicate does not ignore case as a whole. -/
theorem cutFirst?_predicate : Text.cutFirst? allIgnoreCaseWords d.predicate = none := by
  have hwords : ∀ w ∈ allIgnoreCaseWords, ∃ v, w = "All".toList ++ v ∧ isBoundary v = true := by
    intro w hw
    rcases List.mem_pair.1 hw with rfl | rfl
    · exact ⟨"IgnoringCase".toList, by decide⟩
    · exact ⟨"IgnoreCase".toList, by decide⟩
  refine Text.cutFirst?_eq_none.2 fun w hw => ?_
  obtain ⟨v, rfl, hv⟩ := hwords w hw
  rintro ⟨before, behind, heq⟩
  refine d.notMem_words_predicate ?_
  have hall : isBoundary "All".toList = true := by decide
  rw [← heq, List.append_assoc, List.append_assoc, words_append _ (startsWord_append hall _),
    words_append _ (startsWord_append hv behind)]
  exact List.mem_append_right _ (List.mem_append_left _ (by decide))

/-- Each alternative reads as the conditions it has. -/
theorem mapM_alternatives (hknown : m.managedType? owner.name = some owner) :
    (splitOr d.conditions).mapM (fun alternative =>
      (splitAnd alternative).mapM fun part => Part.parse m owner false (String.ofList part)) =
        .ok d.method.alternatives := by
  rw [splitOr_conditions]
  refine mapM_map_ok fun a _ => ?_
  rw [a.splitAnd_text]
  exact mapM_map_ok fun c _ => c.parse_text hknown

end Description

end Jpql.MethodName
