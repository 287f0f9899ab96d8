import Jpql.Proofs.MethodName.Predicate

/-! Reading the name that spells a description. The subject ends at the first `By`, for nothing in
front of it has a capital B, and everything behind it is the predicate. -/

namespace Jpql.MethodName

/-! ### The subject -/

/-- A verb is found at the front of a name, and no other one is. -/
theorem finding_spec {verb : List Char} (h : verb ∈ findingVerbs) (rest : List Char) :
    stripAny? findingVerbs (verb ++ rest) = some rest ∧ stripAny? verbs (verb ++ rest) = some rest ∧
      Text.stripFront? "count".toList (verb ++ rest) = none ∧
      Text.stripFront? "exists".toList (verb ++ rest) = none ∧
      stripAny? ["delete".toList, "remove".toList] (verb ++ rest) = none := by
  simp only [findingVerbs, List.map_cons, List.map_nil, List.mem_cons, List.not_mem_nil,
    or_false] at h
  rcases h with rfl | rfl | rfl | rfl | rfl | rfl <;>
    simp [stripAny?, verbs, findingVerbs, Text.stripFront?]

theorem behindBy?_append {front : List Char} (h : ∀ c ∈ front, c ≠ 'B' ∧ c ≠ '\n')
    (rest : List Char) : behindBy? (front ++ ("By".toList ++ rest)) = some rest := by
  induction front with
  | nil => rfl
  | cons c front ih =>
    obtain ⟨⟨hc, hline⟩, hfront⟩ := List.forall_mem_cons.1 h
    have hnone : Text.stripFront? ['B', 'y'] (c :: (front ++ ("By".toList ++ rest))) = none := by
      rw [Text.stripFront?, if_neg (by simpa using hc.symm)]
    rw [List.cons_append, behindBy?, hnone]
    simpa [hline] using ih hfront

/-- The words in front of `By` are skipped. -/
theorem behindWords?_append {front : List Char} (h : ∀ c ∈ front, c ≠ 'B' ∧ c ≠ '\n')
    (hstart : ∀ c ∈ front.head?, Text.isUpperLetter c = true) (rest : List Char) :
    behindWords? (front ++ ("By".toList ++ rest)) = some rest := by
  cases front with
  | nil => rfl
  | cons c front =>
    obtain ⟨⟨hc, -⟩, hfront⟩ := List.forall_mem_cons.1 h
    have hnone : Text.stripFront? ['B', 'y'] (c :: (front ++ ("By".toList ++ rest))) = none := by
      rw [Text.stripFront?, if_neg (by simpa using hc.symm)]
    rw [List.cons_append]
    unfold behindWords?
    rw [hnone]
    simp only [hstart c rfl, if_true]
    exact behindBy?_append hfront rest

theorem isDigit_of_mem_text {n : Numeral} {c : Char} (h : c ∈ n.text) : c.isDigit = true := by
  rcases List.mem_append.1 h with h | h
  · rw [List.eq_of_mem_replicate h]
    rfl
  · exact Nat.isDigit_of_mem_toDigits (by decide) (by decide) h

theorem isDigit_of_mem_digits {l : Limit} {c : Char} (h : c ∈ l.digits) : c.isDigit = true := by
  unfold Limit.digits at h
  split at h
  next n _ => exact isDigit_of_mem_text h
  next => cases h

theorem foldl_replicate (zeros : Nat) :
    (List.replicate zeros '0').foldl (fun n c => 10 * n + (c.toNat - '0'.toNat)) 0 = 0 := by
  induction zeros with
  | zero => rfl
  | succ zeros ih => simpa [List.replicate_succ] using ih

theorem limitOf_digits (l : Limit) : limitOf l.digits = l.value := by
  have hdigits : l.digits.all Char.isDigit = true :=
    List.all_eq_true.2 fun c hc => isDigit_of_mem_digits hc
  unfold limitOf
  rw [hdigits, Bool.and_true]
  unfold Limit.digits Limit.value
  split
  next n _ =>
    have hne : n.text.isEmpty = false := by
      simp [Numeral.text, Nat.toDigits_ne_nil]
    have hvalue : n.text.foldl (fun n c => 10 * n + (c.toNat - '0'.toNat)) 0 = n.value := by
      rw [Numeral.text, List.foldl_append, foldl_replicate]
      exact Nat.ofDigitChars_toDigits (by decide) (by decide)
    rw [hne]
    simp only [Bool.not_false, if_true, hvalue, n.small]
  next => rfl

namespace Description

variable {owner : ManagedType} (d : Description owner)

/-- In a limit nothing can be taken for the start of `By` or of `Distinct`. -/
theorem mem_limitText {c : Char} (h : c ∈ d.limitText) : c ≠ 'B' ∧ c ≠ '\n' ∧ c ≠ 'D' := by
  have hword : ∀ w : LimitWord, ∀ c ∈ w.text.toList, c ≠ 'B' ∧ c ≠ '\n' ∧ c ≠ 'D' := by
    rintro (_ | _) <;> simp [LimitWord.text]
  unfold limitText at h
  split at h
  next l _ =>
    rcases List.mem_append.1 h with h | h
    · exact hword l.word c h
    · have hdigit := isDigit_of_mem_digits h
      refine ⟨?_, ?_, ?_⟩ <;> (rintro rfl; cases hdigit)
  next => cases h

theorem cutSubject_text : cutSubject (d.subject ++ d.predicate) = (d.subject, d.predicate) := by
  have hwords : ∀ c ∈ d.distinctText.toList ++ d.limitText, c ≠ 'B' ∧ c ≠ '\n' := by
    intro c hc
    rcases List.mem_append.1 hc with hc | hc
    · unfold distinctText at hc
      split at hc
      · have hdistinct : ∀ c ∈ "Distinct".toList, c ≠ 'B' ∧ c ≠ '\n' := by simp
        exact hdistinct c hc
      · cases hc
    · exact ⟨(d.mem_limitText hc).1, (d.mem_limitText hc).2.1⟩
  have hstart : ∀ c ∈ (d.distinctText.toList ++ d.limitText).head?, Text.isUpperLetter c = true := by
    unfold distinctText limitText
    split
    · intro c hc
      obtain rfl : 'D' = c := Option.some.inj hc
      rfl
    · split
      next l _ =>
        cases l.word <;>
        · intro c hc
          obtain rfl := Option.some.inj hc
          rfl
      next =>
        intro c hc
        cases hc
  have hbehind := behindWords?_append hwords hstart d.predicate
  have hsubject : d.subject ++ d.predicate =
      d.verb ++ (d.distinctText.toList ++ d.limitText ++ ("By".toList ++ d.predicate)) := by
    simp [subject]
  have hcut : (stripAny? verbs (d.subject ++ d.predicate)).bind behindWords? = some d.predicate := by
    rw [hsubject, (finding_spec d.finds _).2.1, Option.bind_some, hbehind]
  rw [cutSubject, hcut]
  simp

theorem stripFront?_distinct {rest : List Char} (h : 'D' ∉ rest) :
    (Text.stripFront? "Distinct".toList (d.distinctText.toList ++ rest)).getD
      (d.distinctText.toList ++ rest) = rest := by
  unfold distinctText
  split
  · rw [Text.stripFront?_append, Option.getD_some]
  · rw [String.toList_empty, List.nil_append, Text.stripFront?_eq_none.2, Option.getD_none]
    exact fun hstands => h (hstands.subset (by decide))

theorem limit?_subject : limit? d.subject = d.limit.map Limit.value := by
  have hrest : 'D' ∉ d.limitText ++ "By".toList := by
    rw [List.mem_append, not_or]
    exact ⟨fun h => (d.mem_limitText h).2.2 rfl, by decide⟩
  unfold limit?
  rw [subject, (finding_spec d.finds _).1]
  simp only [Option.bind_eq_bind, Option.bind_some, d.stripFront?_distinct hrest]
  unfold limitText
  cases d.limit with
  | none => rfl
  | some l =>
    have hword : stripAny? ["First".toList, "Top".toList]
        (l.word.text.toList ++ l.digits ++ "By".toList) = some (l.digits ++ "By".toList) := by
      cases l.word <;> simp [stripAny?, LimitWord.text, Text.stripFront?]
    have hdigits : ∀ c ∈ l.digits, Text.isDecimalDigit c = true := fun c hc =>
      Lexer.forall_digit (Text.isDecimalDigit · = true) (by decide) (isDigit_of_mem_digits hc)
    have htake : (l.digits ++ "By".toList).takeWhile Text.isDecimalDigit = l.digits := by
      rw [List.takeWhile_append_of_pos hdigits]
      exact List.append_nil _
    have hdrop : (l.digits ++ "By".toList).dropWhile Text.isDecimalDigit = "By".toList := by
      rw [List.dropWhile_append_of_pos hdigits]
      rfl
    have hbehind : behindWords? "By".toList = some [] := rfl
    simp only [hword, Option.bind_some, htake, hdrop, hbehind, limitOf_digits, Option.map_some]
    rfl

theorem contains_subject : Text.contains "Distinct".toList d.subject = d.distinct := by
  cases hdistinct : d.distinct with
  | true =>
    rw [Text.contains_eq_true]
    exact ⟨d.verb, d.limitText ++ "By".toList, by simp [subject, distinctText, hdistinct]⟩
  | false =>
    rw [Text.contains_eq_false]
    intro hin
    have hverb : ∀ verb ∈ findingVerbs, 'D' ∉ verb := by decide
    have hmem : 'D' ∈ d.subject := hin.subset (by decide)
    simp [subject, distinctText, hdistinct, hverb d.verb d.finds] at hmem
    exact (d.mem_limitText hmem).2.2 rfl

end Description

/-- The name of a finding method reads as what its description says: the flag, the limit, the
conditions of each alternative in order, and the sort. -/
theorem description_reads_back {m : Metamodel} {owner : ManagedType}
    (hknown : m.managedType? owner.name = some owner) (d : Description owner) :
    parse m owner d.text = .ok d.method := by
  obtain ⟨-, -, hcount, hexists, hdelete⟩ := finding_spec d.finds
    (d.distinctText.toList ++ (d.limitText ++ "By".toList))
  have halternatives := d.mapM_alternatives hknown
  rw [← Description.subject] at hcount hexists hdelete
  rw [parse, Description.text, String.toList_ofList, d.cutSubject_text]
  simp only [d.cutFirst?_predicate, d.contains_subject, d.limit?_subject, hcount, hexists, hdelete]
  unfold Description.predicate
  by_cases hunordered : d.orders = []
  · rw [if_pos (by simp [hunordered]), splitKeyword_unordered d.isChain_conditions]
    simp only [pure_bind, halternatives, Description.method, hunordered]
    rfl
  · have hclause : isBoundary d.clause = true := isBoundary_orders hunordered
    have hsort : parseSort m owner d.clause = .ok ⟨d.orders.map order⟩ :=
      parseSort_orders hknown hunordered
    have hchain : (words d.clause).IsChain Apart := isChain_orders d.orders
    rw [if_neg (by simpa using hunordered),
      splitKeyword_ordered d.isChain_conditions hchain hclause]
    simp only [pure_bind, halternatives, hsort, Description.method]
    rfl

/-! Attributes that look like parts of method names. -/

def event : ManagedType :=
  { name := "log.Event", entityName := "Event", isEntity := true
    attributes := [.basic "order" .integer, .basic "by" .string, .basic "ignore" .string] }

theorem capitalize_event : ∀ a ∈ event.attributes,
    ∃ w ∈ ["By", "Order", "Ignore", "Ignoring"], capitalize a.name.toList = w.toList := by
  decide

def eventNoun (a : Attribute) (h : a ∈ event.attributes) : Noun event :=
  { member := a
    found := by revert a; decide
    plain := by revert a; decide
    unreserved := by
      obtain ⟨w, hw, htext⟩ := capitalize_event a h
      rw [htext]
      exact notMem_reserved hw }

def eventDescription : Description event :=
  let order := eventNoun (.basic "order" .integer) (by decide)
  let creator := eventNoun (.basic "by" .string) (by decide)
  let ignore := eventNoun (.basic "ignore" .string) (by decide)
  { verb := "find".toList
    finds := by decide
    distinct := true
    limit := some ⟨.top, some ⟨2, 7, by decide⟩⟩
    alternatives :=
      [⟨[⟨order, some ⟨.isNotNull, "IsNotNull", by decide⟩, false⟩,
          ⟨creator, some ⟨.in, "In", by decide⟩, true⟩], by simp⟩,
        ⟨[⟨ignore, none, true⟩], by simp⟩]
    orders := [(creator, .desc), (order, .asc)] }

theorem description_reads_back_events :
    Metamodel.managedType? ⟨[event]⟩ event.name = some event ∧
      parse ⟨[event]⟩ event
        "findDistinctTop007ByOrderIsNotNullAndByInIgnoreCaseOrIgnoreIgnoreCaseOrderByByDescOrderAsc" =
          .ok eventDescription.method := by
  have htext : eventDescription.text =
      "findDistinctTop007ByOrderIsNotNullAndByInIgnoreCaseOrIgnoreIgnoreCaseOrderByByDescOrderAsc" :=
    rfl
  have hknown : Metamodel.managedType? ⟨[event]⟩ event.name = some event := by decide
  rw [← htext]
  exact ⟨hknown, description_reads_back hknown eventDescription⟩

end Jpql.MethodName
