import Jpql.MethodName
import Jpql.Proofs.Text.Search

/-! Method names as words. A word starts with a capital and goes on up to the next one, so that a
keyword in front of a capital covers whole words. Cutting a text at a keyword then comes down to
finding the words of the keyword among those of the text. -/

namespace Jpql.MethodName

variable {cs front rest : List Char}

/-- The words of a text, cut in front of each capital. -/
def words (cs : List Char) : List (List Char) := cs.splitBy fun _ c => !isBoundary [c]

/-- The text is empty or starts with a capital. -/
def StartsWord (cs : List Char) : Prop := ∀ c ∈ cs.head?, isBoundary [c] = true

theorem startsWord_nil : StartsWord [] := by
  intro c hc
  cases hc

theorem startsWord_of_isBoundary (h : isBoundary cs = true) : StartsWord cs := by
  cases cs with
  | nil => cases h
  | cons c cs =>
    intro d hd
    obtain rfl := Option.some.inj hd
    exact h

theorem isBoundary_append (h : isBoundary front = true) (rest : List Char) :
    isBoundary (front ++ rest) = true := by
  cases front with
  | nil => cases h
  | cons c front => exact h

theorem isBoundary_intercalate (sep : List Char) {pieces : List (List Char)} (hne : pieces ≠ [])
    (h : ∀ piece ∈ pieces, isBoundary piece = true) :
    isBoundary (sep.intercalate pieces) = true := by
  rcases pieces with _ | ⟨piece, _ | ⟨next, pieces⟩⟩
  · exact absurd rfl hne
  · simpa using h
  · rw [List.intercalate_cons_cons, List.append_assoc]
    exact isBoundary_append (h piece (by simp)) _

theorem StartsWord.append (hfront : StartsWord front) (hrest : StartsWord rest) :
    StartsWord (front ++ rest) := by
  cases front with
  | nil => exact hrest
  | cons c front => exact hfront

theorem startsWord_append (hfront : isBoundary front = true) (rest : List Char) :
    StartsWord (front ++ rest) := startsWord_of_isBoundary (isBoundary_append hfront rest)

theorem startsWord_of_append_eq {s behind : List Char} (hfront : isBoundary front = true)
    (h : front ++ rest = s ++ behind) : StartsWord s := by
  cases s with
  | nil => exact startsWord_nil
  | cons c s =>
    cases front with
    | nil => cases hfront
    | cons d front =>
      obtain rfl : d = c := (List.cons.inj h).1
      exact startsWord_of_isBoundary hfront

@[simp] theorem words_nil : words [] = [] := rfl

theorem words_ne_nil (h : cs ≠ []) : words cs ≠ [] := List.splitBy_ne_nil.2 h

theorem flatten_words (cs : List Char) : (words cs).flatten = cs := List.flatten_splitBy _ cs

theorem words_append (front : List Char) (h : StartsWord rest) :
    words (front ++ rest) = words front ++ words rest := by
  refine List.splitBy_append fun c _ d hd => ?_
  simp [h d hd]

theorem words_word {c : Char} (h : ∀ d ∈ cs, isBoundary [d] = false) :
    words (c :: cs) = [c :: cs] := by
  refine List.splitBy_of_isChain (by simp) ?_
  induction cs generalizing c with
  | nil => exact .singleton c
  | cons d cs ih =>
    obtain ⟨hd, hcs⟩ := List.forall_mem_cons.1 h
    exact .cons_cons (by simp [hd]) (ih hcs)

/-- The word in front of further words. -/
theorem words_cons {c : Char} (h : ∀ d ∈ cs, isBoundary [d] = false) (hrest : StartsWord rest) :
    words (c :: cs ++ rest) = (c :: cs) :: words rest := by
  rw [words_append _ hrest, words_word h, List.singleton_append]

/-- The words of the end of a text that starts with a capital. -/
theorem words_suffix {s : List Char} (hs : s <:+ cs) (hstart : StartsWord s) :
    words s <:+ words cs := by
  obtain ⟨front, rfl⟩ := hs
  rw [words_append front hstart]
  exact List.suffix_append _ _

/-- An end of a word that starts with a capital is the whole word. -/
theorem eq_of_suffix_word {c : Char} {s : List Char} (h : ∀ d ∈ cs, isBoundary [d] = false)
    (hs : s <:+ c :: cs) (hstart : isBoundary s = true) : s = c :: cs := by
  rcases List.suffix_cons_iff.1 hs with heq | hs
  · exact heq
  · cases s with
    | nil => cases hstart
    | cons d s =>
      have hd := h d (hs.subset (by simp))
      rw [show isBoundary [d] = true from hstart] at hd
      cases hd

theorem eq_of_words {cs ds : List Char} (h : words cs = words ds) : cs = ds := by
  rw [← flatten_words cs, h, flatten_words]

theorem words_intercalate {sep : List Char} (hsep : isBoundary sep = true)
    {pieces : List (List Char)} (h : ∀ piece ∈ pieces, isBoundary piece = true) :
    words (sep.intercalate pieces) = (words sep).intercalate (pieces.map words) := by
  induction pieces with
  | nil => rfl
  | cons piece pieces ih =>
    obtain ⟨hpiece, hpieces⟩ := List.forall_mem_cons.1 h
    cases pieces with
    | nil => simp
    | cons next pieces =>
      have hnext := isBoundary_intercalate sep (by simp) hpieces
      rw [List.intercalate_cons_cons, words_append _ (startsWord_of_isBoundary hnext),
        words_append _ (startsWord_of_isBoundary hsep), ih hpieces]
      simp

theorem mem_of_mem_intercalate {α : Type} {a : α} {sep : List α} {ls : List (List α)}
    (h : a ∈ sep.intercalate ls) : a ∈ sep ∨ ∃ l ∈ ls, a ∈ l := by
  induction ls with
  | nil => simp at h
  | cons l ls ih =>
    cases ls with
    | nil => exact .inr ⟨l, by simpa using h⟩
    | cons next ls =>
      rw [List.intercalate_cons_cons, List.mem_append, List.mem_append] at h
      rcases h with (h | h) | h
      · exact .inr ⟨l, by simp, h⟩
      · exact .inl h
      · exact (ih h).imp_right fun ⟨l', hl', ha⟩ => ⟨l', List.mem_cons_of_mem l hl', ha⟩

/-! ### Pieces of a text -/

variable {k : Char} {ks : List Char}

theorem splitKeyword_ne_nil (k : Char) (ks cs : List Char) : splitKeyword k ks cs ≠ [] := by
  have hprepend (front : List Char) (pieces : List (List Char)) : prependTo front pieces ≠ [] := by
    cases pieces <;> simp [prependTo]
  fun_cases splitKeyword k ks cs
  · simp
  · simp
  · exact hprepend _ _
  · exact hprepend _ _

theorem prependTo_nil {pieces : List (List Char)} (h : pieces ≠ []) : prependTo [] pieces = pieces := by
  cases pieces with
  | nil => exact absurd rfl h
  | cons piece pieces => rfl

theorem prependTo_append (front front' : List Char) (pieces : List (List Char)) :
    prependTo (front ++ front') pieces = prependTo front (prependTo front' pieces) := by
  cases pieces <;> simp [prependTo]

theorem splitKeyword_keyword (k : Char) (ks : List Char) (h : isBoundary rest = true) :
    splitKeyword k ks (k :: ks ++ rest) = [] :: splitKeyword k ks rest := by
  rw [List.cons_append, splitKeyword]
  split
  next rest' hstrip =>
    rw [beq_self_eq_true, if_pos rfl, Text.stripFront?_append] at hstrip
    obtain rfl := Option.some.inj hstrip
    rw [if_pos h]
  next hnone => simp [Text.stripFront?_append] at hnone

theorem splitKeyword_of_ne {c : Char} (h : c ≠ k) :
    splitKeyword k ks (c :: cs) = prependTo [c] (splitKeyword k ks cs) := by
  rw [splitKeyword]
  split
  next hstrip => simp [h] at hstrip
  next => rfl

theorem splitKeyword_of_notMem (h : k ∉ front) (rest : List Char) :
    splitKeyword k ks (front ++ rest) = prependTo front (splitKeyword k ks rest) := by
  induction front with
  | nil => exact (prependTo_nil (splitKeyword_ne_nil k ks rest)).symm
  | cons c front ih =>
    obtain ⟨hc, hfront⟩ : c ≠ k ∧ k ∉ front := by simpa [eq_comm] using h
    rw [List.cons_append, splitKeyword_of_ne hc, ih hfront, ← prependTo_append,
      List.singleton_append]

/-- A character at which the keyword does not stand in front of a capital belongs to the piece. -/
theorem splitKeyword_cons (hk : k ∉ ks) {c : Char}
    (h : ∀ r, isBoundary r = true → k :: ks ++ r ≠ c :: cs) :
    splitKeyword k ks (c :: cs) = prependTo [c] (splitKeyword k ks cs) := by
  by_cases hc : c = k
  · subst hc
    rw [splitKeyword]
    split
    next rest hstrip =>
      rw [beq_self_eq_true, if_pos rfl] at hstrip
      obtain rfl := Text.append_of_stripFront? hstrip
      have hrest : isBoundary rest ≠ true := fun hboundary => h rest hboundary rfl
      rw [if_neg hrest, splitKeyword_of_notMem hk, ← prependTo_append, List.singleton_append]
    next => rfl
  · exact splitKeyword_of_ne hc

/-- No piece ends where the keyword does not stand in front of a capital. -/
theorem splitKeyword_append (hk : k ∉ ks)
    (h : ∀ s, s <:+ front → s ≠ [] → ∀ r, isBoundary r = true → k :: ks ++ r ≠ s ++ rest) :
    splitKeyword k ks (front ++ rest) = prependTo front (splitKeyword k ks rest) := by
  induction front with
  | nil => exact (prependTo_nil (splitKeyword_ne_nil k ks rest)).symm
  | cons c front ih =>
    have hhere : ∀ r, isBoundary r = true → k :: ks ++ r ≠ c :: (front ++ rest) :=
      h (c :: front) List.suffix_rfl (by simp)
    have hbehind := ih fun s hs => h s (hs.trans (List.suffix_cons c front))
    rw [List.cons_append, splitKeyword_cons hk hhere, hbehind, ← prependTo_append,
      List.singleton_append]

/-- A text belongs to the piece if the words of the keyword start nowhere among its words. -/
theorem splitKeyword_skip (hk : k ∉ ks) (hcapital : isBoundary [k] = true)
    (hrest : StartsWord rest)
    (h : ∀ ws, ws <:+ words front → ws ≠ [] → ¬ words (k :: ks) <+: ws ++ words rest) :
    splitKeyword k ks (front ++ rest) = prependTo front (splitKeyword k ks rest) := by
  refine splitKeyword_append hk fun s hs hne r hr heq => ?_
  have hkeyword : isBoundary (k :: ks) = true := hcapital
  have hstart : StartsWord s := startsWord_of_append_eq hkeyword heq
  have hwords := congrArg words heq
  rw [words_append _ (startsWord_of_isBoundary hr), words_append _ hrest] at hwords
  exact h _ (words_suffix hs hstart) (words_ne_nil hne) ⟨words r, hwords⟩

/-- Pieces joined by a keyword that is one word, and a word of none of them, are cut apart again. -/
theorem splitKeyword_intercalate (hk : k ∉ ks) (hcapital : isBoundary [k] = true)
    (hword : words (k :: ks) = [k :: ks]) {pieces : List (List Char)} (hne : pieces ≠ [])
    (h : ∀ piece ∈ pieces, isBoundary piece = true ∧ k :: ks ∉ words piece) :
    splitKeyword k ks ((k :: ks).intercalate pieces) = pieces := by
  have hskip {piece rest : List Char} (hpiece : k :: ks ∉ words piece) (hrest : StartsWord rest) :
      splitKeyword k ks (piece ++ rest) = prependTo piece (splitKeyword k ks rest) := by
    refine splitKeyword_skip hk hcapital hrest fun ws hws hne hstands => ?_
    obtain ⟨w, ws, rfl⟩ := List.exists_cons_of_ne_nil hne
    rw [hword, List.cons_append, List.cons_prefix_cons] at hstands
    exact hpiece (hws.subset (by simp [hstands.1]))
  induction pieces with
  | nil => exact absurd rfl hne
  | cons piece pieces ih =>
    obtain ⟨⟨hstart, hpiece⟩, hpieces⟩ := List.forall_mem_cons.1 h
    cases pieces with
    | nil =>
      have hlast := hskip hpiece startsWord_nil
      rw [List.append_nil] at hlast
      simp [hlast, splitKeyword, prependTo]
    | cons next pieces =>
      have hnext := isBoundary_intercalate (k :: ks) (by simp) fun p hp => (hpieces p hp).1
      have hkeyword : isBoundary (k :: ks) = true := hcapital
      rw [List.intercalate_cons_cons, List.append_assoc,
        hskip hpiece (startsWord_append hkeyword _), splitKeyword_keyword k ks hnext,
        ih (by simp) hpieces]
      simp [prependTo]

/-- All pieces that start with a capital are kept where empty ones are left out. -/
theorem filter_splitKeyword_intercalate (hk : k ∉ ks) (hcapital : isBoundary [k] = true)
    (hword : words (k :: ks) = [k :: ks]) {pieces : List (List Char)}
    (h : ∀ piece ∈ pieces, isBoundary piece = true ∧ k :: ks ∉ words piece) :
    (splitKeyword k ks ((k :: ks).intercalate pieces)).filter (!·.isEmpty) = pieces := by
  rcases pieces with _ | ⟨piece, pieces⟩
  · simp [splitKeyword]
  · rw [splitKeyword_intercalate hk hcapital hword (by simp) h]
    refine List.filter_eq_self.2 fun p hp => ?_
    cases p with
    | nil => cases (h [] hp).1
    | cons c p => rfl

/-! ### The order behind a name -/

/-- The second word does not make `OrderBy` of the first. -/
def Apart (first second : List Char) : Prop := first = "Order".toList → second ≠ "By".toList

theorem isChain_apart {w : List Char} {ws : List (List Char)} (h : "By".toList ∉ ws) :
    (w :: ws).IsChain Apart := by
  induction ws generalizing w with
  | nil => exact .singleton w
  | cons v ws ih =>
    obtain ⟨hv, hws⟩ : "By".toList ≠ v ∧ "By".toList ∉ ws := by simpa using h
    exact .cons_cons (fun _ => hv.symm) (ih hws)

theorem isChain_apart_intercalate {sep : List Char} (hby : sep ≠ "By".toList)
    (horder : sep ≠ "Order".toList) {ls : List (List (List Char))}
    (h : ∀ l ∈ ls, l.IsChain Apart) : ([sep].intercalate ls).IsChain Apart := by
  induction ls with
  | nil => exact .nil
  | cons l ls ih =>
    obtain ⟨hl, hls⟩ := List.forall_mem_cons.1 h
    cases ls with
    | nil => simpa using hl
    | cons next ls =>
      rw [List.intercalate_cons_cons, List.append_assoc, List.singleton_append,
        List.isChain_append, List.isChain_cons]
      refine ⟨hl, ⟨fun w _ hsep => absurd hsep horder, ih hls⟩, fun w _ v hv _ => ?_⟩
      obtain rfl := Option.some.inj hv
      exact hby

/-- Words that nowhere read `OrderBy` belong to what stands in front of the order. -/
theorem splitKeyword_orderBy_skip (hrest : StartsWord rest) (h : (words front).IsChain Apart)
    (hnext : ∀ w ∈ (words rest).head?, w ≠ "By".toList) :
    splitKeyword 'O' "rderBy".toList (front ++ rest) =
      prependTo front (splitKeyword 'O' "rderBy".toList rest) := by
  refine splitKeyword_skip (by decide) (by decide) hrest fun ws hws hne hstands => ?_
  rw [show words ('O' :: "rderBy".toList) = ["Order".toList, "By".toList] by decide] at hstands
  rcases ws with _ | ⟨w, _ | ⟨v, ws⟩⟩
  · exact hne rfl
  · obtain ⟨behind, hbehind⟩ := hstands
    have hwords : "By".toList :: behind = words rest := (List.cons.inj hbehind).2
    exact hnext "By".toList (by rw [← hwords]; rfl) rfl
  · obtain ⟨behind, hbehind⟩ := hstands
    obtain ⟨hw, hwords⟩ := List.cons.inj hbehind
    obtain ⟨hv, -⟩ := List.cons.inj hwords
    exact (List.isChain_cons_cons.1 (h.suffix hws)).1 hw.symm hv.symm

/-- Without an order the conditions are all there is. -/
theorem splitKeyword_unordered {conditions : List Char} (h : (words conditions).IsChain Apart) :
    splitKeyword 'O' "rderBy".toList conditions = [conditions] := by
  have hskip := splitKeyword_orderBy_skip startsWord_nil h (by simp)
  rw [List.append_nil] at hskip
  rw [hskip, splitKeyword, prependTo, List.append_nil]

/-- The first `OrderBy` cuts a name into its conditions and its order. -/
theorem splitKeyword_ordered {conditions clause : List Char}
    (hconditions : (words conditions).IsChain Apart) (hclause : (words clause).IsChain Apart)
    (hstart : isBoundary clause = true) :
    splitKeyword 'O' "rderBy".toList (conditions ++ ("OrderBy".toList ++ clause)) =
      [conditions, clause] := by
  have horder : isBoundary "OrderBy".toList = true := by decide
  have hnext : ∀ w ∈ (words ("OrderBy".toList ++ clause)).head?, w ≠ "By".toList := by
    rw [words_append _ (startsWord_of_isBoundary hstart)]
    intro w hw
    obtain rfl : "Order".toList = w := Option.some.inj hw
    decide
  have hcut : splitKeyword 'O' "rderBy".toList ("OrderBy".toList ++ clause) =
      [] :: splitKeyword 'O' "rderBy".toList clause := splitKeyword_keyword 'O' _ hstart
  rw [splitKeyword_orderBy_skip (startsWord_append horder clause) hconditions hnext, hcut,
    splitKeyword_unordered hclause, prependTo, List.append_nil]

end Jpql.MethodName
