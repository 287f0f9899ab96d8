import Jpql.Declared
import Jpql.Proofs.Declared.Wildcards
import Jpql.Proofs.Statement.SafeSort
import Jpql.Proofs.Step
import Mathlib

/-! Sorting a query text that no grammar describes. The orders go in front of the first word that
may be a clause behind an order, whatever it is in the text; only where there is none does the text
stay in one piece. -/

namespace Jpql

open Rendering

namespace Order

/-! ### The text of the items -/

/-- What an item sorts by, as it is written. -/
def path (o : Order) (root? : Option String) (known : List String) : String :=
  if o.ignoreCase then "lower(" ++ o.reference root? known ++ ")" else o.reference root? known

/-- An item as it is written behind a blank; nothing is put between a blank and the direction. -/
def written (o : Order) (root? : Option String) (known : List String) : String :=
  (if o.path root? known = "" then "" else spaceEnded (o.path root? known)) ++ o.ending

variable {root? : Option String} {known : List String} {out : String}

theorem renderInto_path (o : Order) (root? : Option String) (known : List String)
    (out : String) :
    (o.toItem root? known).expr.rendering.toTokens ≠ [] ∧
      renderInto out (o.toItem root? known).expr.rendering = out ++ o.path root? known := by
  have hexpr : (o.toItem root? known).expr =
      if o.ignoreCase then .function "lower" [[.expr (.raw (o.reference root? known))]]
      else .raw (o.reference root? known) := rfl
  rw [hexpr, path]
  cases o.ignoreCase with
  | false => exact ⟨by simp [Expr.rendering, text], renderInto_text out _⟩
  | true =>
    have htext : (spaced [text (o.reference root? known)]).toTokens ≠ [] := by
      simp [toTokens_spaced, text]
    have hcall : (Expr.function "lower" [[.expr (.raw (o.reference root? known))]]).rendering =
        call "lower" (commaSeparated [spaced [text (o.reference root? known)]]) := by
      simp [Expr.rendering, argumentRenderings, fragmentRenderings]
    refine ⟨(render_lower _).1, ?_⟩
    rw [if_pos rfl, if_pos rfl, hcall, renderInto_call,
      renderInto_commaSeparated htext (by simp), List.foldl_nil,
      renderInto_spaced (by simp [text]) (by simp) (by simp [String.append_eq_empty_iff]),
      List.foldl_nil, renderInto_text]
    change out ++ "lower" ++ "(" ++ _ ++ ")" = out ++ ("lower" ++ "(" ++ _ ++ ")")
    simp only [String.append_assoc]

/-- Words behind a text, the first behind a blank. -/
theorem foldl_word_words {w : String} {ws : List String}
    (hws : ∀ w' ∈ w :: ws, w' ≠ "" ∧ endsWithSpace w' = false) (out : String) :
    ((w :: ws).map word).foldl (fun out s => renderInto (spaceEnded out) s) out =
      spaceEnded out ++ " ".intercalate (w :: ws) := by
  obtain ⟨⟨hw, hwend⟩, hws⟩ := List.forall_mem_cons.1 hws
  rw [List.map_cons, List.foldl_cons, renderInto_word, foldl_words hws,
    String.intercalate_cons_append]
  · simp [String.append_eq_empty_iff, hw]
  · rw [endsWithSpace_append _ hw, hwend]

theorem renderInto_toItem (o : Order) (hout : endsWithSpace out = true) :
    renderInto out (o.toItem root? known).rendering = out ++ o.written root? known := by
  have hne : out ≠ "" := fun h => by
    rw [h] at hout
    exact absurd hout (by decide)
  obtain ⟨htokens, hpath⟩ := o.renderInto_path root? known out
  have hfull : out ++ o.path root? known ≠ "" := by simp [String.append_eq_empty_iff, hne]
  rw [rendering_toItem, renderInto_spaced htokens (by simp [word]) (by rwa [hpath]), hpath,
    foldl_word_words o.words_ending, written, ending]
  split
  next hempty =>
    rw [hempty, String.append_empty, spaceEnded, hout, if_pos rfl, String.empty_append]
  next hpath =>
    have hspace : spaceEnded (out ++ o.path root? known) =
        out ++ spaceEnded (o.path root? known) := by
      rw [spaceEnded, endsWithSpace_append _ hpath, spaceEnded]
      split
      · rfl
      · rw [String.append_assoc]
    rw [hspace, String.append_assoc]

theorem written_unspaced (o : Order) : o.written root? known ≠ "" ∧
    endsWithSpace (o.written root? known) = false := by
  have hending : o.ending ≠ "" ∧ endsWithSpace o.ending = false := by
    unfold ending nullsWords
    cases o.direction <;> cases o.nulls <;> decide
  refine ⟨by simp [written, String.append_eq_empty_iff, hending.1], ?_⟩
  rw [written, endsWithSpace_append _ hending.1, hending.2]

theorem foldl_toItem (os : List Order) (out : String) :
    (os.map fun o => (o.toItem root? known).rendering).foldl
        (fun out s => renderInto (out ++ ", ") s) out =
      ", ".intercalate (out :: os.map (·.written root? known)) := by
  induction os generalizing out with
  | nil => simp
  | cons o os ih =>
    have hcomma : endsWithSpace (out ++ ", ") = true := by
      rw [endsWithSpace_append _ (by decide)]
      decide
    rw [List.map_cons, List.foldl_cons, o.renderInto_toItem hcomma, ih,
      String.intercalate_cons_append, List.map_cons, String.intercalate_cons_cons]

theorem renderInto_toItems (root? : Option String) (known : List String) {os : List Order}
    (hos : os ≠ []) (hout : endsWithSpace out = true) :
    (commaSeparated (orderRenderings (os.map (·.toItem root? known)))).toTokens ≠ [] ∧
      renderInto out (commaSeparated (orderRenderings (os.map (·.toItem root? known)))) =
        out ++ ", ".intercalate (os.map (·.written root? known)) := by
  obtain ⟨o, os, rfl⟩ := List.exists_cons_of_ne_nil hos
  have htokens (o : Order) : (o.toItem root? known).rendering.toTokens ≠ [] := by
    rw [rendering_toItem, toTokens_spaced]
    simp [word]
  have hitems : orderRenderings ((o :: os).map (·.toItem root? known)) =
      (o.toItem root? known).rendering :: os.map fun o => (o.toItem root? known).rendering := by
    rw [orderRenderings_eq, List.map_map]
    rfl
  rw [hitems, toTokens_commaSeparated (htokens o),
    renderInto_commaSeparated (htokens o) (by simpa using fun o _ => htokens o),
    o.renderInto_toItem hout, foldl_toItem, String.intercalate_cons_append, List.map_cons]
  exact ⟨by simpa using fun h => absurd h (htokens o), rfl⟩

theorem intercalate_written_unspaced (root? : Option String) (known : List String)
    {os : List Order} (hos : os ≠ []) :
    ", ".intercalate (os.map (·.written root? known)) ≠ "" ∧
      endsWithSpace (", ".intercalate (os.map (·.written root? known))) = false := by
  induction os with
  | nil => exact absurd rfl hos
  | cons o os ih =>
    cases os with
    | nil => simpa using o.written_unspaced
    | cons o' os =>
      obtain ⟨hne, hend⟩ := ih (List.cons_ne_nil _ _)
      rw [List.map_cons] at hne hend
      rw [List.map_cons, List.map_cons, String.intercalate_cons_cons, endsWithSpace_append _ hne,
        hend]
      exact ⟨by simp [String.append_eq_empty_iff, hne], rfl⟩

end Order

namespace NativeText

/-! ### The sorted text -/

/-- The order clause of a sort, with a blank in front. -/
def orderClause (t : NativeText) (sort : Sorting) : String :=
  " order by " ++ ", ".intercalate (sort.orders.map (·.written t.alias? t.knownAliases))

theorem trimEnd_unspaced (s : String) : endsWithSpace (Text.trimEnd s) = false := by
  rw [endsWithSpace, Text.trimEnd, String.toList_ofList, List.getLast?_reverse, beq_eq_false_iff_ne]
  intro hlast
  have hblank := List.head?_dropWhile_not Text.isBlank s.toList.reverse
  rw [hlast] at hblank
  exact absurd hblank (by decide)

theorem orderClause_unspaced (t : NativeText) {sort : Sorting} (hsort : sort.orders ≠ []) :
    t.orderClause sort ≠ "" ∧ endsWithSpace (t.orderClause sort) = false := by
  obtain ⟨hne, hend⟩ := Order.intercalate_written_unspaced t.alias? t.knownAliases hsort
  refine ⟨by simp [orderClause, String.append_eq_empty_iff], ?_⟩
  rw [orderClause, endsWithSpace_append _ hne, hend]

variable {t : NativeText} {sort : Sorting} {r : String}

/-- The order clause goes between the front of the text and the words that are taken for clauses
behind an order. -/
theorem sorted_eq (horder : t.order = none) (hsort : sort.isSorted = true)
    (h : t.sorted sort = .ok r) :
    r = Text.trimEnd (String.ofList (t.query.take (t.tail.getD t.query.length))) ++
      t.orderClause sort ++
        (if (trimmed (t.query.drop (t.tail.getD t.query.length))).isEmpty then ""
          else " " ++ trimmed (t.query.drop (t.tail.getD t.query.length))) := by
  have horders : sort.orders ≠ [] := by simpa [Sorting.isSorted] using hsort
  obtain ⟨hne, hunspaced⟩ := t.orderClause_unspaced horders
  unfold sorted at h
  rw [hsort, horder] at h
  obtain ⟨-, -, h⟩ := Step.result_bind_ok.1 h
  rw [← Except.ok.inj h]
  have hhead := trimEnd_unspaced (String.ofList (t.query.take (t.tail.getD t.query.length)))
  generalize Text.trimEnd (String.ofList (t.query.take (t.tail.getD t.query.length))) = head
    at hhead ⊢
  generalize trimmed (t.query.drop (t.tail.getD t.query.length)) = tail
  generalize hlist : commaSeparated (orderRenderings _) = list
  have hgap : endsWithSpace (head ++ " order by ") = true := by
    rw [endsWithSpace_append _ (by decide)]
    decide
  obtain ⟨htokens, hclause⟩ := Order.renderInto_toItems t.alias? t.knownAliases horders hgap
  rw [hlist] at htokens hclause
  have hclause : renderInto (head ++ " order by ") list = head ++ t.orderClause sort := by
    rw [hclause, orderClause, String.append_assoc]
  have hfront : spaceEnded (renderInto (spaceEnded head) (ofToken .orderBy)) =
      head ++ " order by " := by
    have hword : renderInto (spaceEnded head) (ofToken .orderBy) = head ++ " order by" := by
      rw [spaceEnded, hhead]
      exact (renderInto_word _ _).trans (String.append_assoc ..)
    rw [hword, spaceEnded_append _ (by decide) (by decide), String.append_assoc]
    rfl
  have hnone : renderInto "" (ofToken (.plain head)) = head :=
    (renderInto_text "" head).trans (String.empty_append)
  split
  next =>
    change renderInto "" (spaced [ofToken (.plain head), ofToken .orderBy, list]) = _
    rw [renderInto_spaced_plain (by simp) rfl (by simp) (by simpa using htokens), List.foldl_cons,
      List.foldl_cons, List.foldl_nil, hnone, hfront, hclause, String.append_empty]
  next =>
    change renderInto "" (spaced [ofToken (.plain head), ofToken .orderBy, list, text tail]) = _
    rw [renderInto_spaced_plain (by simp) rfl (by simp) (by simpa [text] using htokens),
      List.foldl_cons, List.foldl_cons, List.foldl_cons, List.foldl_nil, hnone, hfront, hclause,
      renderInto_text, spaceEnded_append _ hne hunspaced]
    exact String.append_assoc

/-! ### Where the words stand -/

/-- The word stands in the text where it starts. -/
def Word.StandsIn (w : Word) (cs : List Char) : Prop :=
  ∃ front back, cs = front ++ w.text ++ back ∧ w.start = front.length

/-- What the scan knows of the text that it has read. -/
structure Scan.Reads (s : Scan) (before : List Char) : Prop where
  index : s.index = before.length
  word : s.word.reverse <:+ before
  quoted : s.quote ≠ none → s.word = []

namespace Scan.Reads

variable {s : Scan} {before : List Char}

theorem quote (h : s.Reads before) (hquote : s.quote ≠ none) (c : Char) (quote : Option Char) :
    Reads { s.next with quote } (before ++ [c]) where
  index := by simp [Scan.next, h.index]
  word := by
    change s.word.reverse <:+ _
    rw [h.quoted hquote]
    exact List.nil_suffix
  quoted _ := h.quoted hquote

theorem wordChar (h : s.Reads before) (hquote : s.quote = none) (c : Char) :
    Reads { s.next with word := c :: s.word } (before ++ [c]) where
  index := by simp [Scan.next, h.index]
  word := by
    obtain ⟨front, hfront⟩ := h.word
    exact ⟨front, by simp [← hfront]⟩
  quoted hne := absurd hquote hne

theorem separator (h : s.Reads before) (c : Char) : (s.separator c).Reads (before ++ [c]) := by
  have hword : (s.separator c).word = [] ∧ (s.separator c).index = s.index + 1 := by
    unfold Scan.separator
    dsimp only
    split_ifs <;> exact ⟨rfl, rfl⟩
  refine ⟨by simp [hword.2, h.index], ?_, fun _ => hword.1⟩
  rw [hword.1]
  exact List.nil_suffix

theorem finished (h : s.Reads before) (cs : List Char) :
    ∀ w ∈ s.finished, w.StandsIn (before ++ cs) := by
  intro w hw
  unfold Scan.finished at hw
  split at hw
  · cases hw
  · obtain rfl := List.mem_singleton.1 hw
    obtain ⟨front, hfront⟩ := h.word
    refine ⟨front, cs, by simp [hfront], ?_⟩
    simp [h.index, ← hfront]

end Scan.Reads

theorem wordsFrom_stands {s : Scan} {before cs : List Char} (h : s.Reads before) :
    ∀ w ∈ wordsFrom s cs, w.StandsIn (before ++ cs) := by
  induction cs generalizing s before with
  | nil => exact h.finished []
  | cons c cs ih =>
    have hsplit : before ++ c :: cs = (before ++ [c]) ++ cs := by simp
    rw [wordsFrom]
    split
    next q hquote =>
      rw [hsplit]
      exact ih (h.quote (by simp [hquote]) c _)
    next hquote =>
      split
      next =>
        rw [hsplit]
        exact ih (h.wordChar hquote c)
      next =>
        refine List.forall_mem_append.2 ⟨h.finished _, ?_⟩
        rw [hsplit]
        exact ih (h.separator c)

theorem topWords_stands {cs : List Char} {w : Word} (h : w ∈ topWords cs) : w.StandsIn cs := by
  have hstart : Scan.Reads {} [] := ⟨rfl, List.nil_suffix, fun _ => rfl⟩
  exact wordsFrom_stands hstart w (List.mem_of_mem_filter h)

/-! ### Words that may be clauses behind an order -/

/-- The top-level words from the `from` of the query on, or all if it has none. -/
def searched (cs : List Char) : List Word :=
  let words := topWords cs
  let fromSelect := fromFirst (·.is "select") words
  let fromFrom := fromFirst (·.is "from") (if fromSelect.head?.isSome then fromSelect else words)
  if fromFrom.head?.isSome then fromFrom else words

theorem searched_subset (cs : List Char) : searched cs ⊆ topWords cs := by
  have hfirst (p : Word → Bool) (ws : List Word) : fromFirst p ws ⊆ ws := List.dropWhile_subset _
  unfold searched
  dsimp only
  split_ifs
  · exact List.Subset.trans (hfirst _ _) (hfirst _ _)
  · exact List.Subset.refl _
  · exact hfirst _ _
  · exact List.Subset.refl _

theorem fromLastOrderBy_ne_nil (ws : List Word) : fromLastOrderBy ws ≠ some [] := by
  induction ws with
  | nil => simp [fromLastOrderBy]
  | cons w ws ih =>
    rw [fromLastOrderBy]
    split
    next found hfound => rwa [← hfound]
    next => split <;> simp

/-- Whether a word may be a clause behind an order. -/
def Word.isTail (w : Word) : Bool := tailWords.any w.is

theorem ofString_tail {text : String} (horder : (ofString text).order = none) :
    (ofString text).tail = ((searched text.toList).find? Word.isTail).map Word.start := by
  have hnone : fromLastOrderBy (topWords text.toList) = none := by
    cases hlast : fromLastOrderBy (topWords text.toList) with
    | none => rfl
    | some ws =>
      cases ws with
      | nil => exact absurd hlast (fromLastOrderBy_ne_nil _)
      | cons w ws => simp [ofString, hlast] at horder
  simp only [ofString, hnone, Option.getD_none, searched, Option.isSome_map]
  rfl

/-- Such a word begins with two letters, which are not those of `order`. -/
theorem Word.isTail_letters {w : Word} (h : w.isTail = true) : ∃ c d rest, w.text = c :: d :: rest ∧
    Text.isBlank c = false ∧ Text.isBlank d = false ∧ ¬ (c = 'o' ∧ d = 'r') := by
  have hletters : ∀ keyword ∈ tailWords,
      ∃ a b rest, keyword.toList.map Char.toLower = a :: b :: rest ∧
      Text.isBlank a = false ∧ Text.isBlank b = false ∧ ¬ (a = 'o' ∧ b = 'r') := by
    simp only [tailWords, List.forall_mem_cons, List.not_mem_nil, false_imp_iff, implies_true,
      and_true]
    exact ⟨⟨_, _, _, rfl, by decide⟩, ⟨_, _, _, rfl, by decide⟩, ⟨_, _, _, rfl, by decide⟩,
      ⟨_, _, _, rfl, by decide⟩⟩
  obtain ⟨keyword, hkeyword, heq⟩ := List.any_eq_true.1 h
  obtain ⟨a, b, rest, hlower, ha, hb, hab⟩ := hletters keyword hkeyword
  have hmap : w.text.map Char.toLower = a :: b :: rest := by
    rw [← hlower]
    simpa [Word.is, eqIgnoringCase] using heq
  obtain ⟨c, cs, hw, hc, hcs⟩ := List.map_eq_cons_iff.1 hmap
  obtain ⟨d, ds, rfl, hd, -⟩ := List.map_eq_cons_iff.1 hcs
  refine ⟨c, d, ds, hw, Text.isBlank_of_toLower hc ha, Text.isBlank_of_toLower hd hb, ?_⟩
  rintro ⟨rfl, rfl⟩
  exact hab ⟨hc.symm, hd.symm⟩

/-! ### One piece or two -/

theorem prefix_rdropWhile {p : Char → Bool} {d : Char} (hd : p d = false) (front back : List Char) :
    front ++ [d] <+: (front ++ d :: back).rdropWhile p := by
  induction back using List.reverseRecOn with
  | nil =>
    rw [List.rdropWhile_concat_neg _ _ _ (by simp [hd])]
  | append_singleton back c ih =>
    have hsplit : front ++ d :: (back ++ [c]) = (front ++ d :: back) ++ [c] := by simp
    rw [hsplit]
    cases hc : p c with
    | true => rwa [List.rdropWhile_concat_pos _ _ _ hc]
    | false =>
      rw [List.rdropWhile_concat_neg _ _ _ (by simp [hc])]
      exact ⟨back ++ [c], by simp⟩

/-- What is cut off does not go on with an order clause. -/
theorem not_prefix_of_letters {front back rest : List Char} {c d : Char}
    (hc : Text.isBlank c = false) (hd : Text.isBlank d = false) (hcd : ¬ (c = 'o' ∧ d = 'r')) :
    ¬ (front ++ c :: d :: back).rdropWhile Text.isBlank <+:
      front.rdropWhile Text.isBlank ++ ' ' :: 'o' :: 'r' :: rest := by
  intro hprefix
  have hsplit : front ++ c :: d :: back = (front ++ [c]) ++ d :: back := by simp
  rw [hsplit] at hprefix
  have hletters := (prefix_rdropWhile hd (front ++ [c]) back).trans hprefix
  have hblanks : ∀ b ∈ front.rtakeWhile Text.isBlank, Text.isBlank b = true :=
    fun b => List.mem_rtakeWhile_imp
  have hfront : front.rdropWhile Text.isBlank ++ front.rtakeWhile Text.isBlank = front :=
    List.rdropWhile_append_rtakeWhile
  generalize front.rtakeWhile Text.isBlank = blanks at hblanks hfront
  generalize front.rdropWhile Text.isBlank = trimmed at hletters hfront
  rw [← hfront, List.append_assoc, List.append_assoc, List.prefix_append_right_inj] at hletters
  match blanks, hblanks, hletters with
  | [], _, h =>
    obtain ⟨rfl, -⟩ := List.cons_prefix_cons.1 h
    exact absurd hc (by decide)
  | [b], _, h =>
    obtain ⟨-, h⟩ := List.cons_prefix_cons.1 h
    obtain ⟨hco, h⟩ := List.cons_prefix_cons.1 h
    obtain ⟨hdr, -⟩ := List.cons_prefix_cons.1 h
    exact hcd ⟨hco, hdr⟩
  | b :: b' :: bs, hblanks, h =>
    obtain ⟨-, h⟩ := List.cons_prefix_cons.1 h
    obtain ⟨rfl, -⟩ := List.cons_prefix_cons.1 h
    exact absurd (hblanks 'o' (by simp)) (by decide)

theorem toList_trimEnd (s : String) :
    (Text.trimEnd s).toList = s.toList.rdropWhile Text.isBlank := by
  rw [Text.trimEnd, String.toList_ofList]
  rfl

theorem isEmpty_trimmed {c : Char} (hc : Text.isBlank c = false) (cs : List Char) :
    (trimmed (c :: cs)).isEmpty = false := by
  have hstart : Text.trimStart (String.ofList (c :: cs)) = String.ofList (c :: cs) := by
    simp [Text.trimStart, hc]
  have hprefix := (prefix_rdropWhile hc [] cs).ne_nil (by simp)
  rw [List.nil_append, ← String.toList_ofList (l := c :: cs), ← toList_trimEnd, ← hstart] at hprefix
  simpa [trimmed, Text.trim] using hprefix

section

variable {text : String} {w : Word} {front back : List Char}

/-- Without a word that may be a clause the order clause stands behind the text. -/
theorem sorted_whole (horder : (ofString text).order = none) (hsort : sort.isSorted = true)
    (h : (ofString text).sorted sort = .ok r)
    (hnone : (searched text.toList).find? Word.isTail = none) :
    r = Text.trimEnd text ++ (ofString text).orderClause sort := by
  have hquery : (ofString text).query = text.toList := rfl
  have hempty : (trimmed []).isEmpty = true := by decide
  have heq := sorted_eq horder hsort h
  rw [ofString_tail horder, hquery, hnone, Option.map_none, Option.getD_none, List.take_length,
    List.drop_length, hempty, if_pos rfl, String.append_empty, String.ofList_toList] at heq
  exact heq

/-- Otherwise it stands in front of the first of these words. -/
theorem sorted_split (horder : (ofString text).order = none) (hsort : sort.isSorted = true)
    (h : (ofString text).sorted sort = .ok r)
    (hw : (searched text.toList).find? Word.isTail = some w) :
    ∃ front back, text.toList = front ++ w.text ++ back ∧ w.start = front.length ∧
      r = Text.trimEnd (String.ofList front) ++ (ofString text).orderClause sort ++ " " ++
        trimmed (w.text ++ back) := by
  have hquery : (ofString text).query = text.toList := rfl
  obtain ⟨front, back, htext, hstart⟩ :=
    topWords_stands (searched_subset _ (List.mem_of_find?_eq_some hw))
  obtain ⟨c, d, rest, hletters, hc, -⟩ := Word.isTail_letters (List.find?_some hw)
  have hne : (trimmed (w.text ++ back)).isEmpty = false := by
    rw [hletters]
    exact isEmpty_trimmed hc _
  have heq := sorted_eq horder hsort h
  rw [ofString_tail horder, hquery, hw, Option.map_some, Option.getD_some, hstart, htext,
    List.append_assoc, List.take_left, List.drop_left, hne, if_neg Bool.false_ne_true] at heq
  refine ⟨front, back, htext, hstart, ?_⟩
  rw [heq]
  exact String.append_assoc.symm

/-- A text that is split in front of such a word is no prefix of the result. -/
theorem not_prefix_of_split (hw : w.isTail = true) (htext : text.toList = front ++ w.text ++ back)
    (t : NativeText) (sort : Sorting) (tail : String) :
    ¬ (Text.trimEnd text).toList <+:
      (Text.trimEnd (String.ofList front) ++ t.orderClause sort ++ " " ++ tail).toList := by
  obtain ⟨c, d, rest, hletters, hc, hd, hcd⟩ := Word.isTail_letters hw
  obtain ⟨rest', hclause⟩ : ∃ rest', (t.orderClause sort).toList = ' ' :: 'o' :: 'r' :: rest' :=
    ⟨_, String.toList_append⟩
  rw [toList_trimEnd, htext, hletters, String.append_assoc, String.append_assoc,
    String.toList_append, toList_trimEnd, String.toList_append, hclause, String.toList_ofList,
    List.append_assoc]
  exact not_prefix_of_letters hc hd hcd

/-- The text is sorted in one piece if no top-level word from its `from` on is `limit`, `offset`,
`fetch` or `for`. Otherwise the order clause stands in front of the first such word, be it a clause,
a column behind a point or the `fetch` of a join, and what the text was is no prefix any more. -/
theorem sorted_keeps_text_iff (horder : (ofString text).order = none) (hsort : sort.isSorted = true)
    (h : (ofString text).sorted sort = .ok r) :
    (r = Text.trimEnd text ++ (ofString text).orderClause sort ↔
      ∀ w ∈ searched text.toList, w.isTail = false) ∧
    ((Text.trimEnd text).toList <+: r.toList ↔ ∀ w ∈ searched text.toList, w.isTail = false) ∧
    ∀ w, (searched text.toList).find? Word.isTail = some w →
      ∃ front back, text.toList = front ++ w.text ++ back ∧ w.start = front.length ∧
        r = Text.trimEnd (String.ofList front) ++ (ofString text).orderClause sort ++ " " ++
          trimmed (w.text ++ back) := by
  have hstays (hall : r = Text.trimEnd text ++ (ofString text).orderClause sort) :
      (Text.trimEnd text).toList <+: r.toList := by
    rw [hall, String.toList_append]
    exact List.prefix_append _ _
  have hnone : (∀ w ∈ searched text.toList, w.isTail = false) ↔
      (searched text.toList).find? Word.isTail = none := by
    simp [List.find?_eq_none]
  rw [hnone]
  cases hfind : (searched text.toList).find? Word.isTail with
  | none =>
    have hall := sorted_whole horder hsort h hfind
    exact ⟨iff_of_true hall rfl, iff_of_true (hstays hall) rfl, fun w hw => by cases hw⟩
  | some w =>
    obtain ⟨front, back, htext, -, hr⟩ := sorted_split horder hsort h hfind
    have hcut : ¬ (Text.trimEnd text).toList <+: r.toList := by
      rw [hr]
      exact not_prefix_of_split (List.find?_some hfind) htext _ _ _
    exact ⟨iff_of_false (fun hall => hcut (hstays hall)) (by simp), iff_of_false hcut (by simp),
      fun _ hw => sorted_split horder hsort h (hfind.trans hw)⟩

end

theorem sorted_keeps_text_of_users : ∃ r,
    (ofString "select * from users u ").order = none ∧
    (ofString "select * from users u ").sorted (.ofProperties ["name", "u.age"]) = .ok r ∧
    r = Text.trimEnd "select * from users u " ++
      (ofString "select * from users u ").orderClause (.ofProperties ["name", "u.age"]) ∧
    r = "select * from users u order by u.name asc, u.age asc" := by
  have horder : (ofString "select * from users u ").order = none := by decide
  have hresult : ((ofString "select * from users u ").sorted
      (.ofProperties ["name", "u.age"])).toOption.map id =
        some "select * from users u order by u.name asc, u.age asc" := by decide
  obtain ⟨r, hr, htext⟩ := Step.exists_of_toOption_map hresult
  have hkeeps := (sorted_keeps_text_iff horder rfl hr).1.2 (by decide)
  exact ⟨r, horder, hr, hkeeps, htext⟩

/-- The only word in question is a column behind its point, which it is cut off from. -/
theorem sorted_cuts_column :
    (ofString "select * from users u where u.limit > 5").order = none ∧
    (∀ w ∈ topWords "select * from users u where u.limit > 5".toList, w.isTail = true →
      ("select * from users u where u.limit > 5".toList.take w.start).getLast? = some '.') ∧
    ((ofString "select * from users u where u.limit > 5").sorted
      (.ofProperties ["name"])).toOption =
        some "select * from users u where u. order by u.name asc limit > 5" ∧
    ¬ "select * from users u where u.limit > 5".toList <+:
      "select * from users u where u. order by u.name asc limit > 5".toList := by
  decide

example : ((ofString "select u from User u join fetch u.roles").sorted
    (.ofProperties ["name"])).toOption =
      some "select u from User u join order by u.name asc fetch u.roles" := by
  decide

end NativeText

end Jpql
