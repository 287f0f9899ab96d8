import Jpql.Proofs.Declared.Expressions
import Jpql.Proofs.Declared.Sharing
import Jpql.Proofs.Declared.Signs

/-! The markers that are put for value expressions. They are read as markers again, in the places of
their expressions, and all other markers of the text stay what they are; no label is given twice,
and none that the text uses itself. -/

namespace Jpql.Markers

/-! ### Markers and expressions of a text -/

/-- What a query text takes a value for: a marker, or an expression without the blanks around it. -/
inductive Item where
  | marker (m : Marker)
  | expression (text : String)
  deriving DecidableEq, Repr

/-- A sign does not begin a name behind a colon or a backslash. -/
def attaches (before : Option Char) : Bool := before.any fun c => c == ':' || c == '\\'

/-- A character that cannot go on with a marker in front of it. -/
def endsMarker (c : Char) : Bool :=
  Text.isAscii c && !(c.isAlphanum || c == '_' || c == '$' || c == '.' || c == '#')

/-- Reads the markers and expressions outside quotes, if all expressions are closed and without
quotes, and each stands by itself: behind no colon or backslash, and in front of no character that
would go on with a marker. -/
def itemsFrom? : (fuel : Nat) → (opened before : Option Char) → List Char → Option (List Item)
  | _, _, _, [] => some []
  | 0, _, _, _ :: _ => none
  | fuel + 1, opened, before, c :: cs =>
    match if opened.isSome then none else expressionStart? (c :: cs) with
    | some body =>
      match cutAtBrace? 0 body with
      | some (inner, rest) =>
        if inner.any isQuote || attaches before || !rest.head?.all endsMarker then none
        else (itemsFrom? fuel none (some '\x7d') rest).map
          (.expression (Text.trim (String.ofList inner)) :: ·)
      | none => none
    | none =>
      let found := if opened.isSome then none else (marker? before (c :: cs)).map (·.1)
      (itemsFrom? fuel (quoteAfter opened c) (some c) cs).map (found.toList.map .marker ++ ·)

def items? (cs : List Char) : Option (List Item) := itemsFrom? cs.length none none cs

/-- How the markers and expressions of a text are read. -/
inductive Reads : (opened before : Option Char) → List Char → List Item → Prop
  | nil {opened before : Option Char} : Reads opened before [] []
  | char {opened before : Option Char} {c : Char} {cs : List Char} {items : List Item}
      (hnone : opened.isSome = true ∨ expressionStart? (c :: cs) = none)
      (hrest : Reads (quoteAfter opened c) (some c) cs items) :
      Reads opened before (c :: cs) ((if opened.isSome then []
        else ((marker? before (c :: cs)).map (·.1)).toList).map .marker ++ items)
  | expression {before : Option Char} {taken rest body inner : List Char} {items : List Item}
      (hstart : expressionStart? (taken ++ rest) = some body)
      (hcut : cutAtBrace? 0 body = some (inner, rest))
      (hinner : ∀ c ∈ inner, isQuote c = false) (hbefore : attaches before = false)
      (hbehind : ∀ c ∈ rest.head?, endsMarker c = true)
      (hrest : Reads none (some '\x7d') rest items) :
      Reads none before (taken ++ rest)
        (.expression (Text.trim (String.ofList inner)) :: items)

variable {opened before before' : Option Char} {cs ds : List Char} {items : List Item}

theorem reads_itemsFrom? {fuel : Nat} (h : itemsFrom? fuel opened before cs = some items) :
    Reads opened before cs items := by
  induction fuel generalizing opened before cs items with
  | zero =>
    cases cs with
    | nil =>
      obtain rfl := Option.some.inj h
      exact .nil
    | cons c cs => cases h
  | succ fuel ih =>
    cases cs with
    | nil =>
      obtain rfl := Option.some.inj h
      exact .nil
    | cons c cs =>
      rw [itemsFrom?] at h
      split at h
      next body hbody =>
        obtain rfl : opened = none := by
          cases opened with
          | none => rfl
          | some q => cases hbody
        have hstart : expressionStart? (c :: cs) = some body := hbody
        split at h
        next inner rest hcut =>
          split at h
          · cases h
          next hfit =>
            obtain ⟨items, hitems, rfl⟩ := Option.map_eq_some_iff.1 h
            obtain ⟨taken, -, hcons⟩ := exists_taken hstart hcut
            simp only [Bool.or_eq_true, Bool.not_eq_true', not_or, Bool.not_eq_true,
              Bool.not_eq_false, List.any_eq_false, Option.all_eq_true] at hfit
            obtain ⟨⟨hinner, hbefore⟩, hbehind⟩ := hfit
            rw [← hcons] at hstart ⊢
            exact .expression hstart hcut hinner hbefore hbehind (ih hitems)
        next => cases h
      next hnone =>
        dsimp only at h
        obtain ⟨items, hitems, rfl⟩ := Option.map_eq_some_iff.1 h
        cases opened with
        | none => exact .char (.inr hnone) (ih hitems)
        | some q => exact .char (.inl rfl) (ih hitems)

/-! ### Put markers -/

/-- The name under which the expression of a marker is kept. -/
def Marker.key? : Marker → Option String
  | .unnumbered => none
  | .numbered n => some (toString n)
  | .named name => some name

theorem toList_toString (n : Nat) : (toString n).toList = Nat.toDigits 10 n := by
  rw [Nat.toString_eq_repr, Nat.toList_repr]

theorem isEmpty_toString (n : Nat) : (toString n).toList.isEmpty = false := by
  rw [toList_toString]
  exact List.isEmpty_eq_false_iff.2 Nat.toDigits_ne_nil

theorem position?_toString {n : Nat} (h : n < maxPosition) :
    position? (toString n).toList = some n := by
  have hall : (toString n).toList.all Char.isDigit = true :=
    List.all_eq_true.2 fun c hc => Lexer.isDigit_of_mem_toString hc
  have hvalue : (toString n).toList.foldl (fun n c => 10 * n + (c.toNat - '0'.toNat)) 0 = n := by
    rw [toList_toString]
    exact Nat.ofDigitChars_toDigits (by decide) (by decide)
  rw [position?, isEmpty_toString, hall, hvalue]
  exact if_pos h

theorem endsMarker_ok {c : Char} (h : endsMarker c = true) :
    Text.isDecimalDigit c = false ∧ continuesMarker c = false ∧ isNameChar c = false := by
  simp only [endsMarker, Bool.and_eq_true, Bool.not_eq_true', Bool.or_eq_false_iff] at h
  obtain ⟨hascii, ⟨⟨⟨halnum, hunderscore⟩, hdollar⟩, hdot⟩, hhash⟩ := h
  obtain ⟨halpha, hdigit⟩ : c.isAlpha = false ∧ c.isDigit = false := by
    simpa [Char.isAlphanum] using halnum
  refine ⟨?_, ?_, ?_⟩
  · simp [Text.isDecimalDigit, hascii, hdigit]
  · simp [continuesMarker, Text.isAlphanumeric, Text.isAlphabetic, Text.isNumeric, hascii, hhash,
      halpha, hdigit, hunderscore]
  · simp [isNameChar, hascii, halnum, hdollar, hdot, hunderscore]

def Marker.spelling : Marker → List Char
  | .unnumbered => ['?']
  | .numbered n => '?' :: (toString n).toList
  | .named name => ':' :: name.toList

/-- A marker with a number or name that can be read as such. -/
def Marker.IsReadable : Marker → Prop
  | .unnumbered => False
  | .numbered n => n < maxPosition
  | .named name => name ≠ "" ∧ ∀ c ∈ name.toList, isNameChar c = true

theorem isNameChar_of_isDigit {c : Char} (h : c.isDigit = true) : isNameChar c = true := by
  have hall : ∀ n ∈ List.range' 48 10, isNameChar (Char.ofNat n) = true := by decide
  exact Lexer.forall_digit (isNameChar · = true) hall h

theorem isDecimalDigit_of_isDigit {c : Char} (h : c.isDigit = true) :
    Text.isDecimalDigit c = true := by
  have hall : ∀ n ∈ List.range' 48 10, Text.isDecimalDigit (Char.ofNat n) = true := by decide
  exact Lexer.forall_digit (Text.isDecimalDigit · = true) hall h

/-- What cannot go on with a marker leaves it as it is spelled. -/
theorem marker?_spelling {m : Marker} (hm : m.IsReadable) (hbefore : attaches before = false)
    (hbehind : ∀ c ∈ cs.head?, endsMarker c = true) :
    marker? before (m.spelling ++ cs) = some (m, m.spelling, cs) := by
  have hstop {p : Char → Bool} (hp : ∀ c, endsMarker c = true → p c = false) :
      Lexer.startsWith p cs = false := by
    cases cs with
    | nil => rfl
    | cons c cs => exact hp c (hbehind c rfl)
  cases m with
  | unnumbered => cases hm
  | numbered n =>
    have hdigits : ∀ c ∈ (toString n).toList, Text.isDecimalDigit c = true :=
      fun c hc => isDecimalDigit_of_isDigit (Lexer.isDigit_of_mem_toString hc)
    obtain ⟨htake, hdrop⟩ := Lexer.takeWhile_append_stop hdigits
      (hstop fun c hc => (endsMarker_ok hc).1)
    have hends : cs.head?.any continuesMarker = false :=
      (Option.any_eq_false _ _).2 fun c hc => (endsMarker_ok (hbehind c hc)).2.1
    simp only [Marker.spelling, List.cons_append, marker?, htake, hdrop, hends, isEmpty_toString,
      position?_toString hm]
    rfl
  | named name =>
    obtain ⟨hname, hchars⟩ := hm
    obtain ⟨htake, hdrop⟩ := Lexer.takeWhile_append_stop hchars
      (hstop fun c hc => (endsMarker_ok hc).2.2)
    have hbefore : before.any (fun c => c == ':' || c == '\\') = false := hbefore
    simp [Marker.spelling, marker?, htake, hdrop, hbefore, hname]

theorem Marker.IsReadable.spelling {m : Marker} (hm : m.IsReadable) :
    ∃ sign tail, m.spelling = sign :: tail ∧ (sign = '?' ∨ sign = ':') ∧ tail ≠ [] ∧
      ∀ c ∈ tail, isNameChar c = true := by
  cases m with
  | unnumbered => cases hm
  | numbered n =>
    exact ⟨'?', _, rfl, .inl rfl, List.isEmpty_eq_false_iff.1 (isEmpty_toString n),
      fun c hc => isNameChar_of_isDigit (Lexer.isDigit_of_mem_toString hc)⟩
  | named name => exact ⟨':', _, rfl, .inr rfl, by simpa using hm.1, hm.2⟩

/-- Behind a marker a name may begin. -/
theorem attaches_spelling {m : Marker} (hm : m.IsReadable) :
    attaches m.spelling.getLast? = false := by
  obtain ⟨sign, tail, hspelling, -, hne, hchars⟩ := hm.spelling
  have hlast := hchars _ (List.getLast_mem hne)
  have hother {d : Char} (hd : isNameChar d = false) : tail.getLast hne ≠ d := by
    intro heq
    rw [heq, hd] at hlast
    cases hlast
  rw [hspelling, List.getLast?_cons, List.getLast?_eq_some_getLast hne]
  simp [attaches, hother (d := ':') (by decide), hother (d := '\\') (by decide)]

/-- A marker that is put into a text is found there. -/
theorem markersFrom_spelling {m : Marker} (hm : m.IsReadable) (hbefore : attaches before = false)
    (hbehind : ∀ c ∈ cs.head?, endsMarker c = true) :
    markersFrom none before (m.spelling ++ cs) =
      m :: markersFrom none m.spelling.getLast? cs := by
  have hmarker := marker?_spelling hm hbefore hbehind
  obtain ⟨sign, tail, hspelling, hsign, -, hchars⟩ := hm.spelling
  have hunquoted : quoteAfter none sign = none := by
    rcases hsign with rfl | rfl <;> rfl
  have hunsigned : ∀ c ∈ tail, IsUnsigned c := fun c hc => isUnsigned_of (hchars c hc) (by decide)
  rw [hspelling, List.cons_append] at hmarker ⊢
  rw [markersFrom, hmarker, hunquoted, markersFrom_unsigned hunsigned, List.getLast?_cons]
  cases tail.getLast? <;> rfl

/-! ### Texts with the same front -/

/-- The texts are the same up to a sign in either, or to the end. -/
inductive SameFront : List Char → List Char → Prop
  | nil : SameFront [] []
  | cons (c : Char) {cs ds : List Char} (h : SameFront cs ds) : SameFront (c :: cs) (c :: ds)
  | sign {c d : Char} {cs ds : List Char} (hc : c = '?' ∨ c = ':') (hd : d = '?' ∨ d = ':') :
      SameFront (c :: cs) (d :: ds)

namespace SameFront

theorem takeWhile {p : Char → Bool} (h : SameFront cs ds) (hp : p '?' = false ∧ p ':' = false) :
    cs.takeWhile p = ds.takeWhile p := by
  induction h with
  | nil => rfl
  | cons c _ ih => rw [List.takeWhile_cons, List.takeWhile_cons, ih]
  | sign hc hd => rcases hc with rfl | rfl <;> rcases hd with rfl | rfl <;> simp [hp]

theorem dropWhile {p : Char → Bool} (h : SameFront cs ds) (hp : p '?' = false ∧ p ':' = false) :
    SameFront (cs.dropWhile p) (ds.dropWhile p) := by
  induction h with
  | nil => exact .nil
  | cons c h ih =>
    rw [List.dropWhile_cons, List.dropWhile_cons]
    split
    · exact ih
    · exact .cons c h
  | sign hc hd =>
    rw [List.dropWhile_cons_of_neg (by rcases hc with rfl | rfl <;> simp [hp]),
      List.dropWhile_cons_of_neg (by rcases hd with rfl | rfl <;> simp [hp])]
    exact .sign hc hd

theorem head?_any {p : Char → Bool} (h : SameFront cs ds) (hp : p '?' = p ':') :
    cs.head?.any p = ds.head?.any p := by
  cases h with
  | nil => rfl
  | cons c _ => rfl
  | sign hc hd => rcases hc with rfl | rfl <;> rcases hd with rfl | rfl <;> simp [hp]

/-- Which marker stands at the front of a text depends on the front of what follows its sign. -/
theorem marker? (h : SameFront cs ds) (hbefore : attaches before' = attaches before) (c : Char) :
    (marker? before' (c :: ds)).map (·.1) = (Markers.marker? before (c :: cs)).map (·.1) := by
  by_cases hc : c ≠ '?' ∧ c ≠ ':'
  · rw [marker?_eq_none hc, marker?_eq_none hc]
  obtain rfl | rfl : c = '?' ∨ c = ':' := by simpa [or_iff_not_imp_left] using hc
  · have hdigits := h.takeWhile (p := Text.isDecimalDigit) (by decide)
    have hends := (h.dropWhile (p := Text.isDecimalDigit) (by decide)).head?_any
      (p := continuesMarker) (by decide)
    simp only [Markers.marker?, hdigits, hends]
    split
    · rfl
    split
    · rfl
    · rw [Option.map_map, Option.map_map]
      rfl
  · have hname := h.takeWhile (p := isNameChar) (by decide)
    have hbefore : before'.any (fun c => c == ':' || c == '\\') =
        before.any (fun c => c == ':' || c == '\\') := hbefore
    simp only [Markers.marker?, hname, hbefore]
    split <;> rfl

theorem endsMarker (h : SameFront cs ds) (hcs : ∀ c ∈ cs.head?, Markers.endsMarker c = true) :
    ∀ d ∈ ds.head?, Markers.endsMarker d = true := by
  cases h with
  | nil => exact hcs
  | cons c _ => exact hcs
  | sign _ hd =>
    rintro d ⟨⟩
    rcases hd with rfl | rfl <;> decide

end SameFront

/-! ### Labels and names -/

/-- How the names of put markers begin. -/
def reserved : String := "__$synthetic$__"

/-- The marker that is put for the next expression. -/
def Substituted.mark (s : Substituted) (byIndex : Bool) : Marker :=
  if byIndex then .numbered s.labels.allocate.1
  else .named (reserved ++ toString (s.expressions.length + 1))

theorem push_eq (s : Substituted) (byIndex : Bool) (expression : String) :
    ∃ key, (s.mark byIndex).key? = some key ∧ s.push byIndex expression = {
      text := s.text ++ (s.mark byIndex).spelling
      expressions := s.expressions ++ [(key, expression)]
      labels := if byIndex then s.labels.allocate.2 else s.labels } := by
  cases byIndex <;> exact ⟨_, rfl, rfl⟩

theorem mark_isReadable {s : Substituted} (h : s.labels.used.length + 1 < maxPosition)
    (byIndex : Bool) : (s.mark byIndex).IsReadable := by
  cases byIndex with
  | true => exact Nat.lt_of_le_of_lt s.labels.allocate_le h
  | false =>
    have hreserved : ∀ c ∈ reserved.toList, isNameChar c = true := by
      simp [reserved, isNameChar, Text.isSeparator, Text.isAscii, Char.isAlphanum, Char.isAlpha,
        Char.isLower, Char.isUpper, Char.isDigit]
    refine ⟨by simp [reserved], ?_⟩
    rw [String.toList_append]
    exact List.forall_mem_append.2 ⟨hreserved,
      fun c hc => isNameChar_of_isDigit (Lexer.isDigit_of_mem_toString hc)⟩

/-- No two expressions have a key in common, and no key is a number of the text. -/
structure Fresh (byIndex : Bool) (used : List Nat) (s : Substituted) : Prop where
  labels : s.labels.WellFormed
  kept : used ⊆ s.labels.used
  nodup : (s.expressions.map (·.1)).Nodup
  numbered : byIndex = true →
    ∀ e ∈ s.expressions, ∃ n ∈ s.labels.used, n ∉ used ∧ e.1 = toString n
  named : byIndex = false →
    ∀ e ∈ s.expressions, ∃ i < s.expressions.length, e.1 = reserved ++ toString (i + 1)

theorem fresh_start {used : List Nat} (h : used.Nodup) (byIndex : Bool) :
    Fresh byIndex used { labels := .ofUsed used } :=
  ⟨Labels.wellFormed_ofUsed h, fun _ hn => hn, List.nodup_nil, fun _ => List.forall_mem_nil _,
    fun _ => List.forall_mem_nil _⟩

section

variable {byIndex : Bool} {used : List Nat} {s s' : Substituted} {key : String}

theorem Fresh.withText (h : Fresh byIndex used s) (text : List Char) :
    Fresh byIndex used { s with text } :=
  ⟨h.labels, h.kept, h.nodup, h.numbered, h.named⟩

theorem Fresh.key_notMem (h : Fresh byIndex used s) (hkey : (s.mark byIndex).key? = some key) :
    key ∉ s.expressions.map (·.1) := by
  intro hmem
  obtain ⟨e, he, rfl⟩ := List.mem_map.1 hmem
  cases byIndex with
  | true =>
    obtain ⟨n, hn, -, hsame⟩ := h.numbered rfl e he
    have hkey : toString s.labels.allocate.1 = e.1 := Option.some.inj hkey
    have hnumber : s.labels.allocate.1 = n := Nat.repr_inj.1 (hkey.trans hsame)
    exact h.labels.allocate_notMem (hnumber ▸ hn)
  | false =>
    obtain ⟨i, hi, hsame⟩ := h.named rfl e he
    have hkey : reserved ++ toString (s.expressions.length + 1) = e.1 := Option.some.inj hkey
    have hnumber := Nat.repr_inj.1 (String.append_right_inj _ |>.1 (hkey.trans hsame))
    omega

/-- The next expression is kept apart from those before it. -/
theorem Fresh.push (h : Fresh byIndex used s) (expression : String) :
    Fresh byIndex used (s.push byIndex expression) := by
  obtain ⟨key, hkey, heq⟩ := push_eq s byIndex expression
  have hnodup : ((s.expressions ++ [(key, expression)]).map (·.1)).Nodup := by
    rw [List.map_append, List.map_singleton, ← List.concat_eq_append]
    exact h.nodup.concat (h.key_notMem hkey)
  rw [heq]
  cases byIndex with
  | true =>
    have hused : s.labels.allocate.2.used = _ := h.labels.used_allocate
    refine ⟨h.labels.allocate, ?_, hnodup, fun _ => ?_, fun hfalse => Bool.noConfusion hfalse⟩
    · change used ⊆ s.labels.allocate.2.used
      rw [hused]
      exact List.subset_cons_of_subset _ h.kept
    · change ∀ e ∈ s.expressions ++ [(key, expression)], ∃ n ∈ s.labels.allocate.2.used, _
      rw [hused]
      refine List.forall_mem_append.2 ⟨fun e he => ?_, List.forall_mem_singleton.2 ?_⟩
      · obtain ⟨n, hn, hnew, hsame⟩ := h.numbered rfl e he
        exact ⟨n, List.mem_cons_of_mem _ hn, hnew, hsame⟩
      · exact ⟨_, List.mem_cons_self, fun hmem => h.labels.allocate_notMem (h.kept hmem),
          (Option.some.inj hkey).symm⟩
  | false =>
    refine ⟨h.labels, h.kept, hnodup, fun htrue => Bool.noConfusion htrue, fun _ => ?_⟩
    have hlength : (s.expressions ++ [(key, expression)]).length = s.expressions.length + 1 := by
      simp
    dsimp only
    rw [hlength]
    refine List.forall_mem_append.2 ⟨fun e he => ?_, List.forall_mem_singleton.2 ?_⟩
    · obtain ⟨i, hi, hsame⟩ := h.named rfl e he
      exact ⟨i, Nat.lt_succ_of_lt hi, hsame⟩
    · exact ⟨_, Nat.lt_succ_self _, (Option.some.inj hkey).symm⟩

/-- An expression is found under its key. -/
theorem Fresh.expression?_eq (h : Fresh byIndex used s) {expression : String}
    (hmem : (key, expression) ∈ s.expressions) : s.expression? key = some expression := by
  obtain ⟨front, back, hsplit⟩ := List.append_of_mem hmem
  refine List.lookup_eq_some_iff.2 ⟨front, back, hsplit, fun e he => bne_iff_ne.2 ?_⟩
  have hnodup := h.nodup
  rw [hsplit, List.map_append, List.nodup_append] at hnodup
  exact (hnodup.2.2 _ (List.mem_map_of_mem he) _ List.mem_cons_self).symm

/-- No expression is found under the key of a marker that is neither reserved nor, though it is a
name, the number of an expression. -/
theorem Fresh.expression?_eq_none {m : Marker} (h : Fresh byIndex used s)
    (hnumbered : ∀ n, m = .numbered n → n ∈ used)
    (hreserved : ∀ name, m = .named name → ¬ reserved.toList <+: name.toList)
    (hnumbers : ∀ n : Nat, m = .named (toString n) → s.expression? (toString n) = none) :
    m.key?.bind s.expression? = none := by
  by_contra hfound
  obtain ⟨expression, hfound⟩ := Option.ne_none_iff_exists'.1 hfound
  obtain ⟨key, hkey, hlookup⟩ := Option.bind_eq_some_iff.1 hfound
  have hmem : (key, expression) ∈ s.expressions := by
    obtain ⟨front, back, hsplit, -⟩ := List.lookup_eq_some_iff.1 hlookup
    exact hsplit ▸ List.mem_append_right _ List.mem_cons_self
  cases m with
  | unnumbered => cases hkey
  | numbered n =>
    obtain rfl := Option.some.inj hkey
    cases byIndex with
    | true =>
      obtain ⟨k, -, hunused, hsame⟩ := h.numbered rfl _ hmem
      exact hunused (Nat.repr_inj.1 hsame ▸ hnumbered n rfl)
    | false =>
      obtain ⟨i, -, hsame⟩ := h.named rfl _ hmem
      have hunderscore : '_' ∈ (toString n).toList := by
        rw [show toString n = _ from hsame]
        simp [reserved]
      have hdigit := Lexer.isDigit_of_mem_toString hunderscore
      cases hdigit
  | named name =>
    obtain rfl := Option.some.inj hkey
    cases byIndex with
    | true =>
      obtain ⟨k, -, -, rfl⟩ := h.numbered rfl _ hmem
      rw [hnumbers k rfl] at hlookup
      cases hlookup
    | false =>
      obtain ⟨i, -, rfl⟩ := h.named rfl _ hmem
      refine hreserved _ rfl ?_
      rw [String.toList_append]
      exact List.prefix_append _ _

end

/-! ### Replaced expressions -/

/-- Items of a text with the markers that stand in their places, and the expressions by the keys of
their markers. -/
inductive Marked : List Item → List Marker → List (String × String) → Prop
  | nil : Marked [] [] []
  | marker (m : Marker) {items : List Item} {ms : List Marker} {more : List (String × String)}
      (h : Marked items ms more) : Marked (.marker m :: items) (m :: ms) more
  | expression (text : String) {m : Marker} {key : String} (hkey : m.key? = some key)
      {items : List Item} {ms : List Marker} {more : List (String × String)}
      (h : Marked items ms more) :
      Marked (.expression text :: items) (m :: ms) ((key, text) :: more)

theorem Marked.markers {ms' : List Marker} {more : List (String × String)}
    (h : Marked items ms' more) (ms : List Marker) :
    Marked (ms.map .marker ++ items) (ms ++ ms') more := by
  induction ms with
  | nil => exact h
  | cons m _ ih => exact .marker m ih

/-- What replacing the expressions of a text leads to: `added` stands for the text, and `more` are
its expressions. -/
structure Puts (byIndex : Bool) (used : List Nat) (opened before : Option Char)
    (s s' : Substituted) (cs : List Char) (items : List Item) (added : List Char)
    (more : List (String × String)) : Prop where
  replaces : Replaces byIndex opened s cs s' true
  text : s'.text = s.text ++ added
  expressions : s'.expressions = s.expressions ++ more
  fresh : Fresh byIndex used s'
  marked : Marked items (markersFrom opened before added) more
  front : SameFront cs added

theorem taken_eq {taken rest body inner : List Char}
    (hstart : expressionStart? (taken ++ rest) = some body)
    (hcut : cutAtBrace? 0 body = some (inner, rest)) :
    ∃ sign, (sign = ':' ∨ sign = '?') ∧ taken = sign :: '#' :: '\x7b' :: inner ++ ['\x7d'] := by
  obtain ⟨sign, hsign, hbody⟩ := expressionStart?_ok hstart
  have hsame : taken ++ rest = sign :: '#' :: '\x7b' :: inner ++ ['\x7d'] ++ rest := by
    rw [hbody, ← cutAtBrace?_ok hcut]
    simp
  exact ⟨sign, hsign, List.append_cancel_right hsame⟩

section

variable {byIndex : Bool} {used : List Nat} {s : Substituted}

theorem length_used_push (h : Fresh byIndex used s) (expression : String) :
    (s.push byIndex expression).labels.used.length ≤ s.labels.used.length + 1 := by
  obtain ⟨key, -, heq⟩ := push_eq s byIndex expression
  rw [heq]
  cases byIndex with
  | true => exact Nat.le_of_eq (congrArg List.length h.labels.used_allocate)
  | false => exact Nat.le_succ _

/-- As long as labels are left, each expression of a text gets a marker of its own, and the other
markers stay what they are. The induction is on how the items of the text are read. -/
theorem Reads.puts (h : Reads opened before cs items) (hs : Fresh byIndex used s)
    (hroom : s.labels.used.length + cs.length < maxPosition)
    (hbefore : attaches before' = attaches before) :
    ∃ s' added more, Puts byIndex used opened before' s s' cs items added more := by
  induction h generalizing s before' with
  | nil => exact ⟨s, [], [], .nil, by simp, by simp, hs, .nil, .nil⟩
  | @char opened before c cs items hnone _ ih =>
    rw [List.length_cons] at hroom
    obtain ⟨s', added, more, h⟩ := ih (hs.withText (s.text ++ [c])) (by dsimp only; omega)
      (rfl : attaches (some c) = _)
    refine ⟨s', c :: added, more, .char hnone h.replaces, ?_, h.expressions, h.fresh, ?_,
      .cons c h.front⟩
    · rw [h.text, List.append_assoc, List.singleton_append]
    · rw [markersFrom, h.front.marker? hbefore]
      exact h.marked.markers _
  | @expression before taken rest body inner items hstart hcut hinner hapart hbehind _ ih =>
    have hlength := length_of_expression hstart hcut
    have hread := mark_isReadable (s := s) (by omega) byIndex
    have hroom' := length_used_push hs (Text.trim (String.ofList inner))
    obtain ⟨s', added, more, h⟩ := ih (hs.push (Text.trim (String.ofList inner))) (by omega)
      (attaches_spelling hread)
    obtain ⟨key, hkey, heq⟩ := push_eq s byIndex (Text.trim (String.ofList inner))
    obtain ⟨sign, hsign, htaken⟩ := taken_eq hstart hcut
    have hunquoted : quoteAfterAll none taken = none := by
      refine quoteAfterAll_none ?_
      rw [htaken]
      simp only [List.cons_append, List.forall_mem_cons, List.forall_mem_append]
      refine ⟨?_, rfl, rfl, hinner, rfl, List.forall_mem_nil _⟩
      rcases hsign with rfl | rfl <;> rfl
    refine ⟨s', (s.mark byIndex).spelling ++ added, (key, Text.trim (String.ofList inner)) :: more,
      .expression hstart hcut ?_, ?_, ?_, h.fresh, ?_, ?_⟩
    · rw [hunquoted]
      exact h.replaces
    · rw [h.text, heq, List.append_assoc]
    · rw [h.expressions, heq, List.append_assoc]
      rfl
    · rw [markersFrom_spelling hread (hbefore.trans hapart) (h.front.endsMarker hbehind)]
      exact .expression _ hkey h.marked
    · obtain ⟨sign', tail, hspelling, hsign', -, -⟩ := hread.spelling
      rw [htaken, hspelling]
      exact .sign hsign.symm hsign'

end

/-! ### Numbers of the text -/

theorem length_positions_le (cs : List Char) : (positions cs).length ≤ cs.length := by
  have hinsert (n : Nat) (used : List Nat) : (Labels.insert n used).length ≤ used.length + 1 := by
    unfold Labels.insert
    split
    · exact Nat.le_succ _
    · exact Nat.le_refl _
  induction cs with
  | nil => exact Nat.le_refl _
  | cons c cs ih =>
    rw [positions, List.length_cons]
    split
    · split
      · exact Nat.le_trans (hinsert _ _) (Nat.succ_le_succ ih)
      · exact Nat.le_succ_of_le ih
    · exact Nat.le_succ_of_le ih

theorem positions_subset_append (front cs : List Char) :
    positions cs ⊆ positions (front ++ cs) := by
  induction front with
  | nil => exact List.Subset.refl _
  | cons c front ih =>
    intro n hn
    rw [List.cons_append, positions]
    split
    · split
      · exact Labels.mem_insert.2 (.inr (ih hn))
      · exact ih hn
    · exact ih hn

theorem mem_positions_of_marker? {n : Nat} {c : Char}
    (h : (marker? before (c :: cs)).map (·.1) = some (.numbered n)) : n ∈ positions (c :: cs) := by
  have hsome : c = '?' ∧ positionIn? cs = some n := by
    by_cases hc : c ≠ '?' ∧ c ≠ ':'
    · rw [marker?_eq_none hc] at h
      cases h
    obtain rfl | rfl : c = '?' ∨ c = ':' := by simpa [or_iff_not_imp_left] using hc
    · refine ⟨rfl, ?_⟩
      simp only [marker?] at h
      rw [positionIn?]
      split at h
      · cases h
      next hends =>
        rw [if_neg hends]
        split at h
        · cases h
        · rw [Option.map_map] at h
          obtain ⟨k, hk, heq⟩ := Option.map_eq_some_iff.1 h
          obtain rfl := Marker.numbered.inj heq
          exact hk
    · simp only [marker?] at h
      split at h <;> cases h
  obtain ⟨rfl, hposition⟩ := hsome
  rw [positions, if_pos (beq_self_eq_true _), hposition]
  exact Labels.mem_insert.2 (.inl rfl)

/-- The numbers of the markers are in use. -/
theorem Reads.numbered (h : Reads opened before cs items) {n : Nat}
    (hn : .marker (.numbered n) ∈ items) : n ∈ positions cs := by
  induction h with
  | nil => cases hn
  | @char opened before c cs items _ _ ih =>
    rcases List.mem_append.1 hn with hn | hn
    · obtain ⟨m, hm, heq⟩ := List.mem_map.1 hn
      obtain rfl := Item.marker.inj heq
      split at hm
      · cases hm
      · exact mem_positions_of_marker? (Option.mem_toList.1 hm)
    · exact positions_subset_append [c] cs (ih hn)
  | expression _ _ _ _ _ _ ih =>
    rcases List.mem_cons.1 hn with heq | hn
    · cases heq
    · exact positions_subset_append _ _ (ih hn)

end Jpql.Markers

namespace Jpql.ExtractedQuery

open Markers

/-- In a text with its expressions replaced each marker stands in the place of an item, and a marker
of the text in its own. -/
theorem substituted_marked {cs : List Char} {items : List Item} (h : items? cs = some items)
    (hlength : cs.length < 2 ^ 63) :
    Marked items ((occurrences (substituted cs).text).map (·.marker)) (substituted cs).expressions ∧
      ∃ byIndex, Fresh byIndex (positions cs) (substituted cs) := by
  have hroom : (Labels.ofUsed (positions cs)).used.length + cs.length < maxPosition := by
    have hle : (Labels.ofUsed (positions cs)).used.length ≤ cs.length := length_positions_le cs
    rw [maxPosition]
    omega
  obtain ⟨s', added, more, hputs⟩ := (reads_itemsFrom? h).puts
    (fresh_start (nodup_positions cs) (!(Labels.ofUsed (positions cs)).used.isEmpty ||
      Text.contains ['?', '#', '\x7b'] cs)) hroom (Eq.refl (attaches none))
  have hs : substituted cs = s' := hputs.replaces.substituteFrom_eq (Nat.le_refl _)
  have htext : s'.text = added := hputs.text
  have hexpressions : s'.expressions = more := hputs.expressions
  rw [hs, markers_pieces, htext, hexpressions]
  exact ⟨hputs.marked, _, hputs.fresh⟩

end Jpql.ExtractedQuery
