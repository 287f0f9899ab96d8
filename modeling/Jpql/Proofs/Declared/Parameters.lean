import Jpql.Declared
import Jpql.Proofs.Declared.Pieces
import Jpql.Proofs.Declared.Run
import Jpql.Proofs.Token.Parameters
import Mathlib

/-! The parameters that an extracted text is read with. The extraction and the lexer each have their
own idea of what a marker is. Where every sign outside quotes belongs to a marker that both read
alike, the parameters among the tokens are those of the bindings. -/

namespace Jpql

/-! ### Legible texts -/

namespace Markers

/-- Whether a name is one word, as the lexer reads it. -/
def Marker.isReadable : Marker → Bool
  | .unnumbered | .numbered _ => true
  | .named name => Lexer.isWord name

/-- Every sign outside quotes belongs to a marker, and no marker runs into what stands behind it. -/
def isLegible : (opened : Option Char) → List Piece → Bool
  | _, [] => true
  | opened, .text cs :: ps => Lexer.isUnsigned opened cs && isLegible (quoteAfterAll opened cs) ps
  | _, .occurrence o :: ps =>
    o.marker.isReadable && !Lexer.startsWith Lexer.isIdentifierPart (ps.flatMap Piece.source) &&
      isLegible none ps

theorem isReadable_of_isLegible {opened : Option Char} {ps : List Piece}
    (h : isLegible opened ps = true) {o : Occurrence} (ho : .occurrence o ∈ ps) :
    o.marker.isReadable = true := by
  induction ps generalizing opened with
  | nil => cases ho
  | cons p ps ih =>
    cases p with
    | text cs =>
      obtain ⟨-, hps⟩ := Bool.and_eq_true_iff.1 h
      exact ih hps ((List.mem_cons.1 ho).resolve_left Piece.noConfusion)
    | occurrence o' =>
      obtain ⟨hhead, hps⟩ := Bool.and_eq_true_iff.1 h
      rcases List.mem_cons.1 ho with heq | ho
      · exact Piece.occurrence.inj heq ▸ (Bool.and_eq_true_iff.1 hhead).1
      · exact ih hps ho

end Markers

/-! ### Parameters with a name or position -/

/-- The lexer reads the parameter's marker as one token. -/
def BindingIdentifier.IsReadable : BindingIdentifier → Prop
  | .named name => Lexer.isWord name = true
  | .indexed _ => True
  | .namedAndIndexed _ _ => False

namespace ExtractedQuery

open Markers Lexer

theorem isWord_append {w : String} (h : isWord w = true) {s : String}
    (hs : ∀ c ∈ s.toList, isIdentifierPart c = true) : isWord (w ++ s) = true := by
  obtain ⟨c, cs, hw, hc, hcs⟩ := exists_of_isWord h
  have htext : (w ++ s).toList = c :: (cs ++ s.toList) := by rw [String.toList_append, hw]; rfl
  rw [isWord, htext]
  exact Bool.and_eq_true_iff.2 ⟨hc, List.all_eq_true.2 (List.forall_mem_append.2 ⟨hcs, hs⟩)⟩

theorem isWord_suffixed {w : String} (h : isWord w = true) (n : Nat) :
    isWord (w ++ "_" ++ toString n) = true := by
  refine isWord_append (isWord_append h ?_) fun c hc =>
    isIdentifierPart_of_isDigit (isDigit_of_mem_toString hc)
  exact List.forall_mem_singleton.2 (by decide)

theorem isWord_freshName {name : String} (h : isWord name = true) (names : List String) :
    isWord (freshName name names) = true := by
  unfold freshName
  dsimp only
  generalize hfound : List.find? _ _ = found
  cases found with
  | none => exact isWord_suffixed h _
  | some candidate =>
    rcases List.mem_cons.1 (List.mem_of_find?_eq_some hfound) with rfl | hmem
    · exact h
    · obtain ⟨i, -, rfl⟩ := List.mem_map.1 hmem
      exact isWord_suffixed h _

theorem inherited_isReadable : Inherited BindingIdentifier.IsReadable :=
  ⟨fun _ => trivial, fun _ names h => isWord_freshName h names⟩

/-! ### Signs of the extracted text -/

/-- A marker in a text starts with its sign and is read up to its end. -/
theorem signed_markerText {target : BindingIdentifier} (htarget : target.IsReadable)
    {rest : List Char} (hrest : startsWith isIdentifierPart rest = false) :
    signed none ((markerText true target).toList ++ rest) =
      (markerText true target).toList :: signed none rest := by
  cases target with
  | named name =>
    obtain ⟨c, cs, hname, hc, hcs⟩ := exists_of_isWord htarget
    have hparts : ∀ d ∈ c :: cs, isIdentifierPart d = true :=
      List.forall_mem_cons.2 ⟨isIdentifierPart_of_start hc, hcs⟩
    have htext : (markerText true (.named name)).toList = ':' :: c :: cs := by
      simp [markerText, hname]
    have hsign : signed none (':' :: (c :: cs ++ rest)) =
        (':' :: (c :: cs ++ rest).takeWhile isIdentifierPart) :: signed none (c :: cs ++ rest) := by
      simp [signed, startsWith, hc]
    rw [htext, List.cons_append, hsign, (takeWhile_append_stop hparts hrest).1,
      signed_plain fun d hd => isPlain_of_isIdentifierPart (hparts d hd)]
  | indexed n =>
    have hdigits : ∀ c ∈ (toString n).toList, c.isDigit = true :=
      fun _ => isDigit_of_mem_toString
    have hrest : startsWith Char.isDigit rest = false := by
      cases rest with
      | nil => rfl
      | cons c rest =>
        rw [startsWith, Bool.eq_false_iff]
        intro hc
        rw [startsWith, isIdentifierPart_of_isDigit hc] at hrest
        cases hrest
    have htext : (markerText true (.indexed n)).toList = '?' :: (toString n).toList := by
      simp [markerText]
    have hsign (cs : List Char) :
        signed none ('?' :: cs) = ('?' :: cs.takeWhile Char.isDigit) :: signed none cs := rfl
    rw [htext, List.cons_append, hsign, (takeWhile_append_stop hdigits hrest).1,
      signed_plain fun d hd =>
        isPlain_of_isIdentifierPart (isIdentifierPart_of_isDigit (hdigits d hd))]
  | namedAndIndexed => cases htarget

theorem head_markerText (numbered : Bool) (target : BindingIdentifier) :
    ∃ cs, (markerText numbered target).toList = '?' :: cs ∨
      (markerText numbered target).toList = ':' :: cs := by
  cases target with
  | named name | namedAndIndexed name => exact ⟨name.toList, .inr (by simp [markerText])⟩
  | indexed n =>
    cases numbered with
    | true => exact ⟨(toString n).toList, .inl (by simp [markerText])⟩
    | false => exact ⟨[], .inl (by simp [markerText])⟩

/-- Where the text does not go on with a part of a word, neither does the extracted text. -/
theorem startsWith_extracted {segments : List Segment}
    (h : startsWith isIdentifierPart (segments.flatMap (·.piece.source)) = false) :
    startsWith isIdentifierPart (segments.flatMap Segment.extracted) = false := by
  induction segments with
  | nil => rfl
  | cons segment segments ih =>
    rw [List.flatMap_cons] at h ⊢
    cases segment with
    | text cs =>
      cases cs with
      | nil => exact ih h
      | cons c cs => exact h
    | marker x =>
      have hmark : isIdentifierPart '?' = false := by decide
      have hcolon : isIdentifierPart ':' = false := by decide
      obtain ⟨cs, hcs | hcs⟩ := head_markerText (!x.isUnnumbered) x.target
      · rwa [Segment.extracted, hcs]
      · rwa [Segment.extracted, hcs]

/-- The signs of the extracted text start the markers of the parameters, in order. -/
theorem signed_extracted {opened before : Option Char} {cs : List Char} {ps : List Piece}
    (h : Cuts opened before cs ps) (hlegible : isLegible opened ps = true)
    {segments : List Segment} (hps : segments.map Segment.piece = ps)
    (hreadable : ∀ x ∈ segments.filterMap Segment.assigned?,
      x.isUnnumbered = false ∧ x.target.IsReadable) :
    signed opened (segments.flatMap Segment.extracted) =
      (segments.filterMap Segment.assigned?).map fun x => (markerText true x.target).toList := by
  induction h generalizing segments with
  | nil =>
    obtain rfl := List.map_eq_nil_iff.1 hps
    rfl
  | char _ _ ih | quoted _ _ _ ih =>
    obtain ⟨hunsigned, hlegible⟩ := Bool.and_eq_true_iff.1 hlegible
    obtain ⟨segment, segments, rfl, hsegment, hrest⟩ := List.map_eq_cons_iff.1 hps
    obtain rfl := Segment.eq_text hsegment
    rw [List.flatMap_cons, Segment.extracted, signed_unsigned hunsigned]
    exact ih hlegible hrest hreadable
  | @marker before taken rest lead closing o ps hsome _ ih =>
    obtain ⟨hcut, -⟩ := occurrence?_ok hsome
    have hquotes := occurrence?_unquoted hsome
    have htaken : quoteAfterAll none taken = none := by
      rw [← List.append_cancel_right hcut]
      exact quoteAfterAll_none hquotes
    obtain ⟨hquotes, hclosing⟩ := List.forall_mem_append.1 hquotes
    obtain ⟨hlead, -⟩ := List.forall_mem_append.1 hquotes
    simp only [isLegible, Bool.and_eq_true, Bool.not_eq_true', quoteAfterAll_none hclosing]
      at hlegible
    obtain ⟨hunsigned, ⟨-, hbehind⟩, hunsigned', hlegible⟩ := hlegible
    obtain ⟨_, _, rfl, hpiece, hps⟩ := List.map_eq_cons_iff.1 hps
    obtain ⟨_, _, rfl, hpiece', hps⟩ := List.map_eq_cons_iff.1 hps
    obtain ⟨_, segments, rfl, hpiece'', hrest⟩ := List.map_eq_cons_iff.1 hps
    obtain rfl := Segment.eq_text hpiece
    obtain ⟨x, rfl, -⟩ := Segment.exists_marker hpiece'
    obtain rfl := Segment.eq_text hpiece''
    obtain ⟨⟨hnumbered, hx⟩, hreadable⟩ := List.forall_mem_cons.1 hreadable
    have hstops : startsWith isIdentifierPart
        ((Segment.text closing :: segments).flatMap Segment.extracted) = false :=
      startsWith_extracted (by rw [← hbehind, ← hrest]; simp [List.flatMap_map, Segment.piece])
    calc signed none
          ((.text lead :: .marker x :: .text closing :: segments).flatMap Segment.extracted)
        = signed none ((markerText true x.target).toList ++
            (.text closing :: segments).flatMap Segment.extracted) := by
          rw [List.flatMap_cons, Segment.extracted, signed_unsigned hunsigned,
            quoteAfterAll_none hlead, List.flatMap_cons, Segment.extracted, hnumbered,
            Bool.not_false]
      _ = (markerText true x.target).toList ::
            signed none ((.text closing :: segments).flatMap Segment.extracted) :=
          signed_markerText hx hstops
      _ = (markerText true x.target).toList :: signed none (segments.flatMap Segment.extracted) := by
          rw [List.flatMap_cons, Segment.extracted, signed_unsigned hunsigned',
            quoteAfterAll_none hclosing]
      _ = _ := congrArg _ (htaken ▸ ih (htaken.symm ▸ hlegible) hrest hreadable)

end ExtractedQuery

namespace DeclaredQuery

open Markers ExtractedQuery

/-- Where the lexer reads all markers as the extraction does, the parameters among the tokens of a
query are those of its bindings. -/
theorem mem_parameters_iff {query : String} {isNative : Bool} {selector : FormSelector}
    {q : DeclaredQuery} (h : create query isNative selector = .ok q)
    (hnumbered : q.extracted.usesUnnumbered = false)
    (hlegible : isLegible none (pieces (substituted query.toList).text) = true)
    (huncommented : Lexer.isUncommented none q.query.toList = true) (t : String) :
    t ∈ parameters q.query ↔ ∃ b ∈ q.bindings, t = markerText true b.identifier := by
  obtain ⟨r, hr, h⟩ := Step.result_bind_ok.1 h
  obtain ⟨-, -, h⟩ := Step.result_bind_ok.1 h
  obtain rfl := Except.ok.inj h
  obtain ⟨p, hrun, rfl⟩ := parse_ok hr
  have hnamed (o : Occurrence) (name : String)
      (ho : .occurrence o ∈ pieces (substituted query.toList).text)
      (hmarker : o.marker = .named name) : (BindingIdentifier.named name).IsReadable := by
    have hreadable := isReadable_of_isLegible hlegible ho
    rw [hmarker] at hreadable
    exact hreadable
  obtain ⟨segments, hpieces, hassigns⟩ :=
    foldlM_step_assigns inherited_isReadable hrun (registered_start _) hnamed
  have hreadable : ∀ x ∈ segments.filterMap Segment.assigned?,
      x.isUnnumbered = false ∧ x.target.IsReadable := by
    refine fun x hx => ⟨?_, hassigns.identifier x hx⟩
    rw [Bool.eq_false_iff]
    intro hx'
    have hunnumbered : p.unnumbered = true := hassigns.unnumbered (.inr ⟨x, hx, hx'⟩)
    rw [show p.unnumbered = false from hnumbered] at hunnumbered
    cases hunnumbered
  have htext : (ofExtracted (finished query isNative id p) selector).query.toList =
      segments.flatMap Segment.extracted := String.toList_ofList.trans hassigns.text
  have hparameters : parameters (ofExtracted (finished query isNative id p) selector).query =
      (segments.filterMap Segment.assigned?).map fun x => markerText true x.target := by
    rw [parameters_eq huncommented, htext,
      signed_extracted (cuts_pieces _) hlegible hpieces hreadable, List.map_map]
    exact List.map_congr_left fun x _ => String.ofList_toList
  rw [hparameters, List.mem_map]
  constructor
  · rintro ⟨x, hx, rfl⟩
    obtain ⟨b, hb, htarget, -⟩ := hassigns.binds x hx
    exact ⟨b, hb, by rw [htarget]⟩
  · rintro ⟨b, hb, rfl⟩
    rcases hassigns.added b hb with hstart | ⟨x, hx, htarget⟩
    · cases hstart
    · exact ⟨x, hx, by rw [htarget]⟩

theorem mem_parameters_iff_like : ∃ q,
    create "select u from U u where u.a = :a or u.a like %:a" false {} = .ok q ∧
    q.extracted.usesUnnumbered = false ∧
    isLegible none
      (pieces (substituted "select u from U u where u.a = :a or u.a like %:a".toList).text) = true ∧
    Lexer.isUncommented none q.query.toList = true ∧
    ∀ t, t ∈ parameters q.query ↔ ∃ b ∈ q.bindings, t = markerText true b.identifier := by
  have haccepted : (create "select u from U u where u.a = :a or u.a like %:a" false {}).toOption.map
      (fun q => (q.extracted.usesUnnumbered, Lexer.isUncommented none q.query.toList)) =
        some (false, true) := by decide +kernel
  obtain ⟨q, hq, heq⟩ := Step.exists_of_toOption_map haccepted
  obtain ⟨hnumbered, huncommented⟩ := Prod.mk.inj heq
  have hlegible : isLegible none (pieces
      (substituted "select u from U u where u.a = :a or u.a like %:a".toList).text) = true := by
    decide
  exact ⟨q, hq, hnumbered, hlegible, huncommented,
    mem_parameters_iff hq hnumbered hlegible huncommented⟩

/-- Without the `%` behind it the marker runs into the number behind that, and the lexer reads
another parameter than the one bound. -/
theorem parameters_run_on : ∃ q,
    create "select u from U u where u.a = ?1%2" false {} = .ok q ∧
    q.extracted.usesUnnumbered = false ∧ parameters q.query = ["?12"] ∧
    q.bindings.map (·.identifier) = [.indexed 1] := by
  have haccepted : (create "select u from U u where u.a = ?1%2" false {}).toOption.map (fun q =>
      (q.extracted.usesUnnumbered, parameters q.query, q.bindings.map (·.identifier))) =
        some (false, ["?12"], [.indexed 1]) := by decide +kernel
  obtain ⟨q, hq, heq⟩ := Step.exists_of_toOption_map haccepted
  obtain ⟨hnumbered, heq⟩ := Prod.mk.inj heq
  exact ⟨q, hq, hnumbered, Prod.mk.inj heq⟩

end DeclaredQuery

end Jpql
