import Jpql.Derived.SelectQuery
import Jpql.Proofs.Rendering.Building
import Jpql.Proofs.Text.Marker
import Mathlib

/-! The markers in the text of a select query. As long as no name in the query reads as a marker
itself, they are the positions of the parameters in its predicate and then in its orders, from left
to right. -/

namespace Jpql

open Text (markersIn markersOf Closed markersIn_append closed_concat)

namespace Text

theorem markersIn_append_text {s sep t : String} {c : Char} (hsep : sep.toList = [c])
    (hc : c ≠ '?') (hd : c.isDigit = false) :
    markersIn (s ++ sep ++ t) = markersIn s ++ markersIn t := by
  have hfirst : sep.toList.takeWhile Char.isDigit = [] := by simp [hsep, hd]
  have hclosed : Closed (s ++ sep).toList := by
    rw [String.toList_append, hsep]
    exact closed_concat hc hd _
  have hnone : markersIn sep = [] := by rw [markersIn, hsep, markersOf_singleton]
  rw [markersIn_append (.inl hclosed), markersIn_append (.inr hfirst), hnone, List.append_nil]

@[simp] theorem markersIn_dot (s t : String) :
    markersIn (s ++ "." ++ t) = markersIn s ++ markersIn t :=
  markersIn_append_text (c := '.') (by simp) (by decide) (by decide)

/-- Names joined by points hold no marker if no name does. -/
theorem markersIn_dotted {names : List String} (h : ∀ n ∈ names, markersIn n = []) :
    markersIn (".".intercalate names) = [] := by
  induction names with
  | nil => simp
  | cons n names ih =>
    cases names with
    | nil => simpa using h n
    | cons m names =>
      rw [String.intercalate_cons_cons, markersIn_dot, h n (by simp),
        ih fun n hn => h n (by simp [hn])]
      rfl

end Text

namespace Rendering

/-- Written behind any text, the stream adds the markers `ns`. -/
structure Marks (r : Rendering) (ns : List Nat) : Prop where
  toTokens_ne_nil : r.toTokens ≠ []
  adds : ∀ out, out ≠ "" → Closed out.toList → markersIn (renderInto out r) = markersIn out ++ ns

theorem closed_spaceEnded (out : String) : Closed (spaceEnded out).toList := by
  unfold spaceEnded endsWithSpace
  split
  next h =>
    obtain ⟨cs, hcs⟩ := List.getLast?_eq_some_iff.1 (by simpa using h)
    rw [hcs]
    exact closed_concat (by decide) (by decide) cs
  next =>
    rw [String.toList_append]
    exact closed_concat (by decide) (by decide) _

@[simp] theorem markersIn_spaceEnded (out : String) :
    markersIn (spaceEnded out) = markersIn out := by
  unfold spaceEnded
  split
  · rfl
  · have hspace : markersIn " " = [] := by decide
    rw [markersIn_append (.inr (by decide)), hspace, List.append_nil]

theorem marks_text {s : String} : Marks (text s) (markersIn s) where
  toTokens_ne_nil := by simp [text]
  adds out _ hout := by rw [renderInto_text, markersIn_append (.inl hout)]

theorem marks_word {w : String} : Marks (word w) (markersIn w) where
  toTokens_ne_nil := by simp [word]
  adds out _ hout := by rw [renderInto_word, markersIn_append (.inl hout)]

/-- A name that holds no marker. -/
theorem marks_name {s : String} (h : markersIn s = []) : Marks (text s) [] := h ▸ marks_text

theorem marks_keyword {w : String} (h : markersIn w = []) : Marks (word w) [] := h ▸ marks_word

theorem markersIn_foldl {rs : List Rendering} {nss : List (List Nat)}
    (h : List.Forall₂ Marks rs nss) {out : String} (hout : out ≠ "") :
    markersIn (rs.foldl (fun out s => renderInto (spaceEnded out) s) out) =
      markersIn out ++ nss.flatten := by
  induction h generalizing out with
  | nil => simp
  | cons hr _ ih =>
    have hne := spaceEnded_ne_empty hout
    rw [List.foldl_cons, ih (renderInto_ne_empty hne _), hr.adds _ hne (closed_spaceEnded out),
      markersIn_spaceEnded, List.flatten_cons, List.append_assoc]

theorem toTokens_ne_nil_of_forall₂ {rs : List Rendering} {nss : List (List Nat)}
    (h : List.Forall₂ Marks rs nss) : ∀ s ∈ rs, s.toTokens ≠ [] := by
  induction h with
  | nil => simp
  | cons hr _ ih => simpa using ⟨hr.toTokens_ne_nil, ih⟩

theorem marks_spaced {rs : List Rendering} {nss : List (List Nat)}
    (h : List.Forall₂ Marks rs nss) (hne : rs ≠ []) : Marks (spaced rs) nss.flatten := by
  cases h with
  | nil => exact absurd rfl hne
  | cons hr hrs =>
    have hall := toTokens_ne_nil_of_forall₂ hrs
    refine ⟨by simp [toTokens_spaced, hr.toTokens_ne_nil], fun out hout hclosed => ?_⟩
    have hfirst := renderInto_ne_empty hout
    rw [renderInto_spaced hr.toTokens_ne_nil hall (hfirst _), markersIn_foldl hrs (hfirst _),
      hr.adds out hout hclosed, List.flatten_cons, List.append_assoc]

theorem marks_call {name : String} (hname : markersIn name = []) {r : Rendering} {ns : List Nat}
    (h : Marks r ns) : Marks (call name r) ns where
  toTokens_ne_nil := by simp [call]
  adds out hout hclosed := by
    have hopen : Closed (out ++ name ++ "(").toList := by
      rw [String.toList_append]
      exact closed_concat (by decide) (by decide) _
    have hparen : markersIn "(" = [] ∧ markersIn ")" = [] := by decide
    have hne : out ++ name ++ "(" ≠ "" := by simp [String.append_eq_empty_iff]
    rw [renderInto_call, markersIn_append (.inr (by decide)),
      h.adds _ hne hopen, markersIn_append (.inr (by decide)), markersIn_append (.inl hclosed),
      hname, hparen.1, hparen.2]
    simp

theorem marks_commaSeparated {rs : List Rendering} {nss : List (List Nat)}
    (h : List.Forall₂ Marks rs nss) (hne : rs ≠ []) : Marks (commaSeparated rs) nss.flatten := by
  have hcomma (out : String) : Closed (out ++ ", ").toList ∧
      markersIn (out ++ ", ") = markersIn out ∧ out ++ ", " ≠ "" := by
    have hnone : markersIn ", " = [] := by decide
    refine ⟨?_, ?_, by simp [String.append_eq_empty_iff]⟩
    · rw [String.toList_append, show (", ").toList = [','] ++ [' '] from by decide,
        ← List.append_assoc]
      exact closed_concat (by decide) (by decide) _
    · rw [markersIn_append (.inr (by decide)), hnone, List.append_nil]
  have hfold : ∀ {rs : List Rendering} {nss : List (List Nat)} {out : String},
      List.Forall₂ Marks rs nss →
      markersIn (rs.foldl (fun out s => renderInto (out ++ ", ") s) out) =
        markersIn out ++ nss.flatten := by
    intro rs nss out h
    induction h generalizing out with
    | nil => simp
    | cons hr _ ih =>
      obtain ⟨hclosed, hsame, hout⟩ := hcomma out
      rw [List.foldl_cons, ih, hr.adds _ hout hclosed, hsame, List.flatten_cons, List.append_assoc]
  cases h with
  | nil => exact absurd rfl hne
  | cons hr hrs =>
    have hall := toTokens_ne_nil_of_forall₂ hrs
    refine ⟨by simp [toTokens_commaSeparated hr.toTokens_ne_nil, hr.toTokens_ne_nil],
      fun out hout hclosed => ?_⟩
    rw [renderInto_commaSeparated hr.toTokens_ne_nil hall, hfold hrs, hr.adds out hout hclosed,
      List.flatten_cons, List.append_assoc]

end Rendering

namespace Derived

open Rendering (Marks marks_text marks_name marks_keyword marks_spaced marks_call
  marks_commaSeparated markersIn_foldl toTokens_ne_nil_of_forall₂ renderInto_spaced
  renderInto_word word text)

/-! ### Parameters -/

/-- The positions of the parameters in an expression. -/
def Expression.parameters : Expression → List Nat
  | .path _ | .literal _ => []
  | .parameter n => [n]
  | .function _ argument => argument.parameters

/-- The positions of the parameters in a predicate, from left to right. -/
def Predicate.parameters : Predicate → List Nat
  | .compare left _ right => left.parameters ++ right.parameters
  | .like left _ right _ => left.parameters ++ right.parameters
  | .between tested lower upper => tested.parameters ++ lower.parameters ++ upper.parameters
  | .inList tested _ values => tested.parameters ++ values.parameters
  | .memberOf value _ collection => value.parameters ++ collection.parameters
  | .is tested _ => tested.parameters
  | .and left right | .or left right => left.parameters ++ right.parameters
  | .nested inner => inner.parameters

/-! ### Names that read as no marker -/

def Expression.Unmarked : Expression → Prop
  | .path p => markersIn p.path = []
  | .parameter _ => True
  | .literal s => markersIn s = []
  | .function name argument => markersIn name = [] ∧ argument.Unmarked

def Predicate.Unmarked : Predicate → Prop
  | .compare left operator right => left.Unmarked ∧ markersIn operator = [] ∧ right.Unmarked
  | .like left _ right _ => left.Unmarked ∧ right.Unmarked
  | .between tested lower upper => tested.Unmarked ∧ lower.Unmarked ∧ upper.Unmarked
  | .inList tested _ values => tested.Unmarked ∧ values.Unmarked
  | .memberOf value _ collection => value.Unmarked ∧ collection.Unmarked
  | .is tested test => tested.Unmarked ∧ markersIn test = []
  | .and left right | .or left right => left.Unmarked ∧ right.Unmarked
  | .nested inner => inner.Unmarked

/-- A selection of named paths has at least one. -/
def Selection.Unmarked : Selection → Prop
  | .entity | .count => True
  | .paths ps => ps ≠ [] ∧ ∀ p ∈ ps, markersIn p.path = [] ∧ markersIn p.name = []
  | .construct className ps =>
    markersIn className = [] ∧ ps ≠ [] ∧ ∀ p ∈ ps, markersIn p.path = []

structure Join.Unmarked (j : Join) : Prop where
  path : markersIn j.path = []
  aliasName : markersIn j.aliasName = []

structure SelectQuery.Unmarked (q : SelectQuery) : Prop where
  entityName : markersIn q.entityName = []
  aliasName : markersIn q.aliasName = []
  selection : q.selection.Unmarked
  joins : ∀ j ∈ q.joins, j.Unmarked
  predicate : ∀ p, q.predicate = some p → p.Unmarked
  orders : ∀ o ∈ q.orders, o.expression.Unmarked

namespace SelectQuery

variable {q : SelectQuery}

theorem markersIn_aliasOf (hq : q.Unmarked) (o : Origin) : markersIn (q.aliasOf o) = [] := by
  cases o with
  | root => exact hq.aliasName
  | join i =>
    rw [aliasOf]
    rcases hj : q.joins[i]? with _ | j
    · exact hq.aliasName
    · exact (hq.joins j (List.mem_of_getElem? hj)).aliasName

theorem markersIn_pathText (hq : q.Unmarked) {p : PathExpression} (hp : markersIn p.path = []) :
    markersIn (q.pathText p) = [] := by
  unfold pathText
  split
  · exact markersIn_aliasOf hq p.origin
  · rw [Text.markersIn_dot, markersIn_aliasOf hq, hp]
    rfl

theorem marks_expression (hq : q.Unmarked) {e : Expression} (he : e.Unmarked) :
    Marks (q.expressionRendering e) e.parameters := by
  induction e with
  | path p => exact marks_name (markersIn_pathText hq he)
  | parameter n =>
    have h := marks_text (s := "?" ++ toString n)
    rwa [Text.markersIn_marker] at h
  | literal s => exact marks_name he
  | function name argument ih => exact marks_call he.1 (ih he.2)

theorem marks_negatable (negated : Bool) {w : String} (h : markersIn w = []) :
    Marks (negatable negated w) [] := by
  refine marks_keyword ?_
  split
  · have hnot : markersIn "NOT " = [] ∧ Closed "NOT ".toList :=
      ⟨by decide, closed_concat (c := ' ') (by decide) (by decide) ['N', 'O', 'T']⟩
    rw [markersIn_append (.inl hnot.2), hnot.1, h]
    rfl
  · exact h

theorem marks_predicate (hq : q.Unmarked) {p : Predicate} (hp : p.Unmarked) :
    Marks (q.predicateRendering p) p.parameters := by
  have spaced {rs : List Rendering} {nss : List (List Nat)} {ns : List Nat}
      (h : List.Forall₂ Marks rs nss) (hne : rs ≠ []) (hns : nss.flatten = ns) :
      Marks (Rendering.spaced rs) ns := hns ▸ marks_spaced h hne
  induction p with
  | compare left operator right =>
    exact spaced (.cons (marks_expression hq hp.1) <| .cons (marks_keyword hp.2.1) <|
      .cons (marks_expression hq hp.2.2) .nil) (by simp) (by simp [Predicate.parameters])
  | like left negated right escape =>
    have hescape : markersIn (String.ofList ['\'', escape, '\'']) = [] := by
      simp [markersIn, markersOf]
    exact spaced (.cons (marks_expression hq hp.1) <|
      .cons (marks_negatable negated (by decide)) <| .cons (marks_expression hq hp.2) <|
      .cons (marks_keyword (by decide)) <| .cons (marks_name hescape) .nil) (by simp)
      (by simp [Predicate.parameters])
  | between tested lower upper =>
    exact spaced (.cons (marks_expression hq hp.1) <| .cons (marks_keyword (by decide)) <|
      .cons (marks_expression hq hp.2.1) <| .cons (marks_keyword (by decide)) <|
      .cons (marks_expression hq hp.2.2) .nil) (by simp) (by simp [Predicate.parameters])
  | inList tested negated values =>
    exact spaced (.cons (marks_expression hq hp.1) <|
      .cons (marks_negatable negated (by decide)) <|
      .cons (marks_call (by decide) (marks_expression hq hp.2)) .nil) (by simp)
      (by simp [Predicate.parameters])
  | memberOf value negated collection =>
    exact spaced (.cons (marks_expression hq hp.1) <|
      .cons (marks_negatable negated (by decide)) <| .cons (marks_expression hq hp.2) .nil)
      (by simp) (by simp [Predicate.parameters])
  | is tested test =>
    exact spaced (.cons (marks_expression hq hp.1) <| .cons (marks_keyword (by decide)) <|
      .cons (marks_keyword hp.2) .nil) (by simp) (by simp [Predicate.parameters])
  | and left right ihl ihr =>
    exact spaced (.cons (ihl hp.1) <| .cons (marks_keyword (by decide)) <| .cons (ihr hp.2) .nil)
      (by simp) (by simp [Predicate.parameters])
  | or left right ihl ihr =>
    exact spaced (.cons (ihl hp.1) <| .cons (marks_keyword (by decide)) <| .cons (ihr hp.2) .nil)
      (by simp) (by simp [Predicate.parameters])
  | nested inner ih => exact marks_call (by decide) (ih hp)

theorem marks_items {ps : List PathExpression} (hne : ps ≠ []) {f : PathExpression → Rendering}
    (hf : ∀ p ∈ ps, Marks (f p) []) : Marks (Rendering.commaSeparated (ps.map f)) [] := by
  have hall : List.Forall₂ Marks (ps.map f) (ps.map fun _ => []) := by
    clear hne
    induction ps with
    | nil => exact .nil
    | cons p ps ih => exact .cons (hf p (by simp)) (ih fun p hp => hf p (by simp [hp]))
  have h := marks_commaSeparated hall (by simpa using hne)
  rwa [List.flatten_eq_nil_iff.2 (by simp)] at h

theorem marks_distinct {r : Rendering} (h : Marks r []) : Marks (q.distinctRendering r) [] := by
  unfold distinctRendering
  split
  · exact marks_spaced (.cons (marks_keyword (by decide)) <| .cons h .nil) (by simp)
  · exact h

theorem marks_selection (hq : q.Unmarked) : Marks q.selectionRendering [] := by
  have hsel := hq.selection
  have halias : Marks (text q.aliasName) [] := marks_name hq.aliasName
  unfold selectionRendering
  split
  · exact marks_distinct halias
  · exact marks_call (by decide) (marks_distinct halias)
  · next ps h =>
    rw [h] at hsel
    refine marks_distinct (marks_items hsel.1 fun p hp => ?_)
    obtain ⟨hpath, hname⟩ := hsel.2 p hp
    exact marks_spaced (.cons (marks_name (markersIn_pathText hq hpath)) <|
      .cons (marks_name hname) .nil) (by simp)
  · next className ps h =>
    rw [h] at hsel
    obtain ⟨hclass, hne, hpaths⟩ := hsel
    have hitems : Marks (Rendering.commaSeparated (ps.map fun p => text (q.pathText p))) [] :=
      marks_items hne fun p hp => marks_name (markersIn_pathText hq (hpaths p hp))
    exact marks_distinct (marks_spaced (.cons (marks_keyword (by decide)) <|
      .cons (marks_call hclass hitems) .nil) (by simp))

theorem marks_nulls (n : NullHandling) :
    ∃ nss, List.Forall₂ Marks (match n with
      | .native => []
      | .first => [word "NULLS FIRST"]
      | .last => [word "NULLS LAST"]) nss ∧ nss.flatten = [] := by
  cases n with
  | native => exact ⟨[], .nil, rfl⟩
  | first => exact ⟨[[]], .cons (marks_keyword (by decide)) .nil, rfl⟩
  | last => exact ⟨[[]], .cons (marks_keyword (by decide)) .nil, rfl⟩

theorem marks_order (hq : q.Unmarked) {o : OrderExpression} (ho : o.expression.Unmarked) :
    Marks (q.orderRendering o) o.expression.parameters := by
  have hdirection : Marks (word o.order.direction.keyword) [] := by
    cases o.order.direction <;> exact marks_keyword (by decide)
  obtain ⟨nss, hall, hflat⟩ := marks_nulls o.order.nulls
  have h := marks_spaced (.cons (marks_expression hq ho) (.cons hdirection hall)) (by simp)
  simp only [List.flatten_cons, hflat, List.append_nil] at h
  exact h

theorem marks_filter (hq : q.Unmarked) :
    ∃ nss, List.Forall₂ Marks (match q.predicate with
      | some p => [word "WHERE", q.predicateRendering p]
      | none => []) nss ∧ nss.flatten = q.predicate.elim [] Predicate.parameters := by
  rcases hp : q.predicate with _ | p
  · exact ⟨[], .nil, rfl⟩
  · exact ⟨[[], p.parameters], .cons (marks_keyword (by decide)) <|
      .cons (marks_predicate hq (hq.predicate p hp)) .nil, by simp⟩

/-- The markers in the text of a query are the positions of the parameters in its predicate and in
its orders. -/
theorem markersIn_render (hq : q.Unmarked) :
    markersIn q.render = q.predicate.elim [] Predicate.parameters ++
      q.orders.flatMap fun o => o.expression.parameters := by
  have hjoins : ∃ nss, List.Forall₂ Marks (q.joins.flatMap q.joinRendering) nss ∧
      nss.flatten = [] := by
    have hall := hq.joins
    generalize q.joins = joins at hall
    induction joins with
    | nil => exact ⟨[], .nil, rfl⟩
    | cons j joins ih =>
      obtain ⟨nss, h, hflat⟩ := ih fun j hj => hall j (by simp [hj])
      obtain ⟨hpath, halias⟩ := hall j (by simp)
      have htype : Marks (word j.type.keyword) [] := by
        cases j.type <;> exact marks_keyword (by decide)
      have hsource : markersIn (q.aliasOf j.source ++ "." ++ j.path) = [] := by
        rw [Text.markersIn_dot, markersIn_aliasOf hq, hpath]
        rfl
      exact ⟨[] :: [] :: [] :: nss, .cons htype <| .cons (marks_name hsource) <|
        .cons (marks_name halias) h, by simpa using hflat⟩
  have horders : ∃ nss, List.Forall₂ Marks (if q.orders.isEmpty then [] else
      [word "ORDER BY", Rendering.commaSeparated (q.orders.map q.orderRendering)]) nss ∧
        nss.flatten = q.orders.flatMap fun o => o.expression.parameters := by
    split
    next hnone => exact ⟨[], .nil, by simp_all⟩
    next hsome =>
      have hall : List.Forall₂ Marks (q.orders.map q.orderRendering)
          (q.orders.map fun o => o.expression.parameters) := by
        rw [List.forall₂_map_left_iff, List.forall₂_map_right_iff, List.forall₂_same]
        exact fun o ho => marks_order hq (hq.orders o ho)
      have h := marks_commaSeparated hall (by simpa using hsome)
      exact ⟨[[], _], .cons (marks_keyword (by decide)) <| .cons h .nil, by
        simp [List.flatMap_def]⟩
  obtain ⟨jss, hjs, hjflat⟩ := hjoins
  obtain ⟨pss, hps, hpflat⟩ := marks_filter hq
  obtain ⟨oss, hos, hoflat⟩ := horders
  have hhead : List.Forall₂ Marks
      [q.selectionRendering, word "FROM", text q.entityName, text q.aliasName] [[], [], [], []] :=
    .cons (marks_selection hq) <| .cons (marks_keyword (by decide)) <|
      .cons (marks_name hq.entityName) <| .cons (marks_name hq.aliasName) .nil
  have hall := List.rel_append (List.rel_append (List.rel_append hhead hjs) hps) hos
  have hselect : Rendering.renderInto "" (word "SELECT") = "SELECT" := by simp
  have htext := renderInto_spaced (by simp [word]) (toTokens_ne_nil_of_forall₂ hall)
    (show Rendering.renderInto "" (word "SELECT") ≠ "" by simp)
  have hmarkers := markersIn_foldl hall (show "SELECT" ≠ "" by decide)
  rw [← hselect, ← htext, hselect] at hmarkers
  simp only [List.flatten_append, hjflat, hpflat, hoflat] at hmarkers
  exact hmarkers

end SelectQuery

end Derived

end Jpql
