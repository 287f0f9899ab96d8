import Jpql.Derived.Creation
import Jpql.Proofs.Derived.Condition

/-! What creating a query makes of a method name: a predicate that consumes the operands in order, a
selection of paths of attributes, and an order for each order of the sort, on an expression that
leads along its property. -/

namespace Jpql.Derived

open MethodName
open Step (bind_ok pure_ok get_ok set_ok modify_ok lift_ok throw_ok mapM_ok Runs)

/-! ### Where joins come from -/

/-- An alias: the lower-case form of a character, or a number. -/
def IsAlias (name : String) : Prop :=
  (∃ c, name = String.ofList (Text.lowerOf c)) ∨ ∃ n : Nat, name = "join_" ++ toString n

/-- The path consists of names of attributes. -/
def OfAttributes (m : Metamodel) (path : String) : Prop :=
  ∃ segments : List PathSegment, (∀ s ∈ segments, PropertyPath.IsAttribute m s) ∧
    path = ".".intercalate (segments.map PathSegment.name)

/-- The joins start at the root or at earlier ones and follow attributes under fresh aliases. -/
structure Joined (m : Metamodel) (joins : List Join) : Prop where
  wellJoined : WellJoined joins
  paths : ∀ j ∈ joins, OfAttributes m j.path
  aliases : ∀ j ∈ joins, IsAlias j.aliasName

theorem isAlias_of_initial? {cs : List Char} {name : String} (h : initial? cs = some name) :
    IsAlias name := by
  unfold initial? at h
  split at h
  next c _ =>
    split at h <;> cases h
    exact .inl ⟨c, rfl⟩
  next => cases h

theorem joined_nil (m : Metamodel) : Joined m [] := ⟨wellJoined_nil, by simp, by simp⟩

variable {m : Metamodel}

theorem Joined.join {q : SelectQuery} (h : Joined m q.joins) (type : JoinType) {source : Origin}
    (hsource : source.Below q.joins.length) {path : String} (hpath : OfAttributes m path) :
    Joined m (q.join type source path).2.joins := by
  have hpush : ∃ name, IsAlias name ∧ (q.push type source path).joins =
      q.joins ++ [⟨type, source, path, name⟩] := by
    unfold SelectQuery.push
    split
    next name hname =>
      exact ⟨name, isAlias_of_initial? (Option.filter_eq_some_iff.1 hname).1, rfl⟩
    next => exact ⟨_, .inr ⟨q.numbered, rfl⟩, rfl⟩
  have hall : ∀ j ∈ (q.join type source path).2.joins,
      OfAttributes m j.path ∧ IsAlias j.aliasName := by
    intro j hj
    unfold SelectQuery.join at hj
    split at hj
    · exact ⟨h.paths j hj, h.aliases j hj⟩
    · obtain ⟨name, halias, hjoins⟩ := hpush
      rw [hjoins, List.mem_append, List.mem_singleton] at hj
      rcases hj with hj | rfl
      · exact ⟨h.paths j hj, h.aliases j hj⟩
      · exact ⟨hpath, halias⟩
  exact ⟨(SelectQuery.join_spec h.wellJoined type hsource path).2.1, fun j hj => (hall j hj).1,
    fun j hj => (hall j hj).2⟩

theorem follow_joined (forSelection optimize : Bool) {segments : List PathSegment} {w : Walk}
    (hs : ∀ s ∈ segments, PropertyPath.IsAttribute m s) (hw : Joined m w.query.joins)
    (horigin : w.origin.Below w.query.joins.length)
    (hpending : ∃ before : List PathSegment, (∀ s ∈ before, PropertyPath.IsAttribute m s) ∧
      w.pending = before.map PathSegment.name) :
    Joined m (follow forSelection optimize w segments).query.joins := by
  induction segments generalizing w with
  | nil => exact hw
  | cons s rest ih =>
    obtain ⟨before, hbefore, hnames⟩ := hpending
    have hrest : ∀ s ∈ rest, PropertyPath.IsAttribute m s := fun s h => hs s (by simp [h])
    have hmore : ∀ s' ∈ before ++ [s], PropertyPath.IsAttribute m s' := by
      simpa [or_imp, forall_and, hs s] using hbefore
    have hpath : w.pending ++ [s.name] = (before ++ [s]).map PathSegment.name := by simp [hnames]
    unfold follow
    extract_lets pending last outer
    split
    · exact ih hrest hw horigin ⟨_, hmore, hpath⟩
    · have hjoined : Joined m (w.query.join (if outer then .left else .inner) w.origin
          (".".intercalate pending)).2.joins := hw.join _ horigin ⟨_, hmore, by rw [← hpath]⟩
      have hbelow := (SelectQuery.join_spec hw.wellJoined (if outer then .left else .inner) horigin
        (".".intercalate pending)).2.2.1
      exact ih hrest hjoined hbelow ⟨[], by simp, rfl⟩

theorem Grows.joined {q q' : SelectQuery} (h : Grows m q q') (hq : Joined m q.joins) :
    Joined m q'.joins := by
  induction h with
  | refl => exact hq
  | follow _ hp forSelection optimize ih =>
    exact follow_joined forSelection optimize hp ih trivial ⟨[], by simp, rfl⟩

/-- The join leads somewhere, under the initial of what it leads to or under a number. -/
structure Join.Named (j : Join) : Prop where
  path : j.path ≠ ""
  aliasName : initial? (lastSegment j.path.toList) = some j.aliasName ∨
    ∃ n : Nat, j.aliasName = "join_" ++ toString n

theorem named_join {q : SelectQuery} (h : ∀ j ∈ q.joins, j.Named) (type : JoinType)
    (source : Origin) {path : String} (hpath : path ≠ "") :
    ∀ j ∈ (q.join type source path).2.joins, j.Named := by
  unfold SelectQuery.join
  split
  next => exact h
  next =>
    unfold SelectQuery.push
    split
    next name hname =>
      have hinitial := (Option.filter_eq_some_iff.1 hname).1
      simpa [or_imp, forall_and] using ⟨h, ⟨hpath, .inl hinitial⟩⟩
    next =>
      simpa [or_imp, forall_and] using ⟨h, ⟨hpath, .inr ⟨q.numbered, rfl⟩⟩⟩

theorem follow_named (forSelection optimize : Bool) {segments : List PathSegment} {w : Walk}
    (hs : ∀ s ∈ segments, s.name ≠ "") (hw : ∀ j ∈ w.query.joins, j.Named) :
    ∀ j ∈ (follow forSelection optimize w segments).query.joins, j.Named := by
  induction segments generalizing w with
  | nil => exact hw
  | cons s rest ih =>
    obtain ⟨hname, hrest⟩ := List.forall_mem_cons.1 hs
    unfold follow
    extract_lets pending last outer
    split
    · exact ih hrest hw
    · exact ih hrest (named_join hw _ _ (intercalate_concat_ne_empty w.pending hname))

theorem Grows.named {q q' : SelectQuery} (h : Grows m q q') (hq : ∀ j ∈ q.joins, j.Named) :
    ∀ j ∈ q'.joins, j.Named := by
  induction h with
  | refl => exact hq
  | follow _ hp forSelection optimize ih =>
    exact follow_named forSelection optimize (fun s hs => (hp s hs).1) ih

/-! ### Steps that only add joins -/

/-- The step has followed paths of attributes and drawn no operands. -/
structure OnlyGrows (m : Metamodel) (d d' : Draft) : Prop where
  grows : Grows m d.query d'.query
  bindings : d'.bindings = d.bindings

theorem OnlyGrows.trans {d d' d'' : Draft} (h : OnlyGrows m d d') (h' : OnlyGrows m d' d'') :
    OnlyGrows m d d'' := ⟨h.grows.trans h'.grows, h'.bindings.trans h.bindings⟩

/-- The expression leads along a path of attributes. -/
def Reads (m : Metamodel) (q : SelectQuery) (e : PathExpression) : Prop :=
  ∃ p : PropertyPath, (∀ s ∈ p.segments, PropertyPath.IsAttribute m s) ∧ q.Leads e p

theorem Reads.mono {q q' : SelectQuery} {e : PathExpression} (h : Reads m q e)
    (hq : q.joins <+: q'.joins) : Reads m q' e := by
  obtain ⟨p, hp, hleads⟩ := h
  exact ⟨p, hp, hleads.mono hq⟩

variable {c : Creator} {d d' : Draft}

/-- The expression leads along the path that the property resolves to. -/
def Selected (c : Creator) (q : SelectQuery) (property : String) (e : PathExpression) : Prop :=
  ∃ p, PropertyPath.ofSource c.metamodel c.entity property = .ok p ∧ q.Leads e p

theorem Selected.mono {q q' : SelectQuery} {property : String} {e : PathExpression}
    (h : Selected c q property e) (hq : q.joins <+: q'.joins) : Selected c q' property e := by
  obtain ⟨p, hp, hleads⟩ := h
  exact ⟨p, hp, hleads.mono hq⟩

theorem Selected.reads {q : SelectQuery} {property : String} {e : PathExpression}
    (h : Selected c q property e) : Reads c.metamodel q e := by
  obtain ⟨p, hp, hleads⟩ := h
  exact ⟨p, PropertyPath.ofSource_isAttribute hp, hleads⟩

theorem exists_of_forall₂ {α β : Type} {R : α → β → Prop} {as : List α} {bs : List β}
    (h : List.Forall₂ R as bs) {b : β} (hb : b ∈ bs) : ∃ a ∈ as, R a b := by
  obtain ⟨i, hi, rfl⟩ := List.mem_iff_getElem.1 hb
  obtain ⟨hlength, hall⟩ := List.forall₂_iff_get.1 h
  exact ⟨_, List.getElem_mem (hlength ▸ hi), hall i (hlength ▸ hi) hi⟩

theorem selectPath_ok {property : String} {e : PathExpression} (hd : WellJoined d.query.joins)
    (h : c.selectPath property d = .ok (e, d')) :
    OnlyGrows c.metamodel d d' ∧ Selected c d'.query property e := by
  unfold Creator.selectPath at h
  simp only [bind_ok, get_ok, set_ok, lift_ok, pure_ok] at h
  obtain ⟨p, _, ⟨hp, rfl⟩, _, _, ⟨rfl, rfl⟩, _, _, rfl, rfl, rfl⟩ := h
  have hattributes := PropertyPath.ofSource_isAttribute hp
  exact ⟨⟨.follow .refl hattributes _ _, rfl⟩, p, hp,
    (resolvePath_leads hd (fun s hs => (hattributes s hs).1) _ _).2.2⟩

theorem selectPaths_ok {properties : List String} {es : List PathExpression}
    (hd : WellJoined d.query.joins) (h : c.selectPaths properties d = .ok (es, d')) :
    OnlyGrows c.metamodel d d' ∧ List.Forall₂ (Selected c d'.query) properties es := by
  have hruns := mapM_ok.1 h
  clear h
  induction hruns with
  | nil d => exact ⟨⟨.refl, rfl⟩, .nil⟩
  | cons hstep _ ih =>
    obtain ⟨hgrows, hselected⟩ := selectPath_ok hd hstep
    obtain ⟨hrest, hall⟩ := ih (hgrows.grows.spec hd).2
    have hmono := (hrest.grows.spec (hgrows.grows.spec hd).2).1.joins_mono
    exact ⟨hgrows.trans hrest, .cons (hselected.mono hmono) hall⟩

/-- What a query of a method that returns entities selects: them, their number, or their identifier
to see whether there are any. -/
def Selects (c : Creator) (q : SelectQuery) : Selection → Prop
  | .entity => c.method.isDelete = true ∨ c.counts = false ∧ c.method.isExists = false
  | .count => c.counts = true
  | .paths es => c.method.isExists = true ∧ es ≠ [] ∧ ∀ e ∈ es, Reads c.metamodel q e
  | .construct .. => False

theorem Selects.mono {q q' : SelectQuery} {s : Selection} (h : Selects c q s)
    (hq : q.joins <+: q'.joins) : Selects c q' s := by
  cases s with
  | paths es => exact ⟨h.1, h.2.1, fun e he => (h.2.2 e he).mono hq⟩
  | entity | count | construct => exact h

/-- Paths are selected for the identifiers of the entity. -/
def SelectsIds (c : Creator) (q : SelectQuery) : Selection → Prop
  | .paths es => List.Forall₂ (Selected c q) (c.entity.idAttributes.map (·.name)) es
  | _ => True

theorem SelectsIds.mono {q q' : SelectQuery} {s : Selection} (h : SelectsIds c q s)
    (hq : q.joins <+: q'.joins) : SelectsIds c q' s := by
  cases s with
  | paths es => exact h.imp fun _ _ h => h.mono hq
  | entity | count | construct => exact h

theorem selection_ok {s : Selection} (hc : c.returned = .domain) (hd : WellJoined d.query.joins)
    (h : c.selection d = .ok (s, d')) :
    OnlyGrows c.metamodel d d' ∧ Selects c d'.query s ∧ SelectsIds c d'.query s := by
  have hsame : OnlyGrows c.metamodel d d := ⟨.refl, rfl⟩
  unfold Creator.selection at h
  split at h
  next hdelete =>
    obtain ⟨rfl, rfl⟩ := pure_ok.1 h
    exact ⟨hsame, .inl hdelete, trivial⟩
  split at h
  next hcounts =>
    obtain ⟨rfl, rfl⟩ := pure_ok.1 h
    exact ⟨hsame, hcounts, trivial⟩
  next hcounts =>
  obtain ⟨custom, d₁, hcustom, h⟩ := bind_ok.1 h
  unfold Creator.customSelection at hcustom
  rw [hc] at hcustom
  obtain ⟨rfl, rfl⟩ := pure_ok.1 hcustom
  dsimp only at h
  split at h
  next hexists =>
    split at h
    next =>
      obtain ⟨_, _, hthrow, _⟩ := bind_ok.1 h
      exact (throw_ok.1 hthrow).elim
    next hids =>
      obtain ⟨es, d₂, hes, h⟩ := bind_ok.1 h
      obtain ⟨rfl, rfl⟩ := pure_ok.1 h
      obtain ⟨hgrows, hall⟩ := selectPaths_ok hd hes
      refine ⟨hgrows, ⟨hexists, ?_, fun e he => ?_⟩, hall⟩
      · rintro rfl
        have hnone : c.entity.idAttributes = [] := by simpa using hall
        exact hids (by simp [hnone])
      · obtain ⟨property, -, hselected⟩ := exists_of_forall₂ hall he
        exact hselected.reads
  next hexists =>
    obtain ⟨rfl, rfl⟩ := pure_ok.1 h
    exact ⟨hsame, .inr ⟨by simpa using hcounts, by simpa using hexists⟩, trivial⟩

/-- The item sorts on what the order names. -/
structure SortsOn (c : Creator) (q : SelectQuery) (o : Order) (item : OrderExpression) : Prop where
  order : item.order = o
  expression : ∃ p e, PropertyPath.ofSource c.metamodel c.entity o.property = .ok p ∧
    q.Leads e p ∧ item.expression =
      if o.ignoreCase then .function c.options.caseTemplate.function (.path e) else .path e

theorem SortsOn.mono {q q' : SelectQuery} {o : Order} {item : OrderExpression}
    (h : SortsOn c q o item) (hq : q.joins <+: q'.joins) : SortsOn c q' o item := by
  obtain ⟨p, e, hp, hleads, hitem⟩ := h.expression
  exact ⟨h.order, p, e, hp, hleads.mono hq, hitem⟩

theorem orderExpression_ok {o : Order} {item : OrderExpression} (ho : o.rawExpression = false)
    (hd : WellJoined d.query.joins) (h : c.orderExpression o d = .ok (item, d')) :
    OnlyGrows c.metamodel d d' ∧ SortsOn c d'.query o item := by
  unfold Creator.orderExpression at h
  obtain ⟨_, d₁, hcheck, h⟩ := bind_ok.1 h
  obtain ⟨-, rfl⟩ := lift_ok.1 hcheck
  obtain ⟨target, d₂, htarget, h⟩ := bind_ok.1 h
  obtain ⟨rfl, rfl⟩ := pure_ok.1 h
  unfold Creator.orderTarget at htarget
  rcases hp : PropertyPath.ofSource c.metamodel c.entity o.property with e | p
  · rw [hp] at htarget
    simp only [ho] at htarget
    exact (throw_ok.1 htarget).elim
  · rw [hp] at htarget
    obtain ⟨rfl, rfl⟩ := resolve_ok htarget
    have hattributes := PropertyPath.ofSource_isAttribute hp
    refine ⟨⟨.follow .refl hattributes _ _, rfl⟩, rfl, p, _, hp, ?_, rfl⟩
    exact (resolvePath_leads hd (fun s hs => (hattributes s hs).1) _ _).2.2

theorem orders_ok {orders : List Order} {items : List OrderExpression}
    (ho : ∀ o ∈ orders, o.rawExpression = false) (hd : WellJoined d.query.joins)
    (h : Runs c.orderExpression d orders items d') :
    OnlyGrows c.metamodel d d' ∧ List.Forall₂ (SortsOn c d'.query) orders items := by
  induction h with
  | nil d => exact ⟨⟨.refl, rfl⟩, .nil⟩
  | cons hstep _ ih =>
    obtain ⟨hgrows, hsorts⟩ := orderExpression_ok (ho _ (by simp)) hd hstep
    obtain ⟨hrest, hall⟩ := ih (fun o h => ho o (by simp [h])) (hgrows.grows.spec hd).2
    have hmono := (hrest.grows.spec (hgrows.grows.spec hd).2).1.joins_mono
    exact ⟨hgrows.trans hrest, .cons (hsorts.mono hmono) hall⟩

/-! ### Whole queries -/

/-- What creating a query makes of a method name and a sort. -/
structure Creates (c : Creator) (sort : Sorting) (created : Created) : Prop where
  entityName : created.query.entityName = c.entity.entityName
  aliasName : created.query.aliasName = (initial? c.entity.simpleName.toList).getD "r"
  joined : Joined c.metamodel created.query.joins
  named : ∀ j ∈ created.query.joins, j.Named
  predicate : ∃ pss : List (List Predicate),
    created.query.predicate = joinPredicates .or ((pss.map (joinPredicates .and)).filterMap id) ∧
    pss.map List.length = c.method.alternatives.map List.length ∧
    Conditions c.options c.source created.query 0 c.method.parts pss.flatten
  bindings : BindsAll c.source 0 (operands c.method) created.bindings
  selection : Selects c created.query created.query.selection
  identifiers : SelectsIds c created.query created.query.selection
  distinct : created.query.distinct = (c.method.distinct && !c.method.isDelete)
  orders : (if c.counts || c.method.isDelete then created.query.orders = []
    else List.Forall₂ (SortsOn c created.query) sort.orders created.query.orders)

theorem createSorted_creates {sort : Sorting} {created : Created} (hc : c.returned = .domain)
    (hm : OnAttributes c.metamodel c.method.parts) (hs : ∀ o ∈ sort.orders, o.rawExpression = false)
    (h : c.createSorted sort = .ok created) : Creates c sort created := by
  unfold Creator.createSorted at h
  extract_lets start at h
  obtain ⟨d, hbuild, rfl⟩ : ∃ d : Draft, c.build sort { query := start } = .ok ((), d) ∧
      created = ⟨d.query, d.bindings⟩ := by
    rcases hb : c.build sort { query := start } with e | ⟨_, d⟩
    · rw [StateT.run, hb] at h
      cases h
    · rw [StateT.run, hb] at h
      cases h
      exact ⟨d, rfl, rfl⟩
  unfold Creator.build at hbuild
  obtain ⟨predicate, d₁, hpredicate, hbuild⟩ := bind_ok.1 hbuild
  obtain ⟨selection, d₂, hselection, hbuild⟩ := bind_ok.1 hbuild
  obtain ⟨_, d₃, hmodify, hbuild⟩ := bind_ok.1 hbuild
  obtain rfl := modify_ok.1 hmodify
  have hstart : Joined c.metamodel start.joins := joined_nil _
  obtain ⟨pss, hpss, hlengths, hall⟩ := disjunction_drafts hm hstart.wellJoined hpredicate
  have hjoined₁ := hall.grows.joined hstart
  have hnamed₁ := hall.grows.named (by simp [start, SelectQuery.ofEntity])
  obtain ⟨hgrows, hselects, hids⟩ := selection_ok hc hjoined₁.wellJoined hselection
  have hjoined₂ := hgrows.grows.joined hjoined₁
  have hnamed₂ := hgrows.grows.named hnamed₁
  obtain ⟨js₁, n₁, hq₁⟩ := (hall.grows.spec hstart.wellJoined).1
  obtain ⟨js₂, n₂, hq₂⟩ := (hgrows.grows.spec hjoined₁.wellJoined).1
  obtain ⟨bs, hbs, hbinds⟩ := hall.bindings
  split at hbuild
  next hplain =>
    obtain ⟨orders, d₄, horders, hbuild⟩ := bind_ok.1 hbuild
    obtain rfl := modify_ok.1 hbuild
    obtain ⟨hgrows₄, hsorts⟩ := orders_ok hs (by exact hjoined₂.wellJoined) (mapM_ok.1 horders)
    have hjoined₄ := hgrows₄.grows.joined (by exact hjoined₂)
    have hnamed₄ := hgrows₄.grows.named (by exact hnamed₂)
    obtain ⟨js₄, n₄, hq₄⟩ := (hgrows₄.grows.spec (by exact hjoined₂.wellJoined)).1
    have hmono₂ : d₂.query.joins <+: d₄.query.joins := by
      rw [hq₄]
      exact List.prefix_append _ _
    have hmono₁ : d₁.query.joins <+: d₂.query.joins := by
      rw [hq₂]
      exact List.prefix_append _ _
    refine ⟨?_, ?_, hjoined₄, hnamed₄, ⟨pss, ?_, hlengths, ?_⟩, ?_, ?_, ?_, by rw [hq₄], ?_⟩
    · simp [hq₄, hq₂, hq₁, start, SelectQuery.ofEntity]
    · simp [hq₄, hq₂, hq₁, start, SelectQuery.ofEntity]
    · simp [hq₄, hpss]
    · exact hall.conditions.mono (hmono₁.trans hmono₂)
    · rw [hgrows₄.bindings, hgrows.bindings, hbs]
      exact hbinds
    · rw [hq₄]
      exact hselects.mono (List.prefix_append _ _)
    · rw [hq₄]
      exact hids.mono (List.prefix_append _ _)
    · rw [if_neg (by simpa using hplain)]
      exact hsorts.imp fun _ _ h => h.mono (List.prefix_refl _)
  next hplain =>
    obtain ⟨-, rfl⟩ := pure_ok.1 hbuild
    have hmono₁ : d₁.query.joins <+: d₂.query.joins := by
      rw [hq₂]
      exact List.prefix_append _ _
    refine ⟨?_, ?_, hjoined₂, hnamed₂, ⟨pss, hpss, hlengths, ?_⟩, ?_, ?_, ?_, rfl, ?_⟩
    · simp [hq₂, hq₁, start, SelectQuery.ofEntity]
    · simp [hq₂, hq₁, start, SelectQuery.ofEntity]
    · exact hall.conditions.mono hmono₁
    · rw [hgrows.bindings, hbs]
      exact hbinds
    · exact hselects.mono (List.prefix_refl _)
    · exact hids.mono (List.prefix_refl _)
    · rw [if_pos (by cases hcounts : c.counts <;> simp_all)]
      simp [hq₂, hq₁, start, SelectQuery.ofEntity]

end Jpql.Derived
