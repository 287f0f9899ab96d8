import Jpql.Proofs.Derived.OwnAttributes

/-! The variables of a tuple. A query that selects paths gives each a variable to read its values by:
the name of the attribute that the path ends in, whichever way it came there. So two paths that end
in attributes of one name share a variable, and the values of the second are out of reach. All
others can be read back from a row. -/

namespace Jpql.PropertyPath

variable {m : Metamodel} {ps : List (List Char)}

/-- The segments in front of the last. -/
def front (p : PropertyPath) : List PathSegment := p.segments.dropLast

theorem front_append_leaf (p : PropertyPath) : p.front ++ [p.leaf] = p.segments :=
  List.dropLast_append_getLast p.nonempty

/-- The last of the segments is an attribute of the type that those in front of it lead to. -/
theorem Spells.last {owner : String} {segments : List PathSegment} {s : PathSegment}
    (h : Spells m owner ps (segments ++ [s])) : s.owner = reached owner segments ∧
      (m.managedType? s.owner).bind (·.attribute? s.name) = some s.member := by
  induction segments generalizing owner ps with
  | nil =>
    cases h with
    | cons named rest =>
      refine ⟨rfl, ?_⟩
      dsimp only [PathSegment.name]
      rwa [name_of_named named]
  | cons t segments ih =>
    cases h with
    | cons named rest =>
      rw [reached_cons]
      exact ih rest

/-- Paths of one type that come to attributes of one name along the same way are the same. -/
theorem eq_of_front {owner : ManagedType} {source source' : String} {p p' : PropertyPath}
    (hp : ofSource m owner source = .ok p) (hp' : ofSource m owner source' = .ok p')
    (hfront : p.front = p'.front) (hname : p.leaf.name = p'.leaf.name) : p = p' := by
  obtain ⟨_, hspells, -⟩ := spells_of_ofSource hp
  obtain ⟨_, hspells', -⟩ := spells_of_ofSource hp'
  rw [← front_append_leaf] at hspells hspells'
  obtain ⟨howner, hmember⟩ := hspells.last
  obtain ⟨howner', hmember'⟩ := hspells'.last
  have hsame : p.leaf.owner = p'.leaf.owner := by rw [howner, howner', hfront]
  have hleaf : p.leaf = p'.leaf := by
    rw [hsame, hname, hmember', Option.some.injEq] at hmember
    rw [PathSegment.mk.injEq]
    exact ⟨hsame, hmember.symm⟩
  rw [PropertyPath.mk.injEq, ← p.front_append_leaf, ← p'.front_append_leaf, hfront, hleaf]

end Jpql.PropertyPath

namespace Jpql.Derived

open Step

/-! ### Reading rows -/

/-- The value of a row under a name: the first one, if more than one item has that name. -/
def readRow (es : List PathExpression) (row : List Value) (name : String) : Option Value :=
  ((es.map (·.name)).zip row).lookup name

theorem lookup_of_mem {pairs : List (String × Value)} (hnames : (pairs.map Prod.fst).Nodup)
    {name : String} {v : Value} (h : (name, v) ∈ pairs) : pairs.lookup name = some v := by
  obtain ⟨before, behind, rfl⟩ := List.append_of_mem h
  rw [List.map_append, List.nodup_append] at hnames
  refine List.lookup_eq_some_iff.2 ⟨before, behind, rfl, fun pair hpair => bne_iff_ne.2 ?_⟩
  exact (hnames.2.2 _ (List.mem_map_of_mem hpair) _ List.mem_cons_self).symm

/-- Names are distinct just if the values of every row are found under them. -/
theorem nodup_iff_lookup_zip {names : List String} :
    names.Nodup ↔ ∀ row : List Value, row.length = names.length →
      List.Forall₂ (fun name v => (names.zip row).lookup name = some v) names row := by
  constructor
  · intro hnames row hlength
    refine List.forall₂_iff_zip.2 ⟨hlength.symm, fun hmem => lookup_of_mem ?_ hmem⟩
    rwa [List.map_fst_zip hlength.ge]
  · -- a row in which all values differ tells the places of the names apart
    intro h
    let row := (List.range names.length).map fun i : Nat => Value.int i
    have hrow : row.length = names.length := by simp [row]
    have hfound (i : Fin names.length) : (names.zip row).lookup (names.get i) = some (.int i) := by
      simpa [row] using (List.forall₂_iff_get.1 (h row hrow)).2 i i.2 (hrow.symm ▸ i.2)
    refine List.nodup_iff_injective_get.2 fun i j hij => Fin.ext ?_
    have hsame := hfound i
    rw [hij, hfound j, Option.some.injEq, Value.int.injEq] at hsame
    exact Nat.cast_injective hsame.symm

/-- From every row the value of each path is read under the name of the attribute that the path ends
in. -/
def ReadsRows (es : List PathExpression) (ps : List PropertyPath) : Prop :=
  ∀ row : List Value, row.length = es.length →
    List.Forall₂ (fun p v => readRow es row p.leaf.name = some v) ps row

theorem readsRows_iff {es : List PathExpression} {ps : List PropertyPath}
    (h : es.map (·.name) = ps.map (·.leaf.name)) : ReadsRows es ps ↔ (es.map (·.name)).Nodup := by
  rw [nodup_iff_lookup_zip, List.length_map]
  refine forall₂_congr fun row hlength => ?_
  rw [h, List.forall₂_map_left_iff, ← h]
  rfl

namespace Creator

variable {c : Creator} {d d' : Draft} {es : List PathExpression}

/-! ### Creating a tuple -/

/-- The properties that a query selects one by one, if it does so: those of the returned type, or else
the identifiers that show whether there are any rows. -/
def tupleProperties (c : Creator) : List String :=
  match c.returned with
  | .projection (property :: properties) => property :: properties
  | .tuple => c.entity.attributes.map (·.name)
  | _ => c.entity.idAttributes.map (·.name)

/-- The property leads to the path. -/
def ResolvesTo (c : Creator) (property : String) (p : PropertyPath) : Prop :=
  PropertyPath.ofSource c.metamodel c.entity property = .ok p

theorem customSelection_paths {o : Option Selection} (h : c.customSelection d = .ok (o, d')) :
    o = none ∧ d' = d ∧ c.tupleProperties = c.entity.idAttributes.map (·.name) ∨
      (∃ className es, o = some (.construct className es)) ∨
      ∃ es, o = some (.paths es) ∧ c.selectPaths c.tupleProperties d = .ok (es, d') := by
  unfold customSelection at h
  unfold tupleProperties
  cases hreturned : c.returned with
  | dto className properties =>
    rw [hreturned] at h
    dsimp only at h
    split at h
    · obtain ⟨rfl, rfl⟩ := pure_ok.1 h
      exact .inl ⟨rfl, rfl, rfl⟩
    · obtain ⟨es, _, -, hrest⟩ := bind_ok.1 h
      obtain ⟨rfl, rfl⟩ := pure_ok.1 hrest
      exact .inr (.inl ⟨_, _, rfl⟩)
  | projection properties =>
    rw [hreturned] at h
    cases properties with
    | nil =>
      obtain ⟨rfl, rfl⟩ := pure_ok.1 h
      exact .inl ⟨rfl, rfl, rfl⟩
    | cons property properties =>
      obtain ⟨es, _, hes, hrest⟩ := bind_ok.1 h
      obtain ⟨rfl, rfl⟩ := pure_ok.1 hrest
      exact .inr (.inr ⟨es, rfl, hes⟩)
  | tuple =>
    rw [hreturned] at h
    obtain ⟨es, _, hes, hrest⟩ := bind_ok.1 h
    obtain ⟨rfl, rfl⟩ := pure_ok.1 hrest
    exact .inr (.inr ⟨es, rfl, hes⟩)
  | domain | value =>
    rw [hreturned] at h
    obtain ⟨rfl, rfl⟩ := pure_ok.1 h
    exact .inl ⟨rfl, rfl, rfl⟩

theorem selection_paths (h : c.selection d = .ok (.paths es, d')) :
    c.selectPaths c.tupleProperties d = .ok (es, d') := by
  unfold selection at h
  split at h
  · cases (pure_ok.1 h).1
  split at h
  · cases (pure_ok.1 h).1
  obtain ⟨o, d₁, hcustom, hrest⟩ := bind_ok.1 h
  rcases customSelection_paths hcustom with ⟨rfl, rfl, hids⟩ | ⟨_, _, rfl⟩ | ⟨es', rfl, hpaths⟩
  · dsimp only at hrest
    split at hrest
    · split at hrest
      · obtain ⟨_, _, hthrow, -⟩ := bind_ok.1 hrest
        exact (throw_ok.1 hthrow).elim
      · obtain ⟨es', d₂, hes, hrest⟩ := bind_ok.1 hrest
        obtain ⟨hsame, rfl⟩ := pure_ok.1 hrest
        cases hsame
        rwa [hids]
    · cases (pure_ok.1 hrest).1
  · cases (pure_ok.1 hrest).1
  · obtain ⟨hsame, rfl⟩ := pure_ok.1 hrest
    cases hsame
    exact hpaths

theorem selectPath_names {property : String} {e : PathExpression}
    (h : c.selectPath property d = .ok (e, d')) :
    d.query.Extends d'.query ∧ ∃ p, c.ResolvesTo property p ∧ e.name = p.leaf.name ∧
      (WellJoined d.query.joins → WellJoined d'.query.joins ∧ d'.query.Leads e p) := by
  unfold selectPath at h
  simp only [bind_ok, get_ok, set_ok, lift_ok, pure_ok] at h
  obtain ⟨p, _, ⟨hp, rfl⟩, _, _, ⟨rfl, rfl⟩, _, _, rfl, rfl, rfl⟩ := h
  have hnames : ∀ s ∈ p.segments, s.name ≠ "" :=
    fun s hs => (PropertyPath.ofSource_isAttribute hp s hs).1
  exact ⟨follow_extends _ _ _ _, p, hp, rfl, fun hd => (resolvePath_leads hd hnames _ _).2⟩

/-- Each expression has the name of the attribute that its property's path ends in, and it leads
along that path. -/
theorem selectPaths_names {properties : List String}
    (h : Runs c.selectPath d properties es d') :
    d.query.Extends d'.query ∧ ∃ ps, List.Forall₂ c.ResolvesTo properties ps ∧
      es.map (·.name) = ps.map (·.leaf.name) ∧
      (WellJoined d.query.joins → List.Forall₂ d'.query.Leads es ps) := by
  induction h with
  | nil d => exact ⟨.refl _, [], .nil, rfl, fun _ => .nil⟩
  | cons hstep _ ih =>
    obtain ⟨hextends, p, hp, hname, hfirst⟩ := selectPath_names hstep
    obtain ⟨hrest, ps, hps, hnames, hleads⟩ := ih
    refine ⟨hextends.trans hrest, p :: ps, .cons hp hps, ?_, fun hd => ?_⟩
    · rw [List.map_cons, List.map_cons, hname, hnames]
    · obtain ⟨hwell, hlead⟩ := hfirst hd
      exact .cons (hlead.mono hrest.joins_mono) (hleads hwell)

theorem orderExpression_extends {o : Order} {item : OrderExpression}
    (h : c.orderExpression o d = .ok (item, d')) : d.query.Extends d'.query := by
  unfold orderExpression at h
  obtain ⟨_, _, hcheck, h⟩ := bind_ok.1 h
  obtain ⟨-, rfl⟩ := lift_ok.1 hcheck
  obtain ⟨_, _, htarget, h⟩ := bind_ok.1 h
  obtain ⟨-, rfl⟩ := pure_ok.1 h
  unfold orderTarget at htarget
  cases hp : PropertyPath.ofSource c.metamodel c.entity o.property with
  | ok p =>
    rw [hp] at htarget
    obtain ⟨-, rfl⟩ := resolve_ok htarget
    exact follow_extends _ _ _ _
  | error e =>
    rw [hp] at htarget
    dsimp only at htarget
    split at htarget
    · rw [(pure_ok.1 htarget).2]
      exact .refl _
    · exact (throw_ok.1 htarget).elim

theorem orders_extend {orders : List Order} {items : List OrderExpression}
    (h : Runs c.orderExpression d orders items d') : d.query.Extends d'.query := by
  induction h with
  | nil d => exact .refl _
  | cons hstep _ ih => exact (orderExpression_extends hstep).trans ih

/-- The selection of a query stands once its conditions do: orders only add joins. -/
theorem createSorted_selects {sort : Sorting} {created : Created}
    (h : c.createSorted sort = .ok created) : ∃ predicate d d',
      disjunction c.options c.source c.method.alternatives
        { query := .ofEntity c.entity.entityName c.entity.simpleName .entity } =
          .ok (predicate, d) ∧
      c.selection d = .ok (created.query.selection, d') ∧
      d'.query.joins <+: created.query.joins := by
  obtain ⟨d, rfl, hbuild⟩ := createSorted_ok.1 h
  unfold build at hbuild
  obtain ⟨predicate, d₁, hpredicate, hbuild⟩ := bind_ok.1 hbuild
  obtain ⟨selection, d₂, hselection, hbuild⟩ := bind_ok.1 hbuild
  obtain ⟨_, d₃, hmodify, hrest⟩ := bind_ok.1 hbuild
  obtain rfl := modify_ok.1 hmodify
  refine ⟨predicate, d₁, d₂, hpredicate, ?_⟩
  by_cases hsorted : (!c.counts && !c.method.isDelete) = true
  · rw [if_pos hsorted] at hrest
    obtain ⟨orders, d₄, horders, hrest⟩ := bind_ok.1 hrest
    obtain rfl := modify_ok.1 hrest
    obtain ⟨js, n, hq⟩ := orders_extend (mapM_ok.1 horders)
    dsimp only
    rw [hq]
    exact ⟨hselection, List.prefix_append _ _⟩
  · rw [if_neg hsorted] at hrest
    obtain ⟨-, rfl⟩ := pure_ok.1 hrest
    exact ⟨hselection, List.prefix_rfl⟩

/-- A tuple has an item for each property, in order, under the name of the attribute that the path of
the property ends in. Where the paths all differ, so do these names, unless two of the paths come to
attributes of one name along different ways; and just where the names differ, the value of each
property can be read back from every row. -/
theorem tuple_variables {sort : Sorting} {created : Created}
    (hcreated : c.createSorted sort = .ok created)
    (hselection : created.query.selection = .paths es) :
    ∃ ps, List.Forall₂ c.ResolvesTo c.tupleProperties ps ∧
      es.map (·.name) = ps.map (·.leaf.name) ∧
      (MethodName.OnAttributes c.metamodel c.method.parts →
        List.Forall₂ created.query.Leads es ps) ∧
      (ps.Nodup → ((es.map (·.name)).Nodup ↔
        ∀ p ∈ ps, ∀ p' ∈ ps, p.leaf.name = p'.leaf.name → p.front = p'.front)) ∧
      (ReadsRows es ps ↔ (es.map (·.name)).Nodup) := by
  obtain ⟨predicate, d₁, d₂, hpredicate, hselects, hjoins⟩ := createSorted_selects hcreated
  rw [hselection] at hselects
  obtain ⟨-, ps, hps, hnames, hleads⟩ := selectPaths_names (mapM_ok.1 (selection_paths hselects))
  refine ⟨ps, hps, hnames, fun hm => ?_, fun hdistinct => ?_, readsRows_iff hnames⟩
  · obtain ⟨_, -, -, hdrafts⟩ := disjunction_drafts hm wellJoined_nil hpredicate
    exact (hleads (hdrafts.grows.spec wellJoined_nil).2).imp fun _ _ h => h.mono hjoins
  · rw [hnames, List.nodup_map_iff_inj_on hdistinct]
    refine forall₂_congr fun p hp => forall₂_congr fun p' hp' => forall_congr' fun hname => ?_
    obtain ⟨_, -, hresolves⟩ := exists_of_forall₂ hps hp
    obtain ⟨_, -, hresolves'⟩ := exists_of_forall₂ hps hp'
    exact ⟨fun h => congrArg _ h, fun h => PropertyPath.eq_of_front hresolves hresolves' h hname⟩

/-- The creator of the members of a name, with the properties chosen from them. -/
def namesakeCreator (properties : List String) : Creator :=
  { memberCreator "id" with
    method := { memberMethod with isExists := false }, returned := .projection properties }

theorem tuple_variables_of_namesakes : ∃ created es ps,
    (namesakeCreator ["name", "clubId"]).createSorted .unsorted = .ok created ∧
    created.query.selection = .paths es ∧
    List.Forall₂ (namesakeCreator ["name", "clubId"]).ResolvesTo ["name", "clubId"] ps ∧
    es.map (·.name) = ["name", "id"] ∧ ReadsRows es ps := by
  have hselection : ((namesakeCreator ["name", "clubId"]).createSorted .unsorted).toOption.map
      (·.query.selection) = some (.paths [⟨.root, "name", "name"⟩, ⟨.join 0, "id", "id"⟩]) := by cbv
  obtain ⟨created, hcreated, hpaths⟩ := exists_of_toOption_map hselection
  obtain ⟨ps, hps, -, -, -, hreads⟩ := tuple_variables hcreated hpaths
  exact ⟨created, _, ps, hcreated, hpaths, hps, rfl, hreads.2 (by decide)⟩

/-- What is selected of a member and its club: their identifiers, both under the name `id`. -/
def namesakeQuery : SelectQuery :=
  { entityName := "Member", aliasName := "m"
    selection := .paths [⟨.root, "id", "id"⟩, ⟨.join 0, "id", "id"⟩]
    joins := [⟨.left, .root, "club", "c"⟩]
    predicate := some (.compare (.path ⟨.root, "name", "name"⟩) "=" (.parameter 1)) }

/-- The paths `id` and `club.id` differ, but not so their variables: the identifier of the club cannot
be read back. -/
theorem shared_variable_of_namesakes : ∃ created es, ∃ ps : List PropertyPath,
    (namesakeCreator ["id", "clubId"]).createSorted .unsorted = .ok created ∧
    List.Forall₂ (namesakeCreator ["id", "clubId"]).ResolvesTo ["id", "clubId"] ps ∧ ps.Nodup ∧
    created.query.selection = .paths es ∧ ¬ (es.map (·.name)).Nodup ∧ ¬ ReadsRows es ps ∧
    created.query.render =
      "SELECT m.id id, c.id id FROM Member m LEFT JOIN m.club c WHERE m.name = ?1" := by
  have hquery : ((namesakeCreator ["id", "clubId"]).createSorted .unsorted).toOption.map
      (·.query) = some namesakeQuery := by cbv
  obtain ⟨created, hcreated, hquery⟩ := exists_of_toOption_map hquery
  let ofClub : PropertyPath := ⟨[⟨"app.Member", .toType .manyToOne "club" "app.Club"⟩,
    ⟨"app.Club", .id "id" .long⟩], List.cons_ne_nil _ _⟩
  have hown : (namesakeCreator ["id", "clubId"]).ResolvesTo "id"
      (attributePath (member "id") (.id "id" .long)) := by
    unfold ResolvesTo
    cbv
  have hclub : (namesakeCreator ["id", "clubId"]).ResolvesTo "clubId" ofClub := by
    unfold ResolvesTo
    cbv
  have hdiffer : attributePath (member "id") (.id "id" .long) ≠ ofClub := fun h =>
    absurd (congrArg (·.segments.length) h) (by decide)
  refine ⟨created, _, _, hcreated, .cons hown (.cons hclub .nil), by simpa using hdiffer,
    by rw [hquery]; rfl, by decide, ?_, ?_⟩
  · rw [readsRows_iff rfl]
    decide
  · rw [hquery]
    cbv

end Creator

end Jpql.Derived
