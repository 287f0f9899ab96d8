import Jpql.Proofs.Derived.Acceptance
import Jpql.Proofs.PropertyPath.Names

/-! Attributes that a query selects on its own account: all attributes of the entity for tuples, and
its identifiers to see whether there are any rows. They are selected by their names, as if these
stood in a method name. So a name that spells itself leads to its attribute; another one, such as
`user_id`, leads elsewhere or nowhere. -/

namespace Jpql.Derived

open Step
open PropertyPath (SpellsItself)

/-- The path that is just one attribute of the type. -/
def attributePath (owner : ManagedType) (a : Attribute) : PropertyPath :=
  ⟨[⟨owner.name, a⟩], List.cons_ne_nil _ _⟩

namespace Creator

/-- The attributes that a query selects although neither the method nor the returned type names
them. -/
inductive Picks (c : Creator) : List Attribute → Prop
  | tuple (returned : c.returned = .tuple) : Picks c c.entity.attributes
  | identifiers (method : c.method.isExists = true) (plain : c.customSelection = pure none)
      (some : c.entity.idAttributes ≠ []) : Picks c c.entity.idAttributes

/-- The expressions lead to the attributes. -/
def LeadTo (c : Creator) (q : SelectQuery) (attributes : List Attribute)
    (es : List PathExpression) : Prop :=
  List.Forall₂ (fun a e => q.Leads e (attributePath c.entity a)) attributes es

variable {c : Creator} {attributes : List Attribute}

theorem Picks.subset (h : c.Picks attributes) : attributes ⊆ c.entity.attributes := by
  cases h with
  | tuple => exact List.Subset.refl _
  | identifiers => exact List.filter_subset_self _

theorem Picks.selection_eq (h : c.Picks attributes) (hdelete : c.method.isDelete = false)
    (hcounts : c.counts = false) :
    c.selection = c.selectPaths (attributes.map (·.name)) >>= fun es => pure (.paths es) := by
  unfold Creator.selection
  rw [hdelete, hcounts, if_neg Bool.false_ne_true, if_neg Bool.false_ne_true]
  cases h with
  | tuple returned =>
    have hcustom : c.customSelection = c.selectPaths (c.entity.attributes.map (·.name)) >>= fun es =>
        pure (some (.paths es)) := by
      unfold Creator.customSelection
      rw [returned]
    rw [hcustom, bind_assoc]
    rfl
  | identifiers method plain some =>
    have hsome : (c.entity.idAttributes.map (·.name)).isEmpty = false := by simpa using some
    rw [plain, pure_bind]
    dsimp only
    rw [method, hsome]
    rfl

theorem succeeds_selectPaths
    (h : ∀ a ∈ attributes, PropertyPath.ofSource c.metamodel c.entity a.name =
      .ok (attributePath c.entity a)) :
    Succeeds (c.selectPaths (attributes.map (·.name))) := by
  refine succeeds_mapM (List.forall_mem_map.2 fun a ha => ?_)
  exact (succeeds_lift (h a ha)).bind fun p => fun d => ⟨_, _, rfl⟩

theorem selectPaths_leadTo {d d' : Draft} {es : List PathExpression}
    (h : ∀ a ∈ attributes, PropertyPath.ofSource c.metamodel c.entity a.name =
      .ok (attributePath c.entity a))
    (hd : WellJoined d.query.joins)
    (hes : c.selectPaths (attributes.map (·.name)) d = .ok (es, d')) :
    c.LeadTo d'.query attributes es := by
  have hselected := List.forall₂_map_left_iff.1 (selectPaths_ok hd hes).2
  have hboth := (List.forall₂_and_left _ _).2 ⟨h, hselected⟩
  refine hboth.imp ?_
  rintro a e ⟨hname, p, hp, hleads⟩
  obtain ⟨⟩ := hname.symm.trans hp
  exact hleads

/-- The name of an attribute leads to that attribute just if it spells itself. Where the names of the
attributes that a query picks do so, the attributes are selected, and the query is created as long as
its conditions and its orders are. -/
theorem own_attributes_selected
    (hknown : c.metamodel.managedType? c.entity.name = some c.entity)
    (hdistinct : (c.entity.attributes.map (·.name)).Nodup) :
    (∀ a ∈ c.entity.attributes,
      PropertyPath.ofSource c.metamodel c.entity a.name = .ok (attributePath c.entity a) ↔
        SpellsItself a.name) ∧
    ∀ attributes, c.Picks attributes → c.method.isDelete = false → c.counts = false →
      (∀ a ∈ attributes, SpellsItself a.name) →
      (∀ d : Draft, WellJoined d.query.joins → ∃ es d', c.selection d = .ok (.paths es, d') ∧
        c.LeadTo d'.query attributes es) ∧
      ∀ sort predicate d, disjunction c.options c.source c.method.alternatives
          { query := .ofEntity c.entity.entityName c.entity.simpleName .entity } =
            .ok (predicate, d) →
        (∀ o ∈ sort.orders, c.Accepts o) → ∃ created, c.createSorted sort = .ok created := by
  have hname : ∀ a ∈ c.entity.attributes, PropertyPath.ofSource c.metamodel c.entity a.name =
      .ok (attributePath c.entity a) ↔ SpellsItself a.name :=
    fun a ha => PropertyPath.ofSource_name_iff hknown hdistinct ha
  refine ⟨hname, fun attributes hpicks hdelete hcounts hspells => ?_⟩
  have hpaths : ∀ a ∈ attributes, PropertyPath.ofSource c.metamodel c.entity a.name =
      .ok (attributePath c.entity a) :=
    fun a ha => (hname a (hpicks.subset ha)).2 (hspells a ha)
  have hselection := hpicks.selection_eq hdelete hcounts
  refine ⟨fun d hd => ?_, fun sort predicate d hpredicate hsort => ?_⟩
  · obtain ⟨es, d', hes⟩ := succeeds_selectPaths hpaths d
    refine ⟨es, d', ?_, selectPaths_leadTo hpaths hd hes⟩
    rw [hselection]
    exact bind_ok.2 ⟨es, d', hes, rfl⟩
  · have hsucceeds : Succeeds c.selection := by
      rw [hselection]
      exact (succeeds_selectPaths hpaths).bind fun es => succeeds_pure _
    exact createSorted_of_selection hpredicate hsucceeds fun _ _ => hsort

/-! ### Members of a club -/

def club : ManagedType :=
  { name := "app.Club", entityName := "Club", isEntity := true, attributes := [.id "id" .long] }

/-- A member, by the name of its identifier. -/
def member (id : String) : ManagedType :=
  { name := "app.Member", entityName := "Member", isEntity := true
    attributes := [.id id .long, .basic "name" .string, .toType .manyToOne "club" "app.Club"] }

def memberMethod : MethodName :=
  { isExists := true
    alternatives := [[{ source := "Name", operator := .simpleProperty
                        property := attributePath (member "id") (.basic "name" .string) }]] }

def memberCreator (id : String) : Creator :=
  { method := memberMethod, entity := member id, metamodel := ⟨[member id, club]⟩
    parameters := ⟨"existsByName", [⟨0, some "name", .bindable .string, none⟩]⟩ }

theorem own_attributes_selected_of_member :
    (memberCreator "memberId").metamodel.managedType? "app.Member" = some (member "memberId") ∧
    ((member "memberId").attributes.map (·.name)).Nodup ∧
    (memberCreator "memberId").Picks [.id "memberId" .long] ∧
    (∃ es d', (memberCreator "memberId").selection
        { query := .ofEntity "Member" "Member" .entity } = .ok (.paths es, d') ∧
      (memberCreator "memberId").LeadTo d'.query [.id "memberId" .long] es) ∧
    ∃ created, (memberCreator "memberId").createSorted .unsorted = .ok created := by
  have hknown : (memberCreator "memberId").metamodel.managedType? "app.Member" =
      some (member "memberId") := rfl
  have hdistinct : ((member "memberId").attributes.map (·.name)).Nodup := by decide
  have hpicks : (memberCreator "memberId").Picks [.id "memberId" .long] :=
    .identifiers rfl rfl (List.cons_ne_nil _ _)
  have hspells : SpellsItself "memberId" := ⟨by decide, by simp, by cbv⟩
  obtain ⟨hselection, hcreated⟩ := (own_attributes_selected hknown hdistinct).2 _ hpicks rfl rfl
    (List.forall_mem_singleton.2 hspells)
  refine ⟨hknown, hdistinct, hpicks, hselection _ wellJoined_nil, ?_⟩
  exact hcreated .unsorted _ _ rfl (by simp [Sorting.unsorted])

/-- An identifier whose name is cut is not found, or another attribute is selected in its place. -/
theorem divided_identifier_not_selected :
    (∀ id ∈ ["member_id", "club_id"],
      (memberCreator id).metamodel.managedType? "app.Member" = some (member id) ∧
        ((member id).attributes.map (·.name)).Nodup) ∧
    (memberCreator "member_id").createSorted .unsorted =
      .error (.propertyNotFound "member" "Member") ∧
    ((memberCreator "club_id").createSorted .unsorted).toOption.map (·.query.selection) =
      some (.paths [⟨.join 0, "id", "id"⟩]) := by
  refine ⟨fun id hid => ?_, by cbv, by cbv⟩
  simp only [List.mem_cons, List.not_mem_nil, or_false] at hid
  rcases hid with rfl | rfl
  · exact ⟨rfl, by decide⟩
  · exact ⟨rfl, by decide⟩

end Creator

end Jpql.Derived
