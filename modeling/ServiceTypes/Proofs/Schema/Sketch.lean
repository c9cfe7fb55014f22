import ServiceTypes.Proofs.Schema.Independence

/-!
# What the extraction reads

Most of a description has no part in its definitions.  The sketch of a tree is what is left when
all of that is taken out: of the attributes five are kept, in a fixed order, of the children only
the elements of the ten names that are ever looked for, and nothing at all below the level of the
members.  The extraction cannot tell a tree from its sketch, so that trees with one sketch have the
same definitions or the same fault.

The functions of the extraction are gone through from the member up to the root.  Each of them
looks things up by name or by key, and what it finds in the sketch is the sketch of what it finds
in the tree (`firstChild?_sketch`, `childrenNamed_sketch`, `attribute?_sketch`).

* `Settings.Unread`: the elements of which no child is looked at.
* `Settings.sketch`: the sketch of an element at some depth, the root being at depth one.
* `definitions_sketch`: the definitions of a description are those of its sketch.
-/

namespace ServiceTypes
namespace Xml

/-- The keys that are looked up. -/
def readKeys : List String :=
  ["name", "type", "base", "value", "maxOccurs"]

/-- The attributes that are looked up, in a fixed order. -/
def Attributes.sketch (attributes : Attributes) : Attributes where
  entries := readKeys.filterMap fun key => (attributes.get? key).map fun value => (key, value)
  nodup := by
    have hkeys : ((readKeys.filterMap fun key =>
        (attributes.get? key).map fun value => (key, value)).map Prod.fst).Sublist readKeys := by
      induction readKeys with
      | nil => exact List.Sublist.slnil
      | cons key keys ih =>
        rcases hvalue : attributes.get? key with _ | value
        · rw [List.filterMap_cons_none (by rw [hvalue]; rfl)]
          exact ih.cons key
        · rw [List.filterMap_cons_some (b := (key, value)) (by rw [hvalue]; rfl)]
          exact ih.cons_cons key
    exact hkeys.nodup (by decide)

theorem Attributes.entries_sketch (attributes : Attributes) :
    attributes.sketch.entries = readKeys.filterMap fun key =>
      (attributes.get? key).map fun value => (key, value) := rfl

theorem Attributes.get?_sketch (attributes : Attributes) {key : String} (h : key ∈ readKeys) :
    attributes.sketch.get? key = attributes.get? key := by
  apply Option.ext
  intro value
  rw [get?_eq_some_iff, entries_sketch, List.mem_filterMap]
  constructor
  · rintro ⟨other, -, hother⟩
    obtain ⟨found, hfound, heq⟩ := Option.map_eq_some_iff.mp hother
    obtain ⟨rfl, rfl⟩ := Prod.mk.inj heq
    exact hfound
  · intro hvalue
    exact ⟨key, h, by rw [hvalue]; rfl⟩

/-- Attributes with the same values for the keys that are looked up have one sketch. -/
theorem Attributes.sketch_congr {first second : Attributes}
    (h : ∀ key ∈ readKeys, first.get? key = second.get? key) : first.sketch = second.sketch := by
  have hentries : first.sketch.entries = second.sketch.entries := by
    rw [entries_sketch, entries_sketch]
    refine List.filterMap_congr ?_
    intro key hkey
    rw [h key hkey]
  revert hentries
  generalize first.sketch = sketched
  generalize second.sketch = sketched'
  obtain ⟨entries, hnodup⟩ := sketched
  obtain ⟨entries', hnodup'⟩ := sketched'
  rintro (rfl : entries = entries')
  rfl

end Xml

namespace Schema

open Xml

/-- All words of a schema. -/
def Vocabulary.all : List Vocabulary :=
  [.schema, .complexType, .simpleType, .sequence, .complexContent, .extension, .element,
    .restriction, .enumeration]

theorem Vocabulary.mem_all (word : Vocabulary) : word ∈ Vocabulary.all := by
  cases word <;> decide

namespace Settings

variable (settings : Settings)

/-! ## Names and places -/

/-- Whether elements of a name are ever looked for. -/
def reads (name : String) : Bool :=
  name == "types" || Vocabulary.all.any fun word => name == settings.name word

/-- The elements of which no child is looked at, given by depth and name: those at depth eight or
deeper, and those that can only be members or values. -/
def Unread (depth : Nat) (name : String) : Prop :=
  8 ≤ depth ∨
    2 ≤ depth ∧ (name = settings.name .element ∨ name = settings.name .enumeration)

instance (depth : Nat) (name : String) : Decidable (settings.Unread depth name) :=
  inferInstanceAs (Decidable (_ ∨ _))

theorem reads_name (word : Vocabulary) : settings.reads (settings.name word) = true := by
  refine Bool.or_eq_true_iff.mpr (Or.inr (List.any_eq_true.mpr ⟨word, word.mem_all, ?_⟩))
  exact beq_self_eq_true _

/-- The name of the types is no name of a schema, whatever the qualifier. -/
theorem name_ne_types (word : Vocabulary) : settings.name word ≠ "types" := by
  unfold Settings.name schemaName QName.join
  split
  · cases word <;> decide
  · intro h
    have hcolon : ':' ∈ "types".toList := by
      rw [← h, String.toList_append, String.toList_append]
      simp
    revert hcolon
    decide

variable {settings}

theorem not_unread_root (name : String) : ¬ settings.Unread 1 name := by
  unfold Unread
  omega

theorem not_unread_types : ¬ settings.Unread 2 "types" := by
  rintro (h | ⟨-, h | h⟩)
  · omega
  · exact settings.name_ne_types _ h.symm
  · exact settings.name_ne_types _ h.symm

theorem not_unread {depth : Nat} {word : Vocabulary} {element : Element} (hdepth : depth < 8)
    (hname : element.name = settings.name word)
    (hword : word.localName ≠ "element" ∧ word.localName ≠ "enumeration") :
    ¬ settings.Unread depth element.name := by
  rw [hname]
  rintro (h | ⟨-, h | h⟩)
  · omega
  · exact settings.name_ne_of_ne hword.1 h
  · exact settings.name_ne_of_ne hword.2 h

/-! ## The sketch of an element -/

variable (settings)

/-- The sketch of an element at some depth: its name, the attributes that are looked up, and the
sketches of the children that are. -/
def sketch (depth : Nat) (element : Element) : Element :=
  ⟨element.name, element.attributes.sketch,
    if _h : settings.Unread depth element.name then []
    else (element.elements.filter fun child => settings.reads child.name).map
      fun child => (sketch (depth + 1) child).toNode⟩
termination_by 8 - depth
decreasing_by
  unfold Unread at _h
  omega

variable {settings} {depth : Nat} {path : Path}

@[simp] theorem name_sketch (element : Element) :
    (settings.sketch depth element).name = element.name := by
  rw [sketch]

theorem attribute?_sketch (element : Element) {key : String} (h : key ∈ readKeys) :
    (settings.sketch depth element).attribute? key = element.attribute? key := by
  rw [sketch]
  exact element.attributes.get?_sketch h

theorem elements_sketch {element : Element} (h : ¬ settings.Unread depth element.name) :
    (settings.sketch depth element).elements =
      (element.elements.filter fun child => settings.reads child.name).map
        (settings.sketch (depth + 1)) := by
  rw [sketch, Element.elements]
  dsimp only
  rw [dif_neg h, List.filterMap_map]
  exact congrFun List.filterMap_eq_map' _

theorem childrenNamed_sketch {element : Element} (h : ¬ settings.Unread depth element.name)
    {name : String} (hname : settings.reads name = true) :
    (settings.sketch depth element).childrenNamed name =
      (element.childrenNamed name).map (settings.sketch (depth + 1)) := by
  rw [Element.childrenNamed, elements_sketch h, List.filter_map, List.filter_filter,
    Element.childrenNamed]
  congr 1
  refine List.filter_congr ?_
  intro child _
  rw [Function.comp_apply, name_sketch]
  by_cases hchild : child.name = name
  · rw [hchild, hname, beq_self_eq_true]
    rfl
  · rw [beq_false_of_ne hchild]
    rfl

theorem firstChild?_sketch {element : Element} (h : ¬ settings.Unread depth element.name)
    {name : String} (hname : settings.reads name = true) :
    (settings.sketch depth element).firstChild? name =
      (element.firstChild? name).map (settings.sketch (depth + 1)) := by
  rw [Element.firstChild?_eq_head?, childrenNamed_sketch h hname, List.head?_map,
    Element.firstChild?_eq_head?]

theorem requireChild_sketch {element : Element} (h : ¬ settings.Unread depth element.name)
    {name : String} (hname : settings.reads name = true) :
    requireChild (settings.sketch depth element) name path =
      (requireChild element name path).map (settings.sketch (depth + 1)) := by
  unfold requireChild
  rw [firstChild?_sketch h hname]
  cases element.firstChild? name <;> rfl

theorem requireAttribute_sketch (element : Element) {key : String} (h : key ∈ readKeys) :
    requireAttribute (settings.sketch depth element) key path =
      requireAttribute element key path := by
  unfold requireAttribute
  rw [attribute?_sketch element h, name_sketch]

/-! ## The functions of the extraction -/

theorem member_sketch (element : Element) :
    settings.member path (settings.sketch depth element) = settings.member path element := by
  unfold Settings.member
  rw [requireAttribute_sketch element (by decide), attribute?_sketch element (by decide)]
  have htype : "type" ∈ readKeys := by decide
  simp only [name_sketch, requireAttribute_sketch element htype]

theorem members_sketch {sequence : Element} (h : ¬ settings.Unread depth sequence.name) :
    settings.members path (settings.sketch depth sequence) = settings.members path sequence := by
  unfold Settings.members
  rw [childrenNamed_sketch h (settings.reads_name _), List.mapM_map]
  congr 1
  funext element
  exact member_sketch element

theorem record_sketch {complexType : Element}
    (hname : complexType.name = settings.name .complexType) :
    settings.record path (settings.sketch 4 complexType) = settings.record path complexType := by
  have htype : ¬ settings.Unread 4 complexType.name := not_unread (by decide) hname (by decide)
  unfold Settings.record
  rw [requireAttribute_sketch complexType (by decide), name_sketch]
  refine bind_congr_of_ok fun name _ => ?_
  -- the sequence is at depth five or at depth seven, so the shapes are gone through one by one
  unfold Settings.content
  rw [firstChild?_sketch htype (settings.reads_name _),
    firstChild?_sketch htype (settings.reads_name _)]
  rcases hsequence : complexType.firstChild? (settings.name .sequence) with _ | sequence
  · rcases hcontent : complexType.firstChild? (settings.name .complexContent) with _ | content
    · rfl
    · have hcontent : ¬ settings.Unread 5 content.name :=
        not_unread (by decide) (Element.name_of_firstChild? hcontent) (by decide)
      dsimp only [Option.map_some, Option.map_none]
      rw [requireChild_sketch hcontent (settings.reads_name _), map_bind, bind_assoc, bind_assoc]
      refine bind_congr_of_ok fun extension hextension => ?_
      have hextension : ¬ settings.Unread 6 extension.name :=
        not_unread (by decide) (Element.name_of_firstChild? (requireChild_eq_ok_iff.mp hextension))
          (by decide)
      rw [requireAttribute_sketch extension (by decide),
        firstChild?_sketch hextension (settings.reads_name _)]
      rcases hsequence : extension.firstChild? (settings.name .sequence) with _ | sequence
      · rfl
      · have hsequence : ¬ settings.Unread 7 sequence.name :=
          not_unread (by decide) (Element.name_of_firstChild? hsequence) (by decide)
        rw [bind_assoc, bind_assoc]
        refine bind_congr_of_ok fun base _ => ?_
        exact congrArg (fun members : Except Fault (List Member) => members >>= fun members =>
          .ok (Record.mk name (some (QName.localOf base)) members)) (members_sketch hsequence)
  · have hsequence : ¬ settings.Unread 5 sequence.name :=
      not_unread (by decide) (Element.name_of_firstChild? hsequence) (by decide)
    exact congrArg (fun members : Except Fault (List Member) => members >>= fun members =>
      .ok (Record.mk name none members)) (members_sketch hsequence)

theorem facet_sketch (element : Element) :
    facet path (settings.sketch depth element) = facet path element := by
  unfold facet
  rw [requireAttribute_sketch element (by decide), name_sketch]

theorem enumeration_sketch {simpleType : Element}
    (hname : simpleType.name = settings.name .simpleType) :
    settings.enumeration path (settings.sketch 4 simpleType) =
      settings.enumeration path simpleType := by
  have htype : ¬ settings.Unread 4 simpleType.name := not_unread (by decide) hname (by decide)
  unfold Settings.enumeration
  rw [requireAttribute_sketch simpleType (by decide), name_sketch]
  refine bind_congr_of_ok fun name _ => ?_
  dsimp only
  rw [requireChild_sketch htype (settings.reads_name _), map_bind]
  refine bind_congr_of_ok fun restriction hrestriction => ?_
  have hrestriction : ¬ settings.Unread 5 restriction.name :=
    not_unread (by decide) (Element.name_of_firstChild? (requireChild_eq_ok_iff.mp hrestriction))
      (by decide)
  rw [requireAttribute_sketch restriction (by decide),
    childrenNamed_sketch hrestriction (settings.reads_name _), List.mapM_map]
  simp only [Function.comp_def, facet_sketch]

theorem declared_sketch {type : Element}
    (hname : type.name = settings.name .complexType ∨ type.name = settings.name .simpleType) :
    settings.declared path (settings.sketch 4 type) = settings.declared path type := by
  unfold declared
  rw [name_sketch]
  split
  · next hcomplex => rw [record_sketch hcomplex]
  · next hother => rw [enumeration_sketch (hname.resolve_left hother)]

theorem schemaDefinitions_sketch {schema : Element}
    (hname : schema.name = settings.name .schema) :
    settings.schemaDefinitions path (settings.sketch 3 schema) =
      settings.schemaDefinitions path schema := by
  have hschema : ¬ settings.Unread 3 schema.name := not_unread (by decide) hname (by decide)
  have hdeclarations : settings.declarations (settings.sketch 3 schema) =
      (settings.declarations schema).map (settings.sketch 4) := by
    unfold declarations
    rw [childrenNamed_sketch hschema (settings.reads_name _),
      childrenNamed_sketch hschema (settings.reads_name _), List.map_append]
  rw [schemaDefinitions_eq_mapM, schemaDefinitions_eq_mapM, hdeclarations, List.length_map,
    List.mapM_map]
  refine bind_congr_of_ok fun _ _ => ?_
  refine mapM_congr_of_mem fun type hmem => declared_sketch ?_
  exact (List.mem_append.mp hmem).imp name_of_mem_childrenNamed name_of_mem_childrenNamed

/-- **The extraction cannot tell a description from its sketch.** -/
theorem definitions_sketch (root : Element) :
    settings.definitions (settings.sketch 1 root) = settings.definitions root := by
  unfold Settings.definitions
  dsimp only
  rw [requireChild_sketch (not_unread_root _) (by rfl), map_bind, name_sketch]
  refine bind_congr_of_ok fun types htypes => ?_
  have htypes : ¬ settings.Unread 2 types.name := by
    rw [Element.name_of_firstChild? (requireChild_eq_ok_iff.mp htypes)]
    exact not_unread_types
  rw [requireChild_sketch htypes (settings.reads_name _), map_bind]
  refine bind_congr_of_ok fun schema hschema => ?_
  exact schemaDefinitions_sketch (Element.name_of_firstChild? (requireChild_eq_ok_iff.mp hschema))

end Settings
end Schema
end ServiceTypes
