import ServiceTypes.Proofs.Schema.Independence

/-!
# Every fault is where its path says

A fault of a description names a place by a path, and what is wrong there by its words.  Both are
put together by hand wherever something is looked for, so it is not clear from the start that the
path leads to an element at all, nor that this element is the one at fault.

The tree is walked once more for this, beside the extraction.  A way is a chain of elements, each
of them a child of the one before, and it has a path of its own; the invariant is that every
function of the extraction is given the path of the way to its element.  Then whatever it finds
missing is missing there.

* `Settings.Below`, `Settings.Way`: the ways through a description with their paths.  The root,
  its types and the schema are written by name alone; below the schema an element that declares a
  type or a member is written with the name it declares.
* `Settings.Evident`: what has to be found at the end of a way for a fault to be justified.
* `Settings.Located`: a fault that is justified at the end of some way.  Each function has its
  lemma, named `located_of_*`.
* `diagnostic_located`: what a host is told of a fault, the path and the words, is true of the
  description.
-/

namespace ServiceTypes
namespace Schema

open Xml

namespace Settings

/-! ## Ways and their paths -/

/-- Whether the elements of a name are written with the name they declare. -/
def Declaring (settings : Settings) (name : String) : Prop :=
  ∃ word ∈ [Vocabulary.complexType, .simpleType, .element], name = settings.name word

/-- The ways to the schema and to the elements below it, the innermost element first, with their
paths. -/
inductive Below (settings : Settings) (root : Element) : List Element → Path → Prop
  /-- The schema stands in the types of the root. -/
  | schema {types schema : Element} (htypes : types ∈ root.elements)
    (hschema : schema ∈ types.elements) :
    Below settings root [schema, types, root]
      (((Path.root root.name).child types.name).child schema.name)
  /-- An element that declares nothing is written by its name. -/
  | plain {child parent : Element} {outer : List Element} {path : Path}
    (hparent : Below settings root (parent :: outer) path) (hchild : child ∈ parent.elements)
    (hplain : ¬ settings.Declaring child.name) :
    Below settings root (child :: parent :: outer) (path.child child.name)
  /-- An element that declares something is written with the name that it declares. -/
  | declaring {child parent : Element} {outer : List Element} {path : Path} {name : String}
    (hparent : Below settings root (parent :: outer) path) (hchild : child ∈ parent.elements)
    (hdeclaring : settings.Declaring child.name) (hname : child.attribute? "name" = some name) :
    Below settings root (child :: parent :: outer) (path.declaration child.name name)

/-- The ways from the root of a description to an element, the innermost element first, with their
paths. -/
inductive Way (settings : Settings) (root : Element) : List Element → Path → Prop
  /-- The root is at its own place. -/
  | root : Way settings root [root] (Path.root root.name)
  /-- The types stand in the root. -/
  | types {types : Element} (htypes : types ∈ root.elements) :
    Way settings root [types, root] ((Path.root root.name).child types.name)
  /-- All else stands in the types. -/
  | below {chain : List Element} {path : Path} (hbelow : Below settings root chain path) :
    Way settings root chain path

/-! ## What justifies a fault -/

/-- What is found at the end of a way with that path when a fault is justified. -/
inductive Evident (settings : Settings) : List Element → Path → Fault → Prop
  /-- The element has no child of the name. -/
  | missingElement {place : Element} {outer : List Element} {path : Path} {name : String}
    (hnone : place.childrenNamed name = []) :
    Evident settings (place :: outer) path (.missingElement name path)
  /-- The element lacks the attribute. -/
  | missingAttribute {place : Element} {outer : List Element} {path : Path} {key : String}
    (hnone : place.attribute? key = none) :
    Evident settings (place :: outer) path (.missingAttribute place.name key path)
  /-- A child of the element lacks a name, so that the path cannot lead further. -/
  | namelessChild {place child : Element} {outer : List Element} {path : Path} {name : String}
    (hchild : child ∈ place.childrenNamed name) (hnone : child.attribute? "name" = none) :
    Evident settings (place :: outer) path (.missingAttribute name "name" path)
  /-- The element describes a member, and its type comes to nothing. -/
  | unknownMember {place sequence : Element} {outer : List Element} {path : Path}
    {written : String} (hsequence : sequence.name = settings.name .sequence)
    (hplace : place.name = settings.name .element)
    (hwritten : place.attribute? "type" = some written)
    (hunknown : settings.prefixes.resolve written = .error ⟨written⟩) :
    Evident settings (place :: sequence :: outer) path (.unknownType written path)
  /-- The element restricts a type, and its base comes to nothing. -/
  | unknownBase {place simpleType : Element} {outer : List Element} {path : Path}
    {written : String} (hsimple : simpleType.name = settings.name .simpleType)
    (hplace : place.name = settings.name .restriction)
    (hwritten : place.attribute? "base" = some written)
    (hunknown : settings.prefixes.resolve written = .error ⟨written⟩) :
    Evident settings (place :: simpleType :: outer) path (.unknownType written path)

/-- A fault that is justified at the end of some way. -/
def Located (settings : Settings) (root : Element) (fault : Fault) : Prop :=
  ∃ chain path, settings.Way root chain path ∧ settings.Evident chain path fault

end Settings

/-! ## What can be wrong with one thing that is looked for -/

theorem childrenNamed_eq_nil_of_firstChild? {element : Element} {name : String}
    (h : element.firstChild? name = none) : element.childrenNamed name = [] := by
  rw [Element.firstChild?_eq_head?] at h
  exact List.head?_eq_none_iff.mp h

theorem mem_elements_of_mem_childrenNamed {element child : Element} {name : String}
    (h : child ∈ element.childrenNamed name) : child ∈ element.elements :=
  (List.mem_filter.mp h).1

theorem mem_childrenNamed_of_firstChild? {element child : Element} {name : String}
    (h : element.firstChild? name = some child) : child ∈ element.childrenNamed name := by
  rw [Element.firstChild?_eq_head?] at h
  exact List.mem_of_mem_head? h

theorem requireChild_eq_error {element : Element} {name : String} {path : Path} {fault : Fault}
    (h : requireChild element name path = .error fault) :
    element.childrenNamed name = [] ∧ fault = .missingElement name path := by
  unfold requireChild at h
  split at h
  · cases h
  · next hnone => exact ⟨childrenNamed_eq_nil_of_firstChild? hnone, (Except.error.inj h).symm⟩

theorem requireAttribute_eq_error {element : Element} {key : String} {path : Path} {fault : Fault}
    (h : requireAttribute element key path = .error fault) :
    element.attribute? key = none ∧ fault = .missingAttribute element.name key path := by
  unfold requireAttribute at h
  split at h
  · cases h
  · next hnone => exact ⟨hnone, (Except.error.inj h).symm⟩

/-- A reference that comes to nothing is told as it was written. -/
theorem resolve_eq_error {prefixes : Prefixes} {written : String} {unknown : UnknownType}
    (h : prefixes.resolve written = .error unknown) : unknown = ⟨written⟩ := by
  unfold Prefixes.resolve at h
  split at h
  · cases h
  · split at h
    · cases h
    · exact (Except.error.inj h).symm

theorem typeAt_eq_error {settings : Settings} {path : Path} {written : String} {fault : Fault}
    (h : settings.typeAt path written = .error fault) :
    settings.prefixes.resolve written = .error ⟨written⟩ ∧ fault = .unknownType written path := by
  unfold Settings.typeAt at h
  rcases hresolve : settings.prefixes.resolve written with unknown | type
  · obtain rfl := resolve_eq_error hresolve
    rw [hresolve] at h
    exact ⟨rfl, (Except.error.inj h).symm⟩
  · rw [hresolve] at h
    cases h

namespace Settings

variable {settings : Settings} {root : Element}

/-! ## The functions of the extraction -/

/-- Only the names of complex types, simple types and members are those of declarations. -/
theorem not_declaring {word : Vocabulary}
    (h : ∀ other ∈ [Vocabulary.complexType, .simpleType, .element],
      word.localName ≠ other.localName) : ¬ settings.Declaring (settings.name word) := by
  rintro ⟨other, hmem, heq⟩
  exact settings.name_ne_of_ne (h other hmem) heq

theorem declaring_of_mem {word : Vocabulary}
    (h : word ∈ [Vocabulary.complexType, .simpleType, .element]) {element : Element}
    (hname : element.name = settings.name word) : settings.Declaring element.name :=
  ⟨word, h, hname⟩

/-- The way goes on to the first child of a name that declares nothing. -/
theorem Below.firstChild {parent child : Element} {outer : List Element} {path : Path}
    {word : Vocabulary} (hparent : settings.Below root (parent :: outer) path)
    (hplain : ¬ settings.Declaring (settings.name word))
    (hchild : parent.firstChild? (settings.name word) = some child) :
    settings.Below root (child :: parent :: outer) (path.child (settings.name word)) := by
  have hname := Element.name_of_firstChild? hchild
  have hmem := mem_elements_of_mem_childrenNamed (mem_childrenNamed_of_firstChild? hchild)
  rw [← hname] at hplain ⊢
  exact Below.plain hparent hmem hplain

/-- The way goes on to a child that declares something. -/
theorem Below.declaration {parent child : Element} {outer : List Element} {path : Path}
    {word : Vocabulary} {name : String} (hparent : settings.Below root (parent :: outer) path)
    (hword : word ∈ [Vocabulary.complexType, .simpleType, .element])
    (hchild : child ∈ parent.childrenNamed (settings.name word))
    (hname : child.attribute? "name" = some name) :
    settings.Below root (child :: parent :: outer) (path.declaration child.name name) :=
  Below.declaring hparent (mem_elements_of_mem_childrenNamed hchild)
    (declaring_of_mem hword (name_of_mem_childrenNamed hchild)) hname

theorem located_of_nameless {parent child : Element} {outer : List Element} {path : Path}
    {name : String} {fault : Fault} (hparent : settings.Below root (parent :: outer) path)
    (hchild : child ∈ parent.childrenNamed name)
    (h : requireAttribute child "name" path = .error fault) : settings.Located root fault := by
  obtain ⟨hnone, rfl⟩ := requireAttribute_eq_error h
  rw [name_of_mem_childrenNamed hchild]
  exact ⟨_, _, Way.below hparent, Evident.namelessChild hchild hnone⟩

theorem located_of_requireAttribute {place : Element} {outer : List Element} {path : Path}
    {key : String} {fault : Fault} (hplace : settings.Below root (place :: outer) path)
    (h : requireAttribute place key path = .error fault) : settings.Located root fault := by
  obtain ⟨hnone, rfl⟩ := requireAttribute_eq_error h
  exact ⟨_, _, Way.below hplace, Evident.missingAttribute hnone⟩

theorem located_of_requireChild {place : Element} {outer : List Element} {path : Path}
    {name : String} {fault : Fault} (hplace : settings.Way root (place :: outer) path)
    (h : requireChild place name path = .error fault) : settings.Located root fault := by
  obtain ⟨hnone, rfl⟩ := requireChild_eq_error h
  exact ⟨_, _, hplace, Evident.missingElement hnone⟩

theorem located_of_member {sequence element : Element} {outer : List Element} {path : Path}
    {fault : Fault} (hsequence : settings.Below root (sequence :: outer) path)
    (hname : sequence.name = settings.name .sequence)
    (hmem : element ∈ sequence.childrenNamed (settings.name .element))
    (h : settings.member path element = .error fault) : settings.Located root fault := by
  rcases bind_eq_error_iff.mp h with h | ⟨name, hdeclared, h⟩
  · exact located_of_nameless hsequence hmem h
  have hhere : settings.Below root (element :: sequence :: outer)
      (path.declaration element.name name) :=
    hsequence.declaration (by simp) hmem (requireAttribute_eq_ok_iff.mp hdeclared)
  rcases bind_eq_error_iff.mp h with h | ⟨written, hwritten, h⟩
  · exact located_of_requireAttribute hhere h
  rcases bind_eq_error_iff.mp h with h | ⟨type, -, h⟩
  · obtain ⟨hunknown, rfl⟩ := typeAt_eq_error h
    exact ⟨_, _, Way.below hhere, Evident.unknownMember hname (name_of_mem_childrenNamed hmem)
      (requireAttribute_eq_ok_iff.mp hwritten) hunknown⟩
  · cases h

theorem located_of_members {sequence : Element} {outer : List Element} {path : Path}
    {fault : Fault} (hsequence : settings.Below root (sequence :: outer) path)
    (hname : sequence.name = settings.name .sequence)
    (h : settings.members path sequence = .error fault) : settings.Located root fault := by
  obtain ⟨element, hmem, h⟩ := exists_mem_of_mapM_eq_error h
  exact located_of_member hsequence hname hmem h

section ComplexType

variable {complexType : Element} {outer : List Element} {path : Path}
  (htype : settings.Below root (complexType :: outer) path)

include htype

theorem located_of_content {fault : Fault}
    (h : settings.content path complexType = .error fault) : settings.Located root fault := by
  unfold Settings.content at h
  split at h
  · cases h
  split at h
  · cases h
  next complexContent hcontent =>
  have hcontent := htype.firstChild (not_declaring (by decide)) hcontent
  rcases bind_eq_error_iff.mp h with h | ⟨extension, hextension, h⟩
  · exact located_of_requireChild (Way.below hcontent) h
  have hextension := hcontent.firstChild (not_declaring (by decide))
    (requireChild_eq_ok_iff.mp hextension)
  rcases bind_eq_error_iff.mp h with h | ⟨base, -, h⟩
  · exact located_of_requireAttribute hextension h
  · cases h

/-- The sequence of a complex type comes with the path of the way to it. -/
theorem below_of_content {content : Content} {sequence : Element} {path' : Path}
    (h : settings.content path complexType = .ok content)
    (hsequence : content.sequence = some (sequence, path')) :
    sequence.name = settings.name .sequence ∧
      ∃ outer, settings.Below root (sequence :: outer) path' := by
  unfold Settings.content at h
  split at h
  · next found hfound =>
    obtain rfl := Except.ok.inj h
    obtain ⟨rfl, rfl⟩ := Prod.mk.inj (Option.some.inj hsequence)
    exact ⟨Element.name_of_firstChild? hfound, _,
      htype.firstChild (not_declaring (by decide)) hfound⟩
  split at h
  · obtain rfl := Except.ok.inj h
    cases hsequence
  next complexContent hcontent =>
  have hcontent := htype.firstChild (not_declaring (by decide)) hcontent
  obtain ⟨extension, hextension, h⟩ := bind_eq_ok_iff.mp h
  have hextension := hcontent.firstChild (not_declaring (by decide))
    (requireChild_eq_ok_iff.mp hextension)
  obtain ⟨base, -, h⟩ := bind_eq_ok_iff.mp h
  obtain rfl := Except.ok.inj h
  obtain ⟨found, hfound, hlocated⟩ := Option.map_eq_some_iff.mp hsequence
  obtain ⟨rfl, rfl⟩ := Prod.mk.inj hlocated
  exact ⟨Element.name_of_firstChild? hfound, _,
    hextension.firstChild (not_declaring (by decide)) hfound⟩

end ComplexType

section Types

variable {schema : Element} {outer : List Element} {path : Path}
  (hschema : settings.Below root (schema :: outer) path)

include hschema

theorem located_of_record {complexType : Element} {fault : Fault}
    (hmem : complexType ∈ schema.childrenNamed (settings.name .complexType))
    (h : settings.record path complexType = .error fault) : settings.Located root fault := by
  rcases bind_eq_error_iff.mp h with h | ⟨name, hname, h⟩
  · exact located_of_nameless hschema hmem h
  have htype : settings.Below root (complexType :: schema :: outer)
      (path.declaration complexType.name name) :=
    hschema.declaration (by simp) hmem (requireAttribute_eq_ok_iff.mp hname)
  rcases bind_eq_error_iff.mp h with h | ⟨content, hcontent, h⟩
  · exact located_of_content htype h
  split at h
  · cases h
  · next sequence path' hsequence =>
    obtain ⟨hname, outer', hbelow⟩ := below_of_content htype hcontent hsequence
    rcases bind_eq_error_iff.mp h with h | ⟨members, -, h⟩
    · exact located_of_members hbelow hname h
    · cases h

theorem located_of_enumeration {simpleType : Element} {fault : Fault}
    (hmem : simpleType ∈ schema.childrenNamed (settings.name .simpleType))
    (h : settings.enumeration path simpleType = .error fault) : settings.Located root fault := by
  rcases bind_eq_error_iff.mp h with h | ⟨name, hname, h⟩
  · exact located_of_nameless hschema hmem h
  have htype : settings.Below root (simpleType :: schema :: outer)
      (path.declaration simpleType.name name) :=
    hschema.declaration (by simp) hmem (requireAttribute_eq_ok_iff.mp hname)
  rcases bind_eq_error_iff.mp h with h | ⟨restriction, hrestriction, h⟩
  · exact located_of_requireChild (Way.below htype) h
  have hrestriction := requireChild_eq_ok_iff.mp hrestriction
  have hplace := htype.firstChild (not_declaring (by decide)) hrestriction
  rcases bind_eq_error_iff.mp h with h | ⟨written, hwritten, h⟩
  · exact located_of_requireAttribute hplace h
  rcases bind_eq_error_iff.mp h with h | ⟨base, -, h⟩
  · obtain ⟨hunknown, rfl⟩ := typeAt_eq_error h
    exact ⟨_, _, Way.below hplace, Evident.unknownBase (name_of_mem_childrenNamed hmem)
      (Element.name_of_firstChild? hrestriction) (requireAttribute_eq_ok_iff.mp hwritten)
      hunknown⟩
  rcases bind_eq_error_iff.mp h with h | ⟨values, -, h⟩
  · obtain ⟨facet, hfacet, h⟩ := exists_mem_of_mapM_eq_error h
    have hplain : ¬ settings.Declaring facet.name := by
      rw [name_of_mem_childrenNamed hfacet]
      exact not_declaring (by decide)
    exact located_of_requireAttribute
      (Below.plain hplace (mem_elements_of_mem_childrenNamed hfacet) hplain) h
  · cases h

theorem located_of_declared {type : Element} {fault : Fault}
    (hmem : type ∈ settings.declarations schema)
    (h : settings.declared path type = .error fault) : settings.Located root fault := by
  rcases List.mem_append.mp hmem with hmem | hmem
  · rw [declared_complexType (name_of_mem_childrenNamed hmem)] at h
    exact located_of_record hschema hmem (map_eq_error_iff.mp h)
  · rw [declared_simpleType (name_of_mem_childrenNamed hmem)] at h
    exact located_of_enumeration hschema hmem (map_eq_error_iff.mp h)

end Types

/-- A fault of a description is a count that is refused, or it is justified at the end of the way
that its path describes. -/
theorem located_of_definitions {fault : Fault} (h : settings.definitions root = .error fault) :
    (∃ excess, fault = .limit excess) ∨ settings.Located root fault := by
  rcases bind_eq_error_iff.mp h with h | ⟨types, htypes, h⟩
  · exact Or.inr (located_of_requireChild Way.root h)
  have htypes := requireChild_eq_ok_iff.mp htypes
  have htypesName := Element.name_of_firstChild? htypes
  have htypesMem := mem_elements_of_mem_childrenNamed (mem_childrenNamed_of_firstChild? htypes)
  have hway : settings.Way root [types, root] ((Path.root root.name).child "types") :=
    htypesName ▸ Way.types htypesMem
  rcases bind_eq_error_iff.mp h with h | ⟨schema, hschema, h⟩
  · exact Or.inr (located_of_requireChild hway h)
  have hschema := requireChild_eq_ok_iff.mp hschema
  have hschemaName := Element.name_of_firstChild? hschema
  have hschemaMem := mem_elements_of_mem_childrenNamed (mem_childrenNamed_of_firstChild? hschema)
  have hbelow : settings.Below root _ _ := Below.schema htypesMem hschemaMem
  rw [htypesName, hschemaName] at hbelow
  rw [schemaDefinitions_eq_mapM] at h
  rcases bind_eq_error_iff.mp h with h | ⟨⟨⟩, -, h⟩
  · exact Or.inl (Limits.limit_of_require_eq_error h)
  · obtain ⟨type, hmem, h⟩ := exists_mem_of_mapM_eq_error h
    exact Or.inr (located_of_declared hbelow hmem h)

/-! ## What a host is told -/

/-- **What a host is told of a fault is true of the description.**  Unless a count is refused, the
path that is given is that of a way from the root to some element, and the words say what is
wrong there: the element has no child of the name that is said to be missing; or it is the element
that is said to lack an attribute, or has a child of that name without a name to lead further; or
it describes a member or restricts a type, and refers to a type of which nothing is known. -/
theorem diagnostic_located {settings : Settings} {root : Element} {fault : Fault}
    (h : settings.definitions root = .error fault) :
    (∃ detail, fault.diagnostic = .limitExceeded detail) ∨
    ∃ place outer path, settings.Way root (place :: outer) path ∧
      ((∃ name,
          fault.diagnostic =
            .malformedSchema ("missing '" ++ name ++ "' element") (some path.label) ∧
          place.childrenNamed name = []) ∨
        (∃ name key,
          fault.diagnostic =
            .malformedSchema ("'" ++ name ++ "' is missing required attribute '" ++ key ++ "'")
              (some path.label) ∧
          (place.name = name ∧ place.attribute? key = none ∨
            key = "name" ∧ ∃ child ∈ place.childrenNamed name,
              child.attribute? "name" = none)) ∨
        (∃ written,
          fault.diagnostic = .unknownType written (some path.label) ∧
          settings.prefixes.resolve written = .error ⟨written⟩ ∧
          ∃ around ∈ outer.head?,
            around.name = settings.name .sequence ∧ place.name = settings.name .element ∧
                place.attribute? "type" = some written ∨
              around.name = settings.name .simpleType ∧
                place.name = settings.name .restriction ∧
                place.attribute? "base" = some written)) := by
  rcases located_of_definitions h with ⟨excess, rfl⟩ | ⟨chain, path, hway, hevident⟩
  · exact Or.inl ⟨excess.message, rfl⟩
  refine Or.inr ?_
  cases hevident with
  | missingElement hnone => exact ⟨_, _, _, hway, Or.inl ⟨_, rfl, hnone⟩⟩
  | missingAttribute hnone =>
    exact ⟨_, _, _, hway, Or.inr (Or.inl ⟨_, _, rfl, Or.inl ⟨rfl, hnone⟩⟩)⟩
  | namelessChild hchild hnone =>
    exact ⟨_, _, _, hway, Or.inr (Or.inl ⟨_, _, rfl, Or.inr ⟨rfl, _, hchild, hnone⟩⟩)⟩
  | unknownMember hsequence hplace hwritten hunknown =>
    exact ⟨_, _, _, hway, Or.inr (Or.inr ⟨_, rfl, hunknown, _, rfl,
      Or.inl ⟨hsequence, hplace, hwritten⟩⟩)⟩
  | unknownBase hsimple hplace hwritten hunknown =>
    exact ⟨_, _, _, hway, Or.inr (Or.inr ⟨_, rfl, hunknown, _, rfl,
      Or.inr ⟨hsimple, hplace, hwritten⟩⟩)⟩

/-- A complex type that extends another one and has a member of a type that nobody declares. -/
def strayMember : Element :=
  ⟨"definitions", ∅, [.element "types" ∅ [.element "xsd:schema" ∅ [
    .element "xsd:complexType" ⟨[("name", "A")], List.pairwise_singleton _ "name"⟩ [
      .element "xsd:complexContent" ∅ [
        .element "xsd:extension" ⟨[("base", "tns:B")], by decide⟩ [.element "xsd:sequence" ∅ [
          .element "xsd:element" ⟨[("name", "x"), ("type", "int")], by decide⟩ []]]]]]]]⟩

/-- The path leads through the extension to an element that refers to the type that is told. -/
theorem diagnostic_located_extension :
    ({} : Settings).definitions strayMember = .error (.unknownType "int" (.mk [
      ⟨"definitions", none⟩, ⟨"types", none⟩, ⟨"xsd:schema", none⟩, ⟨"xsd:complexType", some "A"⟩,
      ⟨"xsd:complexContent", none⟩, ⟨"xsd:extension", none⟩, ⟨"xsd:sequence", none⟩,
      ⟨"xsd:element", some "x"⟩])) ∧
    ∃ place outer path, ({} : Settings).Way strayMember (place :: outer) path ∧
      path.label = "definitions/types/xsd:schema/xsd:complexType[@name='A']/" ++
        "xsd:complexContent/xsd:extension/xsd:sequence/xsd:element[@name='x']" ∧
      (place.attribute? "type" = some "int" ∨ place.attribute? "base" = some "int") := by
  refine ⟨rfl, ?_⟩
  rcases @diagnostic_located {} strayMember _ rfl with
    ⟨detail, hdetail⟩ | ⟨place, outer, path, hway, hname | hkey | htype⟩
  · cases hdetail
  · obtain ⟨name, hname, -⟩ := hname
    cases hname
  · obtain ⟨name, key, hkey, -⟩ := hkey
    cases hkey
  · obtain ⟨written, htype, -, around, -, hplace⟩ := htype
    obtain ⟨rfl, hlabel⟩ := Diagnostic.unknownType.inj htype
    refine ⟨place, outer, path, hway, ?_, hplace.imp (fun h => h.2.2) (fun h => h.2.2)⟩
    rw [← Option.some.inj hlabel]
    decide

end Settings
end Schema
end ServiceTypes
