import ServiceTypes.Proofs.Outcome
import ServiceTypes.Schema.Extraction

/-!
# The contract of a schema

What a description has to be like to have definitions, and what they are then, said without the
paths, the faults and the order in which things are tested.  The words are those of
`Schema.Extraction`: a name is looked up among the children of an element, and only the first
child of a name counts where one is looked for.

* `Settings.Shape`: the three ways in which a complex type can hold its members.  A sequence of
  its own goes before complex content, which then is not looked at.
* `Settings.Sound`: the descriptions that have definitions.
* `Settings.Describes`: a description and its definitions.
* `definitions_iff_describes`: `Settings.definitions` succeeds on the sound descriptions and on no
  others, and gives the definitions that are described.

Each function of the extraction has its lemma, named `*_eq_ok_iff`, and only the function itself
is unfolded in it.
-/

namespace ServiceTypes
namespace Schema

open Xml

namespace Settings

variable (settings : Settings)

/-! ## What a complex type extends and where its members are -/

/-- The base of a complex type, and the sequence that lists its members. -/
inductive Shape (complexType : Element) : Option String → Option Element → Prop
  /-- A sequence of its own. -/
  | sequence {sequence : Element}
    (hsequence : complexType.firstChild? (settings.name .sequence) = some sequence) :
    Shape complexType none (some sequence)
  /-- Complex content with an extension, which may hold a sequence. -/
  | extension {complexContent extension : Element} {base : String}
    (hsequence : complexType.firstChild? (settings.name .sequence) = none)
    (hcontent : complexType.firstChild? (settings.name .complexContent) = some complexContent)
    (hextension : complexContent.firstChild? (settings.name .extension) = some extension)
    (hbase : extension.attribute? "base" = some base) :
    Shape complexType (some (QName.localOf base))
      (extension.firstChild? (settings.name .sequence))
  /-- Neither of the two. -/
  | bare (hsequence : complexType.firstChild? (settings.name .sequence) = none)
    (hcontent : complexType.firstChild? (settings.name .complexContent) = none) :
    Shape complexType none none

/-- The elements that describe members in a sequence, if there is one. -/
def memberElements (source : Option Element) : List Element :=
  source.elim [] fun sequence => sequence.childrenNamed (settings.name .element)

/-! ## Sound descriptions -/

/-- A written reference that comes to a type. -/
def Refers (written : String) : Prop :=
  ∃ type, settings.prefixes.resolve written = .ok type

/-- An element with a name and a type. -/
structure SoundMember (element : Element) : Prop where
  name : ∃ name, element.attribute? "name" = some name
  type : ∃ written, element.attribute? "type" = some written ∧ settings.Refers written

/-- A complex type with a name, of one of the shapes, with sound members. -/
structure SoundRecord (complexType : Element) : Prop where
  name : ∃ name, complexType.attribute? "name" = some name
  members : ∃ base source, settings.Shape complexType base source ∧
    ∀ element ∈ settings.memberElements source, settings.SoundMember element

/-- A simple type with a name and a restriction, which has a base and gives a value in each
facet. -/
structure SoundEnumeration (simpleType : Element) : Prop where
  name : ∃ name, simpleType.attribute? "name" = some name
  restriction : ∃ restriction,
    simpleType.firstChild? (settings.name .restriction) = some restriction ∧
    (∃ written, restriction.attribute? "base" = some written ∧ settings.Refers written) ∧
    ∀ facet ∈ restriction.childrenNamed (settings.name .enumeration),
      ∃ value, facet.attribute? "value" = some value

/-- A schema with no more types than allowed, all of them sound. -/
structure SoundSchema (schema : Element) : Prop where
  count : (schema.childrenNamed (settings.name .complexType)).length +
    (schema.childrenNamed (settings.name .simpleType)).length ≤ settings.limits.definitions
  records : ∀ complexType ∈ schema.childrenNamed (settings.name .complexType),
    settings.SoundRecord complexType
  enumerations : ∀ simpleType ∈ schema.childrenNamed (settings.name .simpleType),
    settings.SoundEnumeration simpleType

/-- A description with a sound schema in its types. -/
def Sound (root : Element) : Prop :=
  ∃ types schema, root.firstChild? "types" = some types ∧
    types.firstChild? (settings.name .schema) = some schema ∧ settings.SoundSchema schema

/-! ## What is described -/

/-- An element and the member that it describes. -/
structure DescribesMember (element : Element) (member : Member) : Prop where
  name : element.attribute? "name" = some member.name
  type : ∃ written, element.attribute? "type" = some written ∧
    settings.prefixes.resolve written = .ok member.type
  isArray : member.isArray = true ↔ element.attribute? "maxOccurs" = some "unbounded"

/-- A complex type and the record that it describes. -/
structure DescribesRecord (complexType : Element) (record : Record) : Prop where
  name : complexType.attribute? "name" = some record.name
  members : ∃ source, settings.Shape complexType record.base source ∧
    List.Forall₂ settings.DescribesMember (settings.memberElements source) record.members

/-- A simple type and the enumeration that it describes. -/
structure DescribesEnumeration (simpleType : Element) (enumeration : Enumeration) : Prop where
  name : simpleType.attribute? "name" = some enumeration.name
  restriction : ∃ restriction,
    simpleType.firstChild? (settings.name .restriction) = some restriction ∧
    (∃ written, restriction.attribute? "base" = some written ∧
      settings.prefixes.resolve written = .ok enumeration.base) ∧
    List.Forall₂ (fun facet value => facet.attribute? "value" = some value)
      (restriction.childrenNamed (settings.name .enumeration)) enumeration.values

/-- A schema and the definitions that it describes: the records in order, then the enumerations. -/
def DescribesSchema (schema : Element) (definitions : List Definition) : Prop :=
  (schema.childrenNamed (settings.name .complexType)).length +
      (schema.childrenNamed (settings.name .simpleType)).length ≤ settings.limits.definitions ∧
    ∃ records enumerations,
      List.Forall₂ settings.DescribesRecord
        (schema.childrenNamed (settings.name .complexType)) records ∧
      List.Forall₂ settings.DescribesEnumeration
        (schema.childrenNamed (settings.name .simpleType)) enumerations ∧
      definitions = records.map Definition.record ++ enumerations.map Definition.enumeration

/-- A description and its definitions. -/
def Describes (root : Element) (definitions : List Definition) : Prop :=
  ∃ types schema, root.firstChild? "types" = some types ∧
    types.firstChild? (settings.name .schema) = some schema ∧
    settings.DescribesSchema schema definitions

end Settings

/-! ## The functions of the extraction -/

theorem requireChild_eq_ok_iff {element child : Element} {name : String} {path : Path} :
    requireChild element name path = .ok child ↔ element.firstChild? name = some child := by
  unfold requireChild
  cases element.firstChild? name <;> simp

theorem requireAttribute_eq_ok_iff {element : Element} {key value : String} {path : Path} :
    requireAttribute element key path = .ok value ↔ element.attribute? key = some value := by
  unfold requireAttribute
  cases element.attribute? key <;> simp

namespace Settings

variable {settings : Settings} {path : Path}

theorem typeAt_eq_ok_iff {written : String} {type : TypeRef} :
    settings.typeAt path written = .ok type ↔ settings.prefixes.resolve written = .ok type := by
  unfold typeAt
  cases settings.prefixes.resolve written <;> simp [Except.mapError]

theorem member_eq_ok_iff {element : Element} {member : Member} :
    settings.member path element = .ok member ↔ settings.DescribesMember element member := by
  unfold Settings.member
  simp only [bind_eq_ok_iff, requireAttribute_eq_ok_iff, typeAt_eq_ok_iff]
  constructor
  · rintro ⟨name, hname, written, hwritten, type, htype, hpure⟩
    obtain rfl := Except.ok.inj hpure
    exact ⟨hname, ⟨written, hwritten, htype⟩, beq_iff_eq⟩
  · rintro ⟨hname, ⟨written, hwritten, htype⟩, harray⟩
    refine ⟨member.name, hname, written, hwritten, member.type, htype, ?_⟩
    have hbool : (element.attribute? "maxOccurs" == some "unbounded") = member.isArray := by
      rw [Bool.eq_iff_iff, beq_iff_eq, harray]
    rw [hbool]
    rfl

theorem members_eq_ok_iff {sequence : Element} {members : List Member} :
    settings.members path sequence = .ok members ↔
      List.Forall₂ settings.DescribesMember (settings.memberElements (some sequence)) members := by
  unfold Settings.members
  rw [mapM_eq_ok_iff]
  simp only [member_eq_ok_iff]
  rfl

theorem map_fst_located (source : Option Element) (path : Path) :
    (source.map fun sequence => (sequence, path)).map Prod.fst = source := by
  cases source <;> rfl

/-- The content of a complex type is its base and its sequence, the latter with a path. -/
theorem content_eq_ok_iff {complexType : Element} {base : Option String}
    {source : Option Element} :
    (∃ content, settings.content path complexType = .ok content ∧ content.base = base ∧
      content.sequence.map Prod.fst = source) ↔ settings.Shape complexType base source := by
  unfold Settings.content
  constructor
  · rintro ⟨content, hcontent, rfl, rfl⟩
    split at hcontent
    · next sequence hsequence =>
      obtain rfl := Except.ok.inj hcontent
      exact Shape.sequence hsequence
    · next hsequence =>
      split at hcontent
      · next hnone =>
        obtain rfl := Except.ok.inj hcontent
        exact Shape.bare hsequence hnone
      · next complexContent hcomplex =>
        simp only [bind_eq_ok_iff, requireChild_eq_ok_iff, requireAttribute_eq_ok_iff] at hcontent
        obtain ⟨extension, hextension, base, hbase, hpure⟩ := hcontent
        obtain rfl := Except.ok.inj hpure
        show settings.Shape complexType (some (QName.localOf base))
          (Option.map Prod.fst (Option.map _ _))
        rw [map_fst_located]
        exact Shape.extension hsequence hcomplex hextension hbase
  · rintro (hsequence | ⟨hsequence, hcomplex, hextension, hbase⟩ | ⟨hsequence, hcomplex⟩)
    · rw [hsequence]
      exact ⟨_, rfl, rfl, rfl⟩
    · rw [hsequence, hcomplex]
      dsimp only
      simp only [bind_eq_ok_iff, requireChild_eq_ok_iff, requireAttribute_eq_ok_iff]
      exact ⟨_, ⟨_, hextension, _, hbase, rfl⟩, rfl, map_fst_located _ _⟩
    · rw [hsequence, hcomplex]
      exact ⟨_, rfl, rfl, rfl⟩

theorem record_eq_ok_iff {complexType : Element} {record : Record} :
    settings.record path complexType = .ok record ↔
      settings.DescribesRecord complexType record := by
  unfold Settings.record
  simp only [bind_eq_ok_iff, requireAttribute_eq_ok_iff]
  constructor
  · rintro ⟨name, hname, content, hcontent, hrecord⟩
    have hshape := content_eq_ok_iff.mp ⟨content, hcontent, rfl, rfl⟩
    split at hrecord
    · next hnone =>
      obtain rfl := Except.ok.inj hrecord
      rw [hnone] at hshape
      exact ⟨hname, none, hshape, List.Forall₂.nil⟩
    · next sequence path' hsome =>
      obtain ⟨members, hmembers, hpure⟩ := bind_eq_ok_iff.mp hrecord
      obtain rfl := Except.ok.inj hpure
      rw [hsome] at hshape
      exact ⟨hname, some sequence, hshape, members_eq_ok_iff.mp hmembers⟩
  · rintro ⟨hname, source, hshape, hmembers⟩
    obtain ⟨content, hcontent, hbase, hsource⟩ :=
      (@content_eq_ok_iff _ (path.declaration complexType.name record.name) _ _ _).mpr hshape
    refine ⟨record.name, hname, content, hcontent, ?_⟩
    obtain ⟨base, sequence⟩ := content
    obtain rfl : base = record.base := hbase
    rcases sequence with _ | ⟨sequence, path'⟩
    · obtain rfl : none = source := hsource
      have hnil : record.members = [] := List.forall₂_nil_left_iff.mp hmembers
      rw [← hnil]
      rfl
    · obtain rfl : some sequence = source := hsource
      exact bind_eq_ok_iff.mpr ⟨record.members, members_eq_ok_iff.mpr hmembers, rfl⟩

theorem facet_eq_ok_iff {element : Element} {value : String} :
    facet path element = .ok value ↔ element.attribute? "value" = some value := by
  unfold facet
  exact requireAttribute_eq_ok_iff

theorem enumeration_eq_ok_iff {simpleType : Element} {enumeration : Enumeration} :
    settings.enumeration path simpleType = .ok enumeration ↔
      settings.DescribesEnumeration simpleType enumeration := by
  unfold Settings.enumeration
  simp only [bind_eq_ok_iff, requireAttribute_eq_ok_iff, requireChild_eq_ok_iff, typeAt_eq_ok_iff,
    mapM_eq_ok_iff, facet_eq_ok_iff]
  constructor
  · rintro ⟨name, hname, restriction, hrestriction, written, hwritten, base, hbase, values, hvalues,
      hpure⟩
    obtain rfl := Except.ok.inj hpure
    exact ⟨hname, restriction, hrestriction, ⟨written, hwritten, hbase⟩, hvalues⟩
  · rintro ⟨hname, restriction, hrestriction, ⟨written, hwritten, hbase⟩, hvalues⟩
    exact ⟨enumeration.name, hname, restriction, hrestriction, written, hwritten, enumeration.base,
      hbase, enumeration.values, hvalues, rfl⟩

theorem schemaDefinitions_eq_ok_iff {schema : Element} {definitions : List Definition} :
    settings.schemaDefinitions path schema = .ok definitions ↔
      settings.DescribesSchema schema definitions := by
  unfold Settings.schemaDefinitions
  simp only [bind_eq_ok_iff, mapM_eq_ok_iff, record_eq_ok_iff, enumeration_eq_ok_iff]
  constructor
  · rintro ⟨⟨⟩, hcount, records, hrecords, enumerations, henumerations, hpure⟩
    obtain rfl := Except.ok.inj hpure
    exact ⟨Limits.require_eq_ok_iff.mp hcount, records, enumerations, hrecords, henumerations, rfl⟩
  · rintro ⟨hcount, records, enumerations, hrecords, henumerations, rfl⟩
    exact ⟨(), Limits.require_eq_ok_iff.mpr hcount, records, hrecords, enumerations, henumerations,
      rfl⟩

theorem definitions_eq_ok_iff {root : Element} {definitions : List Definition} :
    settings.definitions root = .ok definitions ↔ settings.Describes root definitions := by
  unfold Settings.definitions
  simp only [bind_eq_ok_iff, requireChild_eq_ok_iff, schemaDefinitions_eq_ok_iff]
  constructor
  · rintro ⟨types, htypes, schema, hschema, hdescribes⟩
    exact ⟨types, schema, htypes, hschema, hdescribes⟩
  · rintro ⟨types, schema, htypes, hschema, hdescribes⟩
    exact ⟨types, htypes, schema, hschema, hdescribes⟩

/-! ## Sound is what describes something -/

theorem exists_describesMember_iff {element : Element} :
    (∃ member, settings.DescribesMember element member) ↔ settings.SoundMember element := by
  constructor
  · rintro ⟨member, hname, ⟨written, hwritten, htype⟩, -⟩
    exact ⟨⟨member.name, hname⟩, written, hwritten, member.type, htype⟩
  · rintro ⟨⟨name, hname⟩, written, hwritten, type, htype⟩
    exact ⟨⟨name, type, element.attribute? "maxOccurs" == some "unbounded"⟩, hname,
      ⟨written, hwritten, htype⟩, beq_iff_eq⟩

theorem exists_describesRecord_iff {complexType : Element} :
    (∃ record, settings.DescribesRecord complexType record) ↔
      settings.SoundRecord complexType := by
  constructor
  · rintro ⟨record, hname, source, hshape, hmembers⟩
    refine ⟨⟨record.name, hname⟩, record.base, source, hshape, ?_⟩
    have hall := exists_forall₂_iff.mp ⟨record.members, hmembers⟩
    intro element hmem
    exact exists_describesMember_iff.mp (hall element hmem)
  · rintro ⟨⟨name, hname⟩, base, source, hshape, hsound⟩
    have hall : ∀ element ∈ settings.memberElements source,
        ∃ member, settings.DescribesMember element member := by
      intro element hmem
      exact exists_describesMember_iff.mpr (hsound element hmem)
    obtain ⟨members, hmembers⟩ := exists_forall₂_iff.mpr hall
    exact ⟨⟨name, base, members⟩, hname, source, hshape, hmembers⟩

theorem exists_describesEnumeration_iff {simpleType : Element} :
    (∃ enumeration, settings.DescribesEnumeration simpleType enumeration) ↔
      settings.SoundEnumeration simpleType := by
  constructor
  · rintro ⟨enumeration, hname, restriction, hrestriction, ⟨written, hwritten, hbase⟩, hvalues⟩
    exact ⟨⟨enumeration.name, hname⟩, restriction, hrestriction,
      ⟨written, hwritten, enumeration.base, hbase⟩,
      exists_forall₂_iff.mp ⟨enumeration.values, hvalues⟩⟩
  · rintro ⟨⟨name, hname⟩, restriction, hrestriction, ⟨written, hwritten, base, hbase⟩, hfacets⟩
    obtain ⟨values, hvalues⟩ := exists_forall₂_iff.mpr hfacets
    exact ⟨⟨name, base, values⟩, hname, restriction, hrestriction, ⟨written, hwritten, hbase⟩,
      hvalues⟩

theorem exists_describesSchema_iff {schema : Element} :
    (∃ definitions, settings.DescribesSchema schema definitions) ↔
      settings.SoundSchema schema := by
  constructor
  · rintro ⟨definitions, hcount, records, enumerations, hrecords, henumerations, -⟩
    have hallRecords := exists_forall₂_iff.mp ⟨records, hrecords⟩
    have hallEnumerations := exists_forall₂_iff.mp ⟨enumerations, henumerations⟩
    refine ⟨hcount, ?_, ?_⟩
    · intro complexType hmem
      exact exists_describesRecord_iff.mp (hallRecords complexType hmem)
    · intro simpleType hmem
      exact exists_describesEnumeration_iff.mp (hallEnumerations simpleType hmem)
  · rintro ⟨hcount, hrecords, henumerations⟩
    obtain ⟨records, hrecords⟩ := exists_forall₂_iff.mpr fun complexType hmem =>
      exists_describesRecord_iff.mpr (hrecords complexType hmem)
    obtain ⟨enumerations, henumerations⟩ := exists_forall₂_iff.mpr fun simpleType hmem =>
      exists_describesEnumeration_iff.mpr (henumerations simpleType hmem)
    exact ⟨_, hcount, records, enumerations, hrecords, henumerations, rfl⟩

/-- **A description has definitions when it is sound, and they are those that it describes**: a
root with types, types with a schema, no more types in that than allowed, and each type of one of
the known shapes with all that its shape asks for. -/
theorem definitions_iff_describes (settings : Settings) (root : Element) :
    ((∃ definitions, settings.definitions root = .ok definitions) ↔ settings.Sound root) ∧
      ∀ definitions,
        settings.definitions root = .ok definitions ↔ settings.Describes root definitions := by
  refine ⟨?_, fun definitions => definitions_eq_ok_iff⟩
  simp only [definitions_eq_ok_iff]
  constructor
  · rintro ⟨definitions, types, schema, htypes, hschema, hdescribes⟩
    exact ⟨types, schema, htypes, hschema, exists_describesSchema_iff.mp ⟨definitions, hdescribes⟩⟩
  · rintro ⟨types, schema, htypes, hschema, hsound⟩
    obtain ⟨definitions, hdescribes⟩ := exists_describesSchema_iff.mpr hsound
    exact ⟨definitions, types, schema, htypes, hschema, hdescribes⟩

-- the complex content lacks its extension, but there is a sequence
example :
    ({} : Settings).definitions ⟨"definitions", ∅, [.element "types" ∅ [.element "xsd:schema" ∅ [
      .element "xsd:complexType" ⟨[("name", "A")], by decide⟩ [
        .element "xsd:complexContent" ∅ [], .element "xsd:sequence" ∅ []]]]]⟩ =
      .ok [.record ⟨"A", none, []⟩] := by rfl

end Settings
end Schema
end ServiceTypes
