import ServiceTypes.Proofs.Schema.Contract
import ServiceTypes.Proofs.Schema.Naming

/-!
# The references in definitions

A definition refers to other types by name: a record to the record that it extends and to the types
of its members, an enumeration to the type that it restricts.  Each such name is the local part of
a reference in the schema, and nothing in a schema refers without being found again.  So a name in
the definitions is a bare one just when the reference that it comes from is a qualified name with
a single colon, or none.

* `Bare`, `IsQualified`: names without a qualifier, and references written as they should be.
* `Definition.references`: the names by which a definition refers to types.
* `Settings.Mentions`: the references in the schema of a description.
* `exists_references_iff`: where the names come from.
* `bare_references_iff`: when all of them are bare.
-/

namespace ServiceTypes
namespace Schema

open Xml

/-! ## Bare names and written references -/

/-- A name, and not a qualified one. -/
structure Bare (name : String) : Prop where
  nonempty : name ≠ ""
  plain : ':' ∉ name.toList

/-- A bare name with or without a qualifier. -/
def IsQualified (written : String) : Prop :=
  ∃ name, Bare name ∧ (written = name ∨
    ∃ qualifier : String, ':' ∉ qualifier.toList ∧ written = qualifier ++ ":" ++ name)

/-- The local part of a reference is bare just when the reference is written as it should be. -/
theorem bare_localOf_iff {written : String} :
    Bare (QName.localOf written) ↔ IsQualified written := by
  rcases QName.ofString_cases written with hplain | ⟨qualifier, localPart, hqualifier, rfl⟩
  · have hlocal : QName.localOf written = written := by
      rw [QName.localOf, QName.ofString_plain hplain]
    rw [hlocal]
    constructor
    · exact fun hbare => ⟨written, hbare, Or.inl rfl⟩
    · rintro ⟨name, hbare, rfl | ⟨qualifier, -, rfl⟩⟩
      · exact hbare
      · rw [QName.toList_qualified] at hplain
        exact absurd (List.mem_append_right _ List.mem_cons_self) hplain
  · have hlocal : QName.localOf (qualifier ++ ":" ++ localPart) = localPart := by
      rw [QName.localOf, QName.ofString_qualified hqualifier]
    rw [hlocal]
    constructor
    · exact fun hbare => ⟨localPart, hbare, Or.inr ⟨qualifier, hqualifier, rfl⟩⟩
    · rintro ⟨name, hbare, hname | ⟨other, hother, hwritten⟩⟩
      · -- a bare name has no colon
        have hcolon := hbare.plain
        rw [← hname, QName.toList_qualified] at hcolon
        exact absurd (List.mem_append_right _ List.mem_cons_self) hcolon
      · have hsame := congrArg QName.localOf hwritten
        rw [hlocal, QName.localOf, QName.ofString_qualified hother] at hsame
        exact hsame ▸ hbare

/-! ## The names in definitions -/

/-- The declared type that a reference names, if it names one. -/
def TypeRef.references : TypeRef → List String
  | .primitive _ => []
  | .declared name => [name]

/-- The types of the members of a record, or the one that an enumeration restricts. -/
def Definition.types : Definition → List TypeRef
  | .record contents => contents.members.map Member.type
  | .enumeration contents => [contents.base]

/-- The record that a record extends, if it does. -/
def Definition.extended : Definition → List String
  | .record contents => contents.base.toList
  | .enumeration _ => []

/-- All names by which a definition refers to types. -/
def Definition.references (definition : Definition) : List String :=
  definition.extended ++ definition.types.flatMap TypeRef.references

/-! ## The references in a schema -/

namespace Settings

section Written

variable (settings : Settings)

/-- An attribute of an element that refers to a declared type. -/
def RefersBy (key : String) (element : Element) (written : String) : Prop :=
  element.attribute? key = some written ∧
    ∃ name, settings.prefixes.resolve written = .ok (.declared name)

/-- The references in a complex type: to the record that it extends, and to the types of its
members. -/
inductive RecordRefers (complexType : Element) : String → Prop
  | base {complexContent extension : Element} {written : String}
    (hsequence : complexType.firstChild? (settings.name .sequence) = none)
    (hcontent : complexType.firstChild? (settings.name .complexContent) = some complexContent)
    (hextension : complexContent.firstChild? (settings.name .extension) = some extension)
    (hbase : extension.attribute? "base" = some written) : RecordRefers complexType written
  | member {base : Option String} {source : Option Element} {element : Element} {written : String}
    (hshape : settings.Shape complexType base source)
    (hmem : element ∈ settings.memberElements source)
    (hwritten : settings.RefersBy "type" element written) : RecordRefers complexType written

/-- The reference in a simple type: to the type that it restricts. -/
def EnumerationRefers (simpleType : Element) (written : String) : Prop :=
  ∃ restriction, simpleType.firstChild? (settings.name .restriction) = some restriction ∧
    settings.RefersBy "base" restriction written

/-- The references in the schema of a description. -/
def Mentions (root : Element) (written : String) : Prop :=
  ∃ types schema, root.firstChild? "types" = some types ∧
    types.firstChild? (settings.name .schema) = some schema ∧
    ((∃ complexType ∈ schema.childrenNamed (settings.name .complexType),
        settings.RecordRefers complexType written) ∨
      ∃ simpleType ∈ schema.childrenNamed (settings.name .simpleType),
        settings.EnumerationRefers simpleType written)

end Written

/-! ## Where the names come from -/

variable {settings : Settings} {name : String}

/-- A reference to a declared type names the local part, which is not empty. -/
theorem localOf_of_resolve_eq_declared {written : String}
    (h : settings.prefixes.resolve written = .ok (.declared name)) :
    name = QName.localOf written ∧ name ≠ "" := by
  obtain ⟨hname, hsome⟩ := QName.localIn?_eq_some (Prefixes.resolve_eq_declared_iff.mp h).1
  exact ⟨by rw [QName.localOf, hname], hsome⟩

/-- The name in a reference is the local part of what the attribute refers by. -/
theorem mem_references_iff {element : Element} {key written : String} {type : TypeRef}
    (hwritten : element.attribute? key = some written)
    (htype : settings.prefixes.resolve written = .ok type) :
    name ∈ type.references ↔
      ∃ written, settings.RefersBy key element written ∧ name = QName.localOf written := by
  cases type with
  | primitive kind =>
    constructor
    · intro hmem
      cases hmem
    · rintro ⟨other, ⟨hother, found, hfound⟩, -⟩
      obtain rfl := Option.some.inj (hwritten.symm.trans hother)
      rw [htype] at hfound
      cases hfound
  | declared found =>
    obtain ⟨hlocal, -⟩ := localOf_of_resolve_eq_declared htype
    rw [TypeRef.references, List.mem_singleton]
    constructor
    · rintro rfl
      exact ⟨written, ⟨hwritten, _, htype⟩, hlocal⟩
    · rintro ⟨other, ⟨hother, -⟩, rfl⟩
      obtain rfl := Option.some.inj (hwritten.symm.trans hother)
      exact hlocal.symm

/-- A complex type is of one shape only. -/
theorem Shape.unique {complexType : Element} {base base' : Option String}
    {source source' : Option Element} (h : settings.Shape complexType base source)
    (h' : settings.Shape complexType base' source') : base = base' ∧ source = source' := by
  obtain ⟨content, hcontent, rfl, rfl⟩ :=
    (@content_eq_ok_iff _ (Path.root complexType.name) _ _ _).mpr h
  obtain ⟨content', hcontent', rfl, rfl⟩ :=
    (@content_eq_ok_iff _ (Path.root complexType.name) _ _ _).mpr h'
  obtain rfl := Except.ok.inj (hcontent.symm.trans hcontent')
  exact ⟨rfl, rfl⟩

theorem mem_references_record_iff {complexType : Element} {record : Record}
    (h : settings.DescribesRecord complexType record) :
    name ∈ (Definition.record record).references ↔
      ∃ written, settings.RecordRefers complexType written ∧ name = QName.localOf written := by
  obtain ⟨-, source, hshape, hmembers⟩ := h
  have helements : (∃ element ∈ settings.memberElements source, ∃ written,
      settings.RefersBy "type" element written ∧ name = QName.localOf written) ↔
        ∃ member ∈ record.members, name ∈ member.type.references := by
    refine exists_mem_iff_of_forall₂ hmembers ?_
    rintro element member ⟨-, ⟨written, hwritten, htype⟩, -⟩
    exact (mem_references_iff hwritten htype).symm
  simp only [Definition.references, Definition.extended, Definition.types, List.mem_append,
    Option.mem_toList, List.mem_flatMap, List.mem_map, exists_exists_and_eq_and]
  rw [← helements]
  constructor
  · rintro (hbase | ⟨element, hmem, written, hwritten, rfl⟩)
    · generalize record.base = base at hshape hbase
      cases hshape with
      | extension hsequence hcontent hextension hwritten =>
        exact ⟨_, RecordRefers.base hsequence hcontent hextension hwritten,
          (Option.some.inj hbase).symm⟩
      | sequence => cases hbase
      | bare => cases hbase
    · exact ⟨written, RecordRefers.member hshape hmem hwritten, rfl⟩
  · rintro ⟨written, hrefers, rfl⟩
    cases hrefers with
    | base hsequence hcontent hextension hwritten =>
      exact Or.inl (hshape.unique (Shape.extension hsequence hcontent hextension hwritten)).1
    | member hother hmem hwritten =>
      obtain ⟨-, rfl⟩ := hshape.unique hother
      exact Or.inr ⟨_, hmem, written, hwritten, rfl⟩

theorem mem_references_enumeration_iff {simpleType : Element} {enumeration : Enumeration}
    (h : settings.DescribesEnumeration simpleType enumeration) :
    name ∈ (Definition.enumeration enumeration).references ↔
      ∃ written, settings.EnumerationRefers simpleType written ∧ name = QName.localOf written := by
  obtain ⟨-, restriction, hrestriction, ⟨written, hwritten, hbase⟩, -⟩ := h
  simp only [Definition.references, Definition.extended, Definition.types, List.nil_append,
    List.flatMap_singleton]
  rw [mem_references_iff hwritten hbase]
  constructor
  · rintro ⟨other, hrefers, rfl⟩
    exact ⟨other, ⟨restriction, hrestriction, hrefers⟩, rfl⟩
  · rintro ⟨other, ⟨found, hfound, hrefers⟩, rfl⟩
    obtain rfl := Option.some.inj (hrestriction.symm.trans hfound)
    exact ⟨other, hrefers, rfl⟩

/-- **The names in definitions are the local parts of the references in the schema.** -/
theorem exists_references_iff {root : Element} {definitions : List Definition}
    (h : settings.definitions root = .ok definitions) :
    (∃ definition ∈ definitions, name ∈ definition.references) ↔
      ∃ written, settings.Mentions root written ∧ name = QName.localOf written := by
  obtain ⟨types, schema, htypes, hschema, -, records, enumerations, hrecords, henumerations, rfl⟩ :=
    definitions_eq_ok_iff.mp h
  have hrecord : (∃ complexType ∈ schema.childrenNamed (settings.name .complexType), ∃ written,
      settings.RecordRefers complexType written ∧ name = QName.localOf written) ↔
        ∃ record ∈ records, name ∈ (Definition.record record).references :=
    exists_mem_iff_of_forall₂ hrecords fun _ _ hdescribes =>
      (mem_references_record_iff hdescribes).symm
  have henumeration : (∃ simpleType ∈ schema.childrenNamed (settings.name .simpleType), ∃ written,
      settings.EnumerationRefers simpleType written ∧ name = QName.localOf written) ↔
        ∃ enumeration ∈ enumerations, name ∈ (Definition.enumeration enumeration).references :=
    exists_mem_iff_of_forall₂ henumerations fun _ _ hdescribes =>
      (mem_references_enumeration_iff hdescribes).symm
  simp only [List.mem_append, List.mem_map, or_and_right, exists_or, exists_exists_and_eq_and]
  rw [← hrecord, ← henumeration]
  constructor
  · rintro (⟨complexType, hmem, written, hrefers, rfl⟩ | ⟨simpleType, hmem, written, hrefers, rfl⟩)
    · exact ⟨written, ⟨types, schema, htypes, hschema, Or.inl ⟨complexType, hmem, hrefers⟩⟩, rfl⟩
    · exact ⟨written, ⟨types, schema, htypes, hschema, Or.inr ⟨simpleType, hmem, hrefers⟩⟩, rfl⟩
  · rintro ⟨written, ⟨types', schema', htypes', hschema', hrefers⟩, rfl⟩
    obtain rfl := Option.some.inj (htypes.symm.trans htypes')
    obtain rfl := Option.some.inj (hschema.symm.trans hschema')
    rcases hrefers with ⟨complexType, hmem, hrefers⟩ | ⟨simpleType, hmem, hrefers⟩
    · exact Or.inl ⟨complexType, hmem, written, hrefers, rfl⟩
    · exact Or.inr ⟨simpleType, hmem, written, hrefers, rfl⟩

/-! ## When the names are bare -/

/-- The types in a definition are what references come to. -/
theorem exists_resolve_of_mem_types {root : Element} {definitions : List Definition}
    (h : settings.definitions root = .ok definitions) {definition : Definition}
    (hmem : definition ∈ definitions) {type : TypeRef} (htype : type ∈ definition.types) :
    ∃ written, settings.prefixes.resolve written = .ok type := by
  obtain ⟨types, schema, -, -, -, records, enumerations, hrecords, henumerations, rfl⟩ :=
    definitions_eq_ok_iff.mp h
  rcases List.mem_append.mp hmem with hmem | hmem
  · obtain ⟨record, hrecord, rfl⟩ := List.mem_map.mp hmem
    obtain ⟨complexType, -, source, -, hmembers⟩ :=
      exists_forall₂_iff.mp ⟨_, hrecords.flip⟩ record hrecord
    obtain ⟨member, hmember, rfl⟩ := List.mem_map.mp htype
    obtain ⟨element, -, ⟨written, -, hresolve⟩, -⟩ :=
      exists_forall₂_iff.mp ⟨_, hmembers.flip⟩ member hmember
    exact ⟨written, hresolve⟩
  · obtain ⟨enumeration, henumeration, rfl⟩ := List.mem_map.mp hmem
    obtain ⟨simpleType, -, restriction, -, ⟨written, -, hresolve⟩, -⟩ :=
      exists_forall₂_iff.mp ⟨_, henumerations.flip⟩ enumeration henumeration
    obtain rfl := List.mem_singleton.mp htype
    exact ⟨written, hresolve⟩

/-- No declared type is referred to by the empty name. -/
theorem declared_empty_not_mem_types {root : Element} {definitions : List Definition}
    (h : settings.definitions root = .ok definitions) :
    ∀ definition ∈ definitions, TypeRef.declared "" ∉ definition.types := by
  intro definition hmem htype
  obtain ⟨written, hresolve⟩ := exists_resolve_of_mem_types h hmem htype
  exact (localOf_of_resolve_eq_declared hresolve).2 rfl

/-- **The names in definitions are bare just when the references are written as they should be.**
Each name is the local part of a reference, what stands behind its first colon, and each reference
gives such a name.  So a reference with a second colon gives a name that is not bare.  An empty
local part is no name of a declared type, but it is taken for the name of a record to extend. -/
theorem bare_references_iff {root : Element} {definitions : List Definition}
    (h : settings.definitions root = .ok definitions) :
    (∀ name, (∃ definition ∈ definitions, name ∈ definition.references) ↔
      ∃ written, settings.Mentions root written ∧ name = QName.localOf written) ∧
    (∀ definition ∈ definitions, TypeRef.declared "" ∉ definition.types) ∧
    (∀ written, Bare (QName.localOf written) ↔ IsQualified written) ∧
    ((∀ definition ∈ definitions, ∀ name ∈ definition.references, Bare name) ↔
      ∀ written, settings.Mentions root written → IsQualified written) := by
  have hnames : ∀ name, (∃ definition ∈ definitions, name ∈ definition.references) ↔
      ∃ written, settings.Mentions root written ∧ name = QName.localOf written :=
    fun name => exists_references_iff h
  refine ⟨hnames, declared_empty_not_mem_types h, fun written => bare_localOf_iff, ?_⟩
  constructor
  · intro hbare written hmentions
    obtain ⟨definition, hmem, hname⟩ := (hnames _).mpr ⟨written, hmentions, rfl⟩
    exact bare_localOf_iff.mp (hbare definition hmem _ hname)
  · intro hqualified definition hmem name hname
    obtain ⟨written, hmentions, rfl⟩ := (hnames name).mp ⟨definition, hmem, hname⟩
    exact bare_localOf_iff.mpr (hqualified written hmentions)

/-- A record that extends another one. -/
def extending (base : String) : Element :=
  ⟨"definitions", ∅, [.element "types" ∅ [.element "xsd:schema" ∅ [
    .element "xsd:complexType" (Attributes.set ∅ "name" "A") [.element "xsd:complexContent" ∅ [
      .element "xsd:extension" (Attributes.set ∅ "base" base) []]]]]]⟩

theorem definitions_extending (base : String) :
    ({} : Settings).definitions (extending base) =
      .ok [.record ⟨"A", some (QName.localOf base), []⟩] := by
  rfl

/-- The local part of a reference with one colon is a bare name. -/
theorem bare_references_extending :
    ({} : Settings).definitions (extending "tns:B") = .ok [.record ⟨"A", some "B", []⟩] ∧
      ∀ written, ({} : Settings).Mentions (extending "tns:B") written → IsQualified written := by
  have hdefinitions : ({} : Settings).definitions (extending "tns:B") =
      .ok [.record ⟨"A", some "B", []⟩] := definitions_extending "tns:B"
  refine ⟨hdefinitions, (bare_references_iff hdefinitions).2.2.2.mp ?_⟩
  intro definition hmem name hname
  obtain rfl := List.mem_singleton.mp hmem
  obtain rfl := List.mem_singleton.mp hname
  exact ⟨by decide, by decide⟩

/-- A second colon stays in the name, and an empty local part is a name. -/
theorem not_bare_references_extending :
    ({} : Settings).definitions (extending "a:b:c") = .ok [.record ⟨"A", some "b:c", []⟩] ∧
      ({} : Settings).definitions (extending "tns:") = .ok [.record ⟨"A", some "", []⟩] ∧
      ¬ Bare "b:c" ∧ ¬ Bare "" := by
  refine ⟨definitions_extending "a:b:c", definitions_extending "tns:", fun h => ?_, fun h => ?_⟩
  · exact absurd h.plain (by decide)
  · exact h.nonempty rfl

end Settings
end Schema
end ServiceTypes
