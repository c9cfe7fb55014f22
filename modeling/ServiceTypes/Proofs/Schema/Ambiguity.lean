import ServiceTypes.Proofs.Schema.Independence
import ServiceTypes.Proofs.Schema.Lookalike
import ServiceTypes.Proofs.Schema.References

/-!
# Definitions that a reader of JSON cannot tell apart

A reference is written as its spelling alone, so that a primitive and a declared type of that name
are written in the same way.  This is the only thing in which definitions with the same JSON can
differ, and there are descriptions that bring it about unless the settings rule out one of the two
kinds of reference.

* `TypeRef.Mistakable`: references with the same spelling.
* `Definition.Clear`: definitions that refer to no type with the name of a primitive.
* `eq_of_alike`: definitions that look alike are equal where no reference is mistaken.
* `Settings.Produces`: the definitions that some description has under given settings.
* `toJson_injective_iff`: which definitions have the same JSON, and the settings under which no two
  have.
-/

namespace ServiceTypes
namespace Schema

open Xml

/-! ## References with the same spelling -/

/-- How references are spelled in a definition: as types of members, or as bases. -/
def Definition.spell : Definition → TypeRef → String
  | .record _ => TypeRef.spelling
  | .enumeration _ => TypeRef.baseSpelling

/-- References that are equal, or of which one is to a primitive and the other to a declared type
with the name that the primitive is spelled by. -/
inductive TypeRef.Mistakable (spell : TypeRef → String) : TypeRef → TypeRef → Prop
  | same (type : TypeRef) : Mistakable spell type type
  | declared (kind : Primitive) :
    Mistakable spell (.primitive kind) (.declared (spell (.primitive kind)))
  | primitive (kind : Primitive) :
    Mistakable spell (.declared (spell (.primitive kind))) (.primitive kind)

namespace Definition

variable {definition first second : Definition}

theorem spell_declared (definition : Definition) (name : String) :
    definition.spell (.declared name) = name := by
  cases definition <;> rfl

theorem eq_of_spell_primitive {kind kind' : Primitive}
    (h : definition.spell (.primitive kind) = definition.spell (.primitive kind')) :
    kind = kind' := by
  cases definition with
  | record =>
    change kind.spelling = kind'.spelling at h
    revert h
    cases kind <;> cases kind' <;> decide
  | enumeration =>
    change kind.baseSpelling = kind'.baseSpelling at h
    revert h
    cases kind <;> cases kind' <;> decide

/-- References that differ have the same spelling only where a primitive is spelled by the name of a
declared type. -/
theorem spell_eq_iff (definition : Definition) (type other : TypeRef) :
    definition.spell type = definition.spell other ↔ type.Mistakable definition.spell other := by
  constructor
  · intro h
    cases type with
    | primitive kind =>
      cases other with
      | primitive kind' =>
        obtain rfl := eq_of_spell_primitive h
        exact .same _
      | declared name =>
        rw [spell_declared] at h
        exact h ▸ .declared kind
    | declared name =>
      cases other with
      | primitive kind =>
        rw [spell_declared] at h
        exact h ▸ .primitive kind
      | declared name' =>
        rw [spell_declared, spell_declared] at h
        exact h ▸ .same _
  · intro h
    cases h with
    | same => rfl
    | declared kind => rw [spell_declared]
    | primitive kind => rw [spell_declared]

/-! ## Definitions that look alike -/

/-- A definition that refers to no declared type with the name of a primitive. -/
def Clear (definition : Definition) : Prop :=
  ∀ kind, TypeRef.declared (definition.spell (.primitive kind)) ∉ definition.types

theorem members_eq_of_alike {members members' : List Member}
    (h : List.Forall₂ Member.Alike members members')
    (hsame : ∀ member ∈ members, ∀ member' ∈ members',
      member.type.spelling = member'.type.spelling → member.type = member'.type) :
    members = members' := by
  induction h with
  | nil => rfl
  | @cons member member' members members' hfirst _ ih =>
    have htype := hsame member List.mem_cons_self member' List.mem_cons_self hfirst.type
    have hmember : member = member' := by
      obtain ⟨name, type, isArray⟩ := member
      obtain ⟨name', type', isArray'⟩ := member'
      obtain rfl : name = name' := hfirst.name
      obtain rfl : type = type' := htype
      obtain rfl : isArray = isArray' := hfirst.isArray
      rfl
    rw [hmember, ih fun m hm m' hm' =>
      hsame m (List.mem_cons_of_mem _ hm) m' (List.mem_cons_of_mem _ hm')]

/-- Definitions that look alike are equal where no reference is mistaken for another one. -/
theorem eq_of_alike (h : first.Alike second)
    (hsame : ∀ type ∈ first.types, ∀ other ∈ second.types,
      first.spell type = first.spell other → type = other) : first = second := by
  cases h with
  | @record record record' hname hbase hmembers =>
    obtain ⟨name, base, members⟩ := record
    obtain ⟨name', base', members'⟩ := record'
    obtain rfl : name = name' := hname
    obtain rfl : base = base' := hbase
    obtain rfl : members = members' := members_eq_of_alike hmembers fun m hm m' hm' =>
      hsame m.type (List.mem_map_of_mem hm) m'.type (List.mem_map_of_mem hm')
    rfl
  | @enumeration enumeration enumeration' hname hbase hvalues =>
    obtain ⟨name, base, values⟩ := enumeration
    obtain ⟨name', base', values'⟩ := enumeration'
    obtain rfl : name = name' := hname
    obtain rfl : values = values' := hvalues
    obtain rfl : base = base' :=
      hsame base (List.mem_singleton.mpr rfl) base' (List.mem_singleton.mpr rfl) hbase
    rfl

theorem spell_eq_of_alike (h : first.Alike second) : first.spell = second.spell := by
  cases h <;> rfl

/-- Clear definitions that look alike are equal. -/
theorem eq_of_alike_of_clear (h : first.Alike second) (hfirst : first.Clear)
    (hsecond : second.Clear) : first = second := by
  refine eq_of_alike h fun type htype other hother hspell => ?_
  cases (spell_eq_iff first type other).mp hspell with
  | same => rfl
  | declared kind =>
    rw [spell_eq_of_alike h] at hother
    exact absurd hother (hsecond kind)
  | primitive kind => exact absurd htype (hfirst kind)

end Definition

/-! ## The definitions under given settings -/

namespace Settings

variable {settings : Settings}

/-- A definition that some description has. -/
def Produces (settings : Settings) (definition : Definition) : Prop :=
  ∃ root definitions, settings.definitions root = .ok definitions ∧ definition ∈ definitions

/-- There are no more definitions than allowed. -/
theorem length_definitions_le {root : Element} {definitions : List Definition}
    (h : settings.definitions root = .ok definitions) :
    definitions.length ≤ settings.limits.definitions := by
  obtain ⟨types, schema, -, -, hcount, records, enumerations, hrecords, henumerations, rfl⟩ :=
    definitions_eq_ok_iff.mp h
  rw [List.length_append, List.length_map, List.length_map, ← hrecords.length_eq,
    ← henumerations.length_eq]
  exact hcount

/-- A simple type without values that restricts what a reference comes to. -/
def restricting (settings : Settings) (written : String) : Element :=
  ⟨settings.name .simpleType, Attributes.set ∅ "name" "A",
    [.element (settings.name .restriction) (Attributes.set ∅ "base" written) []]⟩

/-- A schema with this simple type alone. -/
def restrictingSchema (settings : Settings) (written : String) : Element :=
  ⟨settings.name .schema, ∅, [(settings.restricting written).toNode]⟩

/-- A description with this schema. -/
def restrictingRoot (settings : Settings) (written : String) : Element :=
  ⟨"definitions", ∅, [.element "types" ∅ [(settings.restrictingSchema written).toNode]]⟩

theorem describes_restricting {written : String} {type : TypeRef}
    (h : settings.prefixes.resolve written = .ok type) :
    settings.DescribesEnumeration (settings.restricting written) ⟨"A", type, []⟩ := by
  refine ⟨rfl, ⟨settings.name .restriction, Attributes.set ∅ "base" written, []⟩, ?_,
    ⟨written, rfl, h⟩, List.Forall₂.nil⟩
  simp [restricting, Element.firstChild?, Element.elements, Node.asElement?]

theorem describesSchema_restricting (hlimit : 0 < settings.limits.definitions) {written : String}
    {type : TypeRef} (h : settings.prefixes.resolve written = .ok type) :
    settings.DescribesSchema (settings.restrictingSchema written)
      [.enumeration ⟨"A", type, []⟩] := by
  have hother : settings.name .simpleType ≠ settings.name .complexType :=
    settings.name_ne_of_ne (by decide)
  have hname : (settings.restricting written).name = settings.name .simpleType := rfl
  have hrecords : (settings.restrictingSchema written).childrenNamed
      (settings.name .complexType) = [] := by
    simp [restrictingSchema, Element.childrenNamed, Element.elements, hname, hother]
  have henumerations : (settings.restrictingSchema written).childrenNamed
      (settings.name .simpleType) = [settings.restricting written] := by
    simp [restrictingSchema, Element.childrenNamed, Element.elements, hname]
  refine ⟨?_, [], [⟨"A", type, []⟩], ?_, ?_, rfl⟩
  · rw [hrecords, henumerations]
    exact hlimit
  · rw [hrecords]
    exact .nil
  · rw [henumerations]
    exact .cons (describes_restricting h) .nil

/-- What a reference comes to is the base of some enumeration, if any type is allowed at all. -/
theorem produces_of_resolve (hlimit : 0 < settings.limits.definitions) {written : String}
    {type : TypeRef} (h : settings.prefixes.resolve written = .ok type) :
    settings.Produces (.enumeration ⟨"A", type, []⟩) := by
  have hschema : Element.firstChild? ⟨"types", ∅, [(settings.restrictingSchema written).toNode]⟩
      (settings.name .schema) = some (settings.restrictingSchema written) := by
    simp [restrictingSchema, Element.firstChild?, Element.elements]
  have hdescribes : settings.Describes (settings.restrictingRoot written)
      [.enumeration ⟨"A", type, []⟩] :=
    ⟨_, _, rfl, hschema, describesSchema_restricting hlimit h⟩
  exact ⟨_, _, definitions_eq_ok_iff.mpr hdescribes, List.mem_singleton_self _⟩

/-- Settings under which some references come to a primitive and some to a declared type, and some
type is allowed. -/
structure Mixed (settings : Settings) : Prop where
  schema : ':' ∉ settings.prefixes.schema.toList
  declared : ':' ∉ settings.prefixes.declared.toList
  limit : 0 < settings.limits.definitions

/-- The number primitive and a declared type of that name are mistaken for each other. -/
theorem exists_mistaken (h : settings.Mixed) :
    ∃ first second, settings.Produces first ∧ settings.Produces second ∧
      first.toJson = second.toJson ∧ first ≠ second := by
  have hprimitive : settings.prefixes.resolve (settings.prefixes.schema ++ ":" ++ "int") =
      .ok (.primitive .number) :=
    Prefixes.resolve_eq_primitive_iff.mpr ⟨h.schema, "int", rfl, rfl⟩
  have hlocal : QName.localIn? settings.prefixes.declared
      (settings.prefixes.declared ++ ":" ++ "number") = some "number" :=
    QName.localIn?_eq_some_iff.mpr ⟨h.declared, by decide, rfl⟩
  have hdeclared : settings.prefixes.resolve (settings.prefixes.declared ++ ":" ++ "number") =
      .ok (.declared "number") := by
    refine Prefixes.resolve_eq_declared_iff.mpr ⟨hlocal, ?_⟩
    -- with one qualifier for both kinds it is not the name of a built-in type either
    rcases hschema : QName.localIn? settings.prefixes.schema
      (settings.prefixes.declared ++ ":" ++ "number") with _ | localPart
    · rfl
    · have hname := (QName.localIn?_eq_some hschema).1
      rw [QName.ofString_qualified h.declared] at hname
      obtain rfl : "number" = localPart := congrArg QName.localPart hname
      rfl
  refine ⟨_, _, produces_of_resolve h.limit hprimitive, produces_of_resolve h.limit hdeclared,
    rfl, ?_⟩
  decide

/-- Without one of the two kinds of reference none is mistaken. -/
theorem eq_of_not_mixed (h : ¬ settings.Mixed) {first second : Definition}
    (hfirst : settings.Produces first) (hsecond : settings.Produces second)
    (hjson : first.toJson = second.toJson) : first = second := by
  obtain ⟨root, definitions, hdefinitions, hmem⟩ := hfirst
  obtain ⟨root', definitions', hdefinitions', hmem'⟩ := hsecond
  have hlimit : 0 < settings.limits.definitions :=
    Nat.lt_of_lt_of_le (List.length_pos_of_mem hmem) (length_definitions_le hdefinitions)
  refine Definition.eq_of_alike (Definition.toJson_eq_iff.mp hjson) ?_
  intro type htype other hother hspell
  obtain ⟨written, hwritten⟩ := exists_resolve_of_mem_types hdefinitions hmem htype
  obtain ⟨written', hwritten'⟩ := exists_resolve_of_mem_types hdefinitions' hmem' hother
  -- a primitive and a declared type need both qualifiers
  have hmixed : ∀ {primitive declared : String} {kind : Primitive} {name : String},
      settings.prefixes.resolve primitive = .ok (.primitive kind) →
      settings.prefixes.resolve declared = .ok (.declared name) → False := by
    intro primitive declared kind name hprimitive hdeclared
    have hlocal := (Prefixes.resolve_eq_declared_iff.mp hdeclared).1
    exact h ⟨(Prefixes.resolve_eq_primitive_iff.mp hprimitive).1,
      (QName.localIn?_eq_some_iff.mp hlocal).1, hlimit⟩
  cases (Definition.spell_eq_iff first type other).mp hspell with
  | same => rfl
  | declared kind => exact (hmixed hwritten hwritten').elim
  | primitive kind => exact (hmixed hwritten' hwritten).elim

end Settings

/-- **Definitions with the same JSON** look alike: they are equal but for references, and of two
references that differ one is to a primitive and the other to a declared type with the name that
the primitive is spelled by in that place.  So they are equal when none of the two refers to a type
of such a name.  There are settings under which no two definitions have the same JSON, and they are
those that know no primitives, no declared types, or no types at all. -/
theorem toJson_injective_iff :
    (∀ first second : Definition, first.toJson = second.toJson ↔ first.Alike second) ∧
    (∀ first second : TypeRef,
      (first.spelling = second.spelling ↔ first.Mistakable TypeRef.spelling second) ∧
        (first.baseSpelling = second.baseSpelling ↔
          first.Mistakable TypeRef.baseSpelling second)) ∧
    (∀ first second : Definition, first.Clear → second.Clear → first.toJson = second.toJson →
      first = second) ∧
    ∀ settings : Settings,
      (∀ first second, settings.Produces first → settings.Produces second →
        first.toJson = second.toJson → first = second) ↔ ¬ settings.Mixed := by
  refine ⟨fun _ _ => Definition.toJson_eq_iff, fun first second => ⟨?_, ?_⟩, ?_, ?_⟩
  · exact Definition.spell_eq_iff (.record ⟨"", none, []⟩) first second
  · exact Definition.spell_eq_iff (.enumeration ⟨"", .primitive .any, []⟩) first second
  · intro first second hfirst hsecond hjson
    exact Definition.eq_of_alike_of_clear (Definition.toJson_eq_iff.mp hjson) hfirst hsecond
  · intro settings
    constructor
    · intro hinjective hmixed
      obtain ⟨first, second, hfirst, hsecond, hjson, hne⟩ := Settings.exists_mistaken hmixed
      exact hne (hinjective first second hfirst hsecond hjson)
    · exact fun hmixed first second => Settings.eq_of_not_mixed hmixed

/-- Two restrictions in one schema, of the string primitive and of a declared type. -/
def lookalikes : Element :=
  ⟨"definitions", ∅, [.element "types" ∅ [.element "xsd:schema" ∅
    [(({} : Settings).restricting "xsd:string").toNode,
      (({} : Settings).restricting "tns:String").toNode]]]⟩

/-- Both are written as the same object, with the base `String`. -/
theorem not_toJson_injective :
    ({} : Settings).definitions lookalikes = .ok [.enumeration ⟨"A", .primitive .string, []⟩,
        .enumeration ⟨"A", .declared "String", []⟩] ∧
      (Definition.enumeration ⟨"A", .primitive .string, []⟩).toJson =
        (Definition.enumeration ⟨"A", .declared "String", []⟩).toJson ∧
      Definition.enumeration ⟨"A", .primitive .string, []⟩ ≠
        Definition.enumeration ⟨"A", .declared "String", []⟩ :=
  ⟨by rfl, rfl, by decide⟩

end Schema
end ServiceTypes
