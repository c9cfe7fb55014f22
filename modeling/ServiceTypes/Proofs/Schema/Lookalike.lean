import Mathlib.Data.List.Forall2
import ServiceTypes.Proofs.Json.Decoding
import ServiceTypes.Schema.Definition

/-!
# What a reader of JSON sees of a definition

A definition is written as an object whose fields say all there is to say about it, up to one
thing: a reference is written as its spelling, so that a primitive looks like a declared type of
that name.

* `Definition.Alike`: definitions that are equal up to the spelling of references.
* `alike_of_datum_eq`, `toJson_eq_of_alike`: just these are written as the same object.
* `denotes_text_iff`: what the text of a definition denotes, and which definitions share a text.
-/

namespace ServiceTypes
namespace Schema

open Json (Datum Denotes)

/-! ## Definitions that look alike -/

/-- Members that are equal up to the spelling of their types. -/
structure Member.Alike (first second : Member) : Prop where
  name : first.name = second.name
  type : first.type.spelling = second.type.spelling
  isArray : first.isArray = second.isArray

/-- Definitions of one kind that are equal up to the spelling of references. -/
inductive Definition.Alike : Definition → Definition → Prop
  | record {first second : Record} (hname : first.name = second.name)
    (hbase : first.base = second.base)
    (hmembers : List.Forall₂ Member.Alike first.members second.members) :
    Alike (.record first) (.record second)
  | enumeration {first second : Enumeration} (hname : first.name = second.name)
    (hbase : first.base.baseSpelling = second.base.baseSpelling)
    (hvalues : first.values = second.values) : Alike (.enumeration first) (.enumeration second)

/-! ## The objects that are written -/

/-- The object that a member is written as. -/
def Member.datum (member : Member) : Datum :=
  .object [("name", .string member.name), ("type", .string member.type.spelling),
    ("isArray", .bool member.isArray)]

/-- The object that a record is written as. -/
def Record.datum (record : Record) : Datum :=
  .object (("name", .string record.name) ::
    ((record.base.toList.map fun base => ("base", .string base)) ++
      [("members", .array (record.members.map Member.datum))]))

/-- The object that an enumeration is written as. -/
def Enumeration.datum (enumeration : Enumeration) : Datum :=
  .object [("name", .string enumeration.name), ("base", .string enumeration.base.baseSpelling),
    ("enumerations", .array (enumeration.values.map Datum.string))]

/-- The object that a definition is written as. -/
def Definition.datum : Definition → Datum
  | .record contents => contents.datum
  | .enumeration contents => contents.datum

theorem Member.datum_toJson (member : Member) : member.toJson.datum = member.datum := by
  simp [Member.toJson, Member.datum]

theorem Record.datum_toJson (record : Record) : record.toJson.datum = record.datum := by
  obtain ⟨name, base, members⟩ := record
  cases base <;> simp [Record.toJson, Record.datum, Member.datum_toJson]

theorem Enumeration.datum_toJson (enumeration : Enumeration) :
    enumeration.toJson.datum = enumeration.datum := by
  simp [Enumeration.toJson, Enumeration.datum]

theorem Definition.datum_toJson (definition : Definition) :
    definition.toJson.datum = definition.datum := by
  cases definition with
  | record contents => exact contents.datum_toJson
  | enumeration contents => exact contents.datum_toJson

/-! ## Equal objects -/

theorem map_eq_map_iff_forall₂ {α β γ : Type} {f : α → γ} {g : β → γ} {first : List α}
    {second : List β} :
    first.map f = second.map g ↔ List.Forall₂ (fun a b => f a = g b) first second := by
  rw [← List.forall₂_eq_eq_eq, List.forall₂_map_left_iff, List.forall₂_map_right_iff]

theorem Member.alike_of_datum_eq {first second : Member} (h : first.datum = second.datum) :
    first.Alike second := by
  simp only [Member.datum, Datum.object.injEq, List.cons.injEq, Prod.mk.injEq, Datum.string.injEq,
    Datum.bool.injEq] at h
  exact ⟨h.1.2, h.2.1.2, h.2.2.1.2⟩

theorem Record.alike_of_datum_eq {first second : Record} (h : first.datum = second.datum) :
    (Definition.record first).Alike (.record second) := by
  obtain ⟨name, base, members⟩ := first
  obtain ⟨name', base', members'⟩ := second
  have hmembers : members.map Member.datum = members'.map Member.datum →
      List.Forall₂ Member.Alike members members' := fun hmap =>
    (map_eq_map_iff_forall₂.mp hmap).imp fun _ _ => Member.alike_of_datum_eq
  -- a base is one field more
  rcases base with _ | base <;> rcases base' with _ | base' <;>
    simp only [Record.datum, Datum.object.injEq, Option.toList_none, Option.toList_some,
      List.map_nil, List.map_cons, List.nil_append, List.cons_append, List.cons.injEq,
      Prod.mk.injEq, Datum.string.injEq, Datum.array.injEq, reduceCtorEq, and_false] at h
  · exact Definition.Alike.record h.1.2 rfl (hmembers h.2.1.2)
  · exact Definition.Alike.record h.1.2 (congrArg some h.2.1.2) (hmembers h.2.2.1.2)

theorem Enumeration.alike_of_datum_eq {first second : Enumeration}
    (h : first.datum = second.datum) :
    (Definition.enumeration first).Alike (.enumeration second) := by
  simp only [Enumeration.datum, Datum.object.injEq, List.cons.injEq, Prod.mk.injEq,
    Datum.string.injEq, Datum.array.injEq] at h
  exact Definition.Alike.enumeration h.1.2 h.2.1.2
    (List.map_injective_iff.mpr (fun _ _ => Datum.string.inj) h.2.2.1.2)

/-- The last field of a record is not that of an enumeration. -/
theorem Record.datum_ne (record : Record) (enumeration : Enumeration) :
    record.datum ≠ enumeration.datum := by
  intro h
  have hfields := congrArg List.getLast? (Datum.object.inj h)
  rw [← List.cons_append, List.getLast?_append] at hfields
  simp at hfields

theorem Definition.alike_of_datum_eq {first second : Definition}
    (h : first.datum = second.datum) : first.Alike second := by
  cases first with
  | record first =>
    cases second with
    | record second => exact Record.alike_of_datum_eq h
    | enumeration second => exact absurd h (first.datum_ne second)
  | enumeration first =>
    cases second with
    | record second => exact absurd h.symm (second.datum_ne first)
    | enumeration second => exact Enumeration.alike_of_datum_eq h

theorem Member.toJson_eq_of_alike {first second : Member} (h : first.Alike second) :
    first.toJson = second.toJson := by
  rw [Member.toJson, Member.toJson, h.name, h.type, h.isArray]

theorem Definition.toJson_eq_of_alike {first second : Definition} (h : first.Alike second) :
    first.toJson = second.toJson := by
  cases h with
  | @record first second hname hbase hmembers =>
    have hmap : first.members.map Member.toJson = second.members.map Member.toJson :=
      map_eq_map_iff_forall₂.mpr (hmembers.imp fun _ _ => Member.toJson_eq_of_alike)
    show first.toJson = second.toJson
    rw [Record.toJson, Record.toJson, hname, hbase, hmap]
  | @enumeration first second hname hbase hvalues =>
    show first.toJson = second.toJson
    rw [Enumeration.toJson, Enumeration.toJson, hname, hbase, hvalues]

/-- Just the definitions that look alike are written as the same object. -/
theorem Definition.toJson_eq_iff {first second : Definition} :
    first.toJson = second.toJson ↔ first.Alike second := by
  refine ⟨fun h => ?_, Definition.toJson_eq_of_alike⟩
  have hdatum := congrArg Json.datum h
  rw [Definition.datum_toJson, Definition.datum_toJson] at hdatum
  exact Definition.alike_of_datum_eq hdatum

/-! ## The texts -/

theorem Definition.denotes_text (definition : Definition) (datum : Datum) :
    Denotes definition.text datum ↔ datum = definition.datum := by
  rw [Definition.text, Json.denotes_compact_iff, Definition.datum_toJson]

/-- **The text of a definition is JSON and says what the definition is.**  As JSON it denotes one
object and nothing else: for a record its name, its base if it has one, and its members in order,
each with its name, its type and whether it holds many values; for an enumeration its name, its
base and its values in order.  So two definitions have the same text only when they look alike. -/
theorem Definition.denotes_text_iff :
    (∀ (record : Record) (datum : Datum), Denotes (Definition.record record).text datum ↔
      datum = .object (("name", .string record.name) ::
        ((record.base.toList.map fun base => ("base", .string base)) ++
          [("members", .array (record.members.map fun member =>
            .object [("name", .string member.name), ("type", .string member.type.spelling),
              ("isArray", .bool member.isArray)]))]))) ∧
    (∀ (enumeration : Enumeration) (datum : Datum),
      Denotes (Definition.enumeration enumeration).text datum ↔
        datum = .object [("name", .string enumeration.name),
          ("base", .string enumeration.base.baseSpelling),
          ("enumerations", .array (enumeration.values.map .string))]) ∧
    ∀ first second : Definition, first.text = second.text ↔ first.Alike second := by
  refine ⟨fun record => Definition.denotes_text (.record record),
    fun enumeration => Definition.denotes_text (.enumeration enumeration), ?_⟩
  intro first second
  constructor
  · intro htext
    have hdenotes := (Definition.denotes_text first first.datum).mpr rfl
    rw [htext] at hdenotes
    exact Definition.alike_of_datum_eq ((Definition.denotes_text second _).mp hdenotes)
  · intro halike
    rw [Definition.text, Definition.text, Definition.toJson_eq_of_alike halike]

end Schema
end ServiceTypes
