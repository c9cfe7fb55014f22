import ServiceTypes.Json
import ServiceTypes.Schema.TypeRef

/-!
# Definitions of types

What the library lists: a record with its members in order, or an enumeration with its values in
order.  A record may extend another one, which it names; the members of that one are not repeated.
An enumeration restricts some type, its base.

`Definition.toJson` is the form that code generators read.  The kind of a definition shows only in
its fields, `members` or `enumerations`.
-/

namespace ServiceTypes
namespace Schema

/-- A member of a record. -/
structure Member where
  name : String
  type : TypeRef
  /-- Whether the member holds any number of values. -/
  isArray : Bool
  deriving DecidableEq, Repr

/-- A record. -/
structure Record where
  name : String
  /-- The bare name of the record that this one extends. -/
  base : Option String := none
  members : List Member := []
  deriving DecidableEq, Repr

/-- An enumeration. -/
structure Enumeration where
  name : String
  base : TypeRef
  values : List String := []
  deriving DecidableEq, Repr

/-- A type that a schema declares. -/
inductive Definition where
  | record (contents : Record)
  | enumeration (contents : Enumeration)
  deriving DecidableEq, Repr

/-- The JSON form of a member. -/
def Member.toJson (member : Member) : Json :=
  .object [("name", .string member.name), ("type", .string member.type.spelling),
    ("isArray", .bool member.isArray)]

/-- The JSON form of a record; without a base there is no such field. -/
def Record.toJson (record : Record) : Json :=
  let base := match record.base with
    | some base => [("base", Json.string base)]
    | none => []
  .object (("name", .string record.name) :: base ++
    [("members", .array (record.members.map Member.toJson))])

/-- The JSON form of an enumeration. -/
def Enumeration.toJson (enumeration : Enumeration) : Json :=
  .object [("name", .string enumeration.name), ("base", .string enumeration.base.baseSpelling),
    ("enumerations", .array (enumeration.values.map Json.string))]

namespace Definition

/-- The name of a type. -/
def name : Definition → String
  | .record contents => contents.name
  | .enumeration contents => contents.name

/-- The record that a definition is, if it is one. -/
def asRecord? : Definition → Option Record
  | .record contents => some contents
  | .enumeration _ => none

/-- The enumeration that a definition is, if it is one. -/
def asEnumeration? : Definition → Option Enumeration
  | .record _ => none
  | .enumeration contents => some contents

/-- The JSON form of a definition. -/
def toJson : Definition → Json
  | .record contents => contents.toJson
  | .enumeration contents => contents.toJson

/-- The compact JSON text of a definition. -/
def text (definition : Definition) : String :=
  definition.toJson.compact

end Definition
end Schema
end ServiceTypes
