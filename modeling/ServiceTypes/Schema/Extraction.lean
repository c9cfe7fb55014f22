import ServiceTypes.Schema.Definition
import ServiceTypes.Schema.Settings
import ServiceTypes.Xml.Builder

/-!
# The definitions of a description

A description of a service holds its schema in an element `types`.  Every complex type of the
schema is a record and every simple type an enumeration; the records come first, and each group
keeps the order of the document.  Of the first fault that is met nothing but the fault is given.

* A complex type has its members in a sequence.  If it has none of its own, it may have complex
  content with an extension, which names the base and may hold the sequence.  With neither it has
  no members.
* A member is an element of the sequence, with a name and a type; it is an array if it may occur
  any number of times.
* A simple type has a restriction, which names the base and holds the values.

All else in a type is passed over.  Names are compared as written, and only the first child of a
name counts where one is looked for.  `definitions` reads a tree and `definitionsOfText` a text.
-/

namespace ServiceTypes
namespace Schema

open Xml

/-- The first child of a name, which the element at `path` has to have. -/
def requireChild (element : Element) (name : String) (path : Path) : Except Fault Element :=
  match element.firstChild? name with
  | some child => .ok child
  | none => .error (.missingElement name path)

/-- The value of an attribute that an element has to have; a fault is put at `path`. -/
def requireAttribute (element : Element) (key : String) (path : Path) : Except Fault String :=
  match element.attribute? key with
  | some value => .ok value
  | none => .error (.missingAttribute element.name key path)

namespace Settings

/-- What the reference to a type at `path` comes to. -/
def typeAt (settings : Settings) (path : Path) (written : String) : Except Fault TypeRef :=
  (settings.prefixes.resolve written).mapError fun unknown => .unknownType unknown.written path

/-- The member that an element of a sequence describes.  The sequence is at `path`. -/
def member (settings : Settings) (path : Path) (element : Element) : Except Fault Member := do
  let name ← requireAttribute element "name" path
  let here := path.declaration element.name name
  let written ← requireAttribute element "type" here
  let type ← settings.typeAt here written
  return ⟨name, type, element.attribute? "maxOccurs" == some "unbounded"⟩

/-- The members that a sequence at `path` lists. -/
def members (settings : Settings) (path : Path) (sequence : Element) :
    Except Fault (List Member) :=
  (sequence.childrenNamed (settings.name .element)).mapM (settings.member path)

end Settings

/-- Where a complex type has its members: the base it extends, and its sequence with the path to
it. -/
structure Content where
  base : Option String := none
  sequence : Option (Element × Path) := none

namespace Settings

/-- The content of the complex type at `path`. -/
def content (settings : Settings) (path : Path) (complexType : Element) :
    Except Fault Content :=
  match complexType.firstChild? (settings.name .sequence) with
  | some sequence => .ok ⟨none, some (sequence, path.child (settings.name .sequence))⟩
  | none =>
    match complexType.firstChild? (settings.name .complexContent) with
    | none => .ok {}
    | some complexContent => do
      let path := path.child (settings.name .complexContent)
      let extension ← requireChild complexContent (settings.name .extension) path
      let path := path.child (settings.name .extension)
      let base ← requireAttribute extension "base" path
      let sequence := extension.firstChild? (settings.name .sequence)
      return ⟨some (QName.localOf base),
        sequence.map fun sequence => (sequence, path.child (settings.name .sequence))⟩

/-- The record that a complex type describes.  The schema is at `path`. -/
def record (settings : Settings) (path : Path) (complexType : Element) : Except Fault Record := do
  let name ← requireAttribute complexType "name" path
  let content ← settings.content (path.declaration complexType.name name) complexType
  match content.sequence with
  | none => return ⟨name, content.base, []⟩
  | some (sequence, path) => return ⟨name, content.base, ← settings.members path sequence⟩

/-- The value that a facet of a restriction at `path` allows. -/
def facet (path : Path) (element : Element) : Except Fault String :=
  requireAttribute element "value" (path.child element.name)

/-- The enumeration that a simple type describes.  The schema is at `path`. -/
def enumeration (settings : Settings) (path : Path) (simpleType : Element) :
    Except Fault Enumeration := do
  let name ← requireAttribute simpleType "name" path
  let path := path.declaration simpleType.name name
  let restriction ← requireChild simpleType (settings.name .restriction) path
  let path := path.child (settings.name .restriction)
  let base ← requireAttribute restriction "base" path
  let base ← settings.typeAt path base
  let values ← (restriction.childrenNamed (settings.name .enumeration)).mapM (facet path)
  return ⟨name, base, values⟩

/-- The definitions of the schema at `path`.  Their number is tested before any is read. -/
def schemaDefinitions (settings : Settings) (path : Path) (schema : Element) :
    Except Fault (List Definition) := do
  let complexTypes := schema.childrenNamed (settings.name .complexType)
  let simpleTypes := schema.childrenNamed (settings.name .simpleType)
  settings.limits.require .definitions (complexTypes.length + simpleTypes.length)
  let records ← complexTypes.mapM (settings.record path)
  let enumerations ← simpleTypes.mapM (settings.enumeration path)
  return records.map Definition.record ++ enumerations.map Definition.enumeration

/-- The definitions of the description with a given root. -/
def definitions (settings : Settings) (root : Element) : Except Fault (List Definition) := do
  let path := Path.root root.name
  let types ← requireChild root "types" path
  let path := path.child "types"
  let schema ← requireChild types (settings.name .schema) path
  settings.schemaDefinitions (path.child (settings.name .schema)) schema

/-- The definitions of a description given as text. -/
def definitionsOfText (settings : Settings) (text : String) : Except Fault (List Definition) := do
  let root ← Element.parse settings.limits text
  settings.definitions root

end Settings
end Schema
end ServiceTypes
