import ServiceTypes.Limits
import ServiceTypes.Schema.TypeRef

/-!
# Settings

The settings under which a description is read: the qualifiers by which the elements of its schema
and the references to types are recognised, and the limits.
-/

namespace ServiceTypes
namespace Schema

/-- The settings under which a description is read. -/
structure Settings where
  prefixes : Prefixes := {}
  limits : Limits := .standard
  deriving DecidableEq, Repr

/-- The elements of a schema that have a part in the definitions. -/
inductive Vocabulary where
  | schema
  | complexType
  | simpleType
  | sequence
  | complexContent
  | extension
  | element
  | restriction
  | enumeration
  deriving DecidableEq, Repr

/-- The local name of an element of a schema. -/
def Vocabulary.localName : Vocabulary → String
  | .schema => "schema"
  | .complexType => "complexType"
  | .simpleType => "simpleType"
  | .sequence => "sequence"
  | .complexContent => "complexContent"
  | .extension => "extension"
  | .element => "element"
  | .restriction => "restriction"
  | .enumeration => "enumeration"

namespace Settings

/-- The name with the qualifier of schemas and a local part. -/
def schemaName (settings : Settings) (localPart : String) : String :=
  QName.join settings.prefixes.schema localPart

/-- The name under which an element of a schema is looked for. -/
def name (settings : Settings) (word : Vocabulary) : String :=
  settings.schemaName word.localName

end Settings
end Schema
end ServiceTypes
