import ServiceTypes.Schema.QName

/-!
# References to types

Where a schema refers to a type, it writes a qualified name.  With the qualifier of schemas it may
name one of ten built-in types, each of which comes down to one of four primitives; with the
qualifier of declared types it names another type of the schema, which may or may not exist.

* `Primitive`, `TypeRef`: what a reference comes to, with its two spellings.  A reference is
  spelled one way as the type of a member and, for the string primitive alone, another way as the
  base of an enumeration, so that the two uses stay apart.
* `Prefixes.resolve`: what a written reference comes to under a pair of qualifiers.
-/

namespace ServiceTypes
namespace Schema

/-- The primitive types. -/
inductive Primitive where
  | string
  | number
  | boolean
  | any
  deriving DecidableEq, Repr

namespace Primitive

/-- The spelling of a primitive as the type of a member. -/
def spelling : Primitive → String
  | .string => "string"
  | .number => "number"
  | .boolean => "boolean"
  | .any => "any"

/-- The spelling of a primitive as the base of an enumeration. -/
def baseSpelling : Primitive → String
  | .string => "String"
  | other => other.spelling

/-- The built-in types of a schema by local name, and the primitives that they come down to. -/
def builtIns : List (String × Primitive) :=
  [("string", .string), ("double", .number), ("int", .number), ("long", .number),
    ("boolean", .boolean), ("date", .string), ("time", .number), ("dateTime", .string),
    ("base64Binary", .any), ("anyType", .any)]

/-- The local names of the built-in types. -/
def builtInNames : List String :=
  builtIns.map Prod.fst

/-- The primitive of a built-in type. -/
def ofBuiltIn? (localPart : String) : Option Primitive :=
  builtIns.lookup localPart

end Primitive

/-- What a reference to a type comes to: a primitive, or a declared type by its bare name. -/
inductive TypeRef where
  | primitive (kind : Primitive)
  | declared (name : String)
  deriving DecidableEq, Repr

namespace TypeRef

/-- The spelling of a reference as the type of a member. -/
def spelling : TypeRef → String
  | .primitive kind => kind.spelling
  | .declared name => name

/-- The spelling of a reference as the base of an enumeration. -/
def baseSpelling : TypeRef → String
  | .primitive kind => kind.baseSpelling
  | .declared name => name

/-- Whether a reference is to a declared type. -/
def isDeclared : TypeRef → Bool
  | .primitive _ => false
  | .declared _ => true

end TypeRef

/-- A written reference that comes to nothing. -/
structure UnknownType where
  written : String
  deriving DecidableEq, Repr

/-- The qualifiers of a schema: that of its elements and of built-in types, and that of the types it
declares. -/
structure Prefixes where
  schema : String := "xsd"
  declared : String := "tns"
  deriving DecidableEq, Repr

/-- What a written reference comes to.  A built-in type goes before a declared one, which matters
when both qualifiers are the same. -/
def Prefixes.resolve (prefixes : Prefixes) (written : String) : Except UnknownType TypeRef :=
  match (QName.localIn? prefixes.schema written).bind Primitive.ofBuiltIn? with
  | some primitive => .ok (.primitive primitive)
  | none =>
    match QName.localIn? prefixes.declared written with
    | some name => .ok (.declared name)
    | none => .error ⟨written⟩

end Schema
end ServiceTypes
