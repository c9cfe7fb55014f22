/-!
# Diagnostics

A diagnostic is what a host is told about a failure.  There are four kinds.  A malformed schema
and an unknown type may say where the failure is; they have a text of their own, and the message
puts the kind before it.  The other two kinds have a text and no place.
-/

namespace ServiceTypes

/-- What a host is told about a failure. -/
inductive Diagnostic where
  /-- A node or an attribute that a schema has to have is not there. -/
  | malformedSchema (detail : String) (path : Option String)
  /-- A type is referred to that is neither built in nor written as a declared one. -/
  | unknownType (spelling : String) (path : Option String)
  /-- The text is no proper document. -/
  | xml (detail : String)
  /-- A count passes its limit. -/
  | limitExceeded (detail : String)
  deriving DecidableEq, Repr

namespace Diagnostic

/-- What is said of a type reference that nothing is known of. -/
def unexpectedType (spelling : String) : String :=
  "unexpected xml type '" ++ spelling ++ "'"

/-- A text with the place after it, if there is one. -/
def located (detail : String) : Option String → String
  | none => detail
  | some path => detail ++ "\n\nPath: " ++ path

/-- The text of a failure without its kind; only the kinds that have a place have one. -/
def own? : Diagnostic → Option String
  | .malformedSchema detail path => some (located detail path)
  | .unknownType spelling path => some (located (unexpectedType spelling) path)
  | .xml _ => none
  | .limitExceeded _ => none

/-- The whole message. -/
def message : Diagnostic → String
  | .malformedSchema detail path => "malformed schema: " ++ located detail path
  | .unknownType spelling path => "unknown type: " ++ located (unexpectedType spelling) path
  | .xml detail => "XML error: " ++ detail
  | .limitExceeded detail => "limit exceeded: " ++ detail

/-- Put the failure at a place, whatever place it had before; the kinds without a place stay. -/
def placedAt (diagnostic : Diagnostic) (path : String) : Diagnostic :=
  match diagnostic with
  | .malformedSchema detail _ => .malformedSchema detail (some path)
  | .unknownType spelling _ => .unknownType spelling (some path)
  | other => other

/-- Whether the failure is one of the structure of a schema. -/
def isMalformedSchema : Diagnostic → Bool
  | .malformedSchema .. => true
  | _ => false

/-- Whether the failure is a type reference that nothing is known of. -/
def isUnknownType : Diagnostic → Bool
  | .unknownType .. => true
  | _ => false

end Diagnostic
end ServiceTypes
