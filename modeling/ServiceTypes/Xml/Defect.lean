import ServiceTypes.Xml.Event
import ServiceTypes.Xml.Reference

/-!
# Defects of a document

All the ways in which a text fails to be a document: it cannot be read as events, a tag or a
reference in it is faulty, or its elements do not make up one tree.
-/

namespace ServiceTypes
namespace Xml

/-- Why a text is no document. -/
inductive Defect where
  /-- The text cannot be read on; the position is a count of bytes. -/
  | misread (position : Nat) (cause : Misreading)
  /-- The attributes of a tag cannot be read. -/
  | attributes (fault : AttributeFault)
  /-- A reference in the value of an attribute cannot be resolved. -/
  | attributeValue (fault : ReferenceFault)
  /-- A reference in the text of an element cannot be resolved. -/
  | text (fault : ReferenceFault)
  /-- A second element is closed outside the root. -/
  | secondRoot (name : String)
  /-- The text ends inside an element. -/
  | unclosed (name : String)
  /-- There is no element at all. -/
  | noRoot
  deriving DecidableEq, Repr

/-- What is said of a text that is no document. -/
def Defect.message : Defect → String
  | .misread position cause =>
    "Error parsing XML at position " ++ toString position ++ ": " ++ cause.message
  | .attributes fault => "Failed to parse attribute: " ++ fault.message
  | .attributeValue fault => "Failed to unescape attribute value: " ++ fault.message
  | .text fault => "Failed to unescape text: " ++ fault.message
  | .secondRoot name => "Multiple root elements: unexpected '" ++ name ++ "'"
  | .unclosed name => "Unclosed element '" ++ name ++ "'"
  | .noRoot => "XML document has no root element"

end Xml
end ServiceTypes
