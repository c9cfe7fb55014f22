import ServiceTypes.Xml.Attributes

/-!
# The tree of a document

A node is an element or a run of text.  An element has a name, kept as written with any prefix,
its attributes, and its children in the order of the document.  `Node` is the tree itself;
`Element` is the view of a node that is known to be an element, and the operations of the library
are on it.

* `Element.firstChild?`, `Element.childrenNamed`: the children of a name.  Only direct children
  count, and text never does.
* `Element.text`: the text directly in an element.
* `Element.same`: equality in which the order of attributes plays no part.  The order of children
  does, and neighbouring runs of text are not joined.
-/

namespace ServiceTypes
namespace Xml

/-- A node of a document. -/
inductive Node where
  | element (name : String) (attributes : Attributes) (children : List Node)
  | text (content : String)

/-- An element of a document. -/
structure Element where
  name : String
  attributes : Attributes := ∅
  children : List Node := []

namespace Node

/-- The element that a node is, if it is one. -/
def asElement? : Node → Option Element
  | .element name attributes children => some ⟨name, attributes, children⟩
  | .text _ => none

/-- The text that a node is, if it is text. -/
def asText? : Node → Option String
  | .element .. => none
  | .text content => some content

mutual

/-- Whether two nodes are equal up to the order of attributes. -/
def same : Node → Node → Bool
  | .element name attributes children, .element name' attributes' children' =>
    name == name' && attributes.same attributes' && sameChildren children children'
  | .text content, .text content' => content == content'
  | .element .., .text _ => false
  | .text _, .element .. => false

/-- Whether two lists of nodes are equal one by one, up to the order of attributes. -/
def sameChildren : List Node → List Node → Bool
  | [], [] => true
  | child :: children, child' :: children' => same child child' && sameChildren children children'
  | [], _ :: _ => false
  | _ :: _, [] => false

end

end Node

namespace Element

/-- An element as a node. -/
def toNode (element : Element) : Node :=
  .element element.name element.attributes element.children

@[simp] theorem asElement?_toNode (element : Element) : element.toNode.asElement? = some element :=
  rfl

/-- Give an attribute a value. -/
def setAttribute (element : Element) (key value : String) : Element :=
  { element with attributes := element.attributes.set key value }

/-- Add an element after the other children. -/
def addElement (element child : Element) : Element :=
  { element with children := element.children ++ [child.toNode] }

/-- Add a run of text after the other children. -/
def addText (element : Element) (content : String) : Element :=
  { element with children := element.children ++ [.text content] }

/-- The value of an attribute. -/
def attribute? (element : Element) (key : String) : Option String :=
  element.attributes.get? key

/-- The children that are elements. -/
def elements (element : Element) : List Element :=
  element.children.filterMap Node.asElement?

/-- The first child of a name. -/
def firstChild? (element : Element) (name : String) : Option Element :=
  element.elements.find? fun child => child.name == name

/-- All children of a name, in order. -/
def childrenNamed (element : Element) (name : String) : List Element :=
  element.elements.filter fun child => child.name == name

/-- The text directly in an element, joined. -/
def text (element : Element) : String :=
  String.join (element.children.filterMap Node.asText?)

/-- Whether two elements are equal up to the order of attributes. -/
def same (first second : Element) : Bool :=
  first.toNode.same second.toNode

/-- The first child of a name is the first of all children of that name. -/
theorem firstChild?_eq_head? (element : Element) (name : String) :
    element.firstChild? name = (element.childrenNamed name).head? :=
  (List.head?_filter ..).symm

theorem name_of_firstChild? {element child : Element} {name : String}
    (h : element.firstChild? name = some child) : child.name = name := by
  simpa using List.find?_some h

end Element
end Xml
end ServiceTypes
