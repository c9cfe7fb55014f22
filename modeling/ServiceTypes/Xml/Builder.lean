import ServiceTypes.Fault
import ServiceTypes.Text.Blank
import ServiceTypes.Xml.Node
import ServiceTypes.Xml.Reader

/-!
# From events to the tree

A builder takes in the events of a document one by one.  It holds the elements that are open,
innermost first, and the root once that is closed.  An open element keeps its children latest
first and turns them round when it closes, so that adding a child never copies the others.

* `Tag.attributes`: the attributes of a tag, with the references in their values resolved.
* `Builder.take`: what one event does.
* `Builder.finish`: the root, once all events are in.
* `Element.parse`: a whole text, under limits.

The order of the tests on a tag is its depth, then its attributes one by one, then their number.
Text outside the root is passed over and its references are not looked at; inside, a run of text
that is blank once resolved is layout and is passed over too, while a character data section
always counts.
-/

namespace ServiceTypes
namespace Xml

open Text

/-- Keep one written attribute, with the references in its value resolved. -/
def Attributes.keep (attributes : Attributes) (written : WrittenAttribute) :
    Except Fault Attributes :=
  match resolve written.value with
  | .ok value => .ok (attributes.set (String.ofList written.key) (String.ofList value))
  | .error fault => .error (.xml (.attributeValue fault))

/-- The attributes of a tag.  Of several faults in a tag the leftmost counts. -/
def Tag.attributes (tag : Tag) : Except Fault Attributes :=
  match tag.listing.written.foldlM Attributes.keep ∅ with
  | .error fault => .error fault
  | .ok attributes =>
    match tag.listing.fault with
    | some fault => .error (.xml (.attributes fault))
    | none => .ok attributes

/-- An element that is still open, with its children latest first. -/
structure OpenElement where
  name : String
  attributes : Attributes
  children : List Node := []

namespace OpenElement

/-- The element, as it is when nothing more comes. -/
def close (element : OpenElement) : Element :=
  ⟨element.name, element.attributes, element.children.reverse⟩

/-- Add a child after the others. -/
def add (element : OpenElement) (child : Node) : OpenElement :=
  { element with children := child :: element.children }

@[simp] theorem children_close_add (element : OpenElement) (child : Node) :
    (element.add child).close.children = element.close.children ++ [child] := by
  simp [close, add]

end OpenElement

/-- A tree under construction: the open elements, innermost first, how many they are, and the closed
root.  The number is kept at hand because every tag asks for it. -/
structure Builder where
  stack : List OpenElement := []
  depth : Nat := 0
  root : Option Element := none
  depth_eq : depth = stack.length := by rfl

namespace Builder

/-- Open an element within the innermost open one. -/
def push (builder : Builder) (element : OpenElement) : Builder where
  stack := element :: builder.stack
  depth := builder.depth + 1
  root := builder.root
  depth_eq := congrArg (· + 1) builder.depth_eq

/-- Add a child to the innermost open element; outside the root nothing is added. -/
def addChild (builder : Builder) (child : Node) : Builder :=
  match builder with
  | ⟨[], depth, root, depth_eq⟩ => ⟨[], depth, root, depth_eq⟩
  | ⟨element :: outer, depth, root, depth_eq⟩ =>
    ⟨element.add child :: outer, depth, root, depth_eq⟩

/-- Hand a closed element to the element around it, or make it the root. -/
def attach (builder : Builder) (element : Element) : Except Fault Builder :=
  match builder.stack with
  | _ :: _ => .ok (builder.addChild element.toNode)
  | [] =>
    match builder.root with
    | none => .ok { root := some element }
    | some _ => .error (.xml (.secondRoot element.name))

/-- Close the innermost open element. -/
def closeElement (builder : Builder) : Except Fault Builder :=
  match builder with
  | ⟨[], depth, root, depth_eq⟩ => .ok ⟨[], depth, root, depth_eq⟩
  | ⟨element :: outer, depth, root, depth_eq⟩ =>
    attach ⟨outer, depth - 1, root, by simp [depth_eq]⟩ element.close

/-- The element that a tag opens. -/
def openElement (limits : Limits) (builder : Builder) (tag : Tag) : Except Fault OpenElement := do
  limits.require .depth (builder.depth + 1)
  let attributes ← tag.attributes
  limits.require .attributes attributes.size
  return ⟨String.ofList tag.name, attributes, []⟩

/-- Take in a run of text as written. -/
def takeText (builder : Builder) (raw : List Char) : Except Fault Builder :=
  match builder.stack with
  | [] => .ok builder
  | _ :: _ =>
    match resolve raw with
    | .error fault => .error (.xml (.text fault))
    | .ok content =>
      if allBlank content then .ok builder
      else .ok (builder.addChild (.text (String.ofList content)))

/-- Take in one event. -/
def take (limits : Limits) (builder : Builder) (event : Event) : Except Fault Builder :=
  match event with
  | .startTag tag => do
    let element ← builder.openElement limits tag
    return builder.push element
  | .emptyTag tag => do
    let element ← builder.openElement limits tag
    builder.attach element.close
  | .endTag _ => builder.closeElement
  | .text raw => builder.takeText raw
  | .cdata content => .ok (builder.addChild (.text (String.ofList content)))
  | .comment _ => .ok builder
  | .instruction _ => .ok builder
  | .doctype _ => .ok builder

/-- The root, when no more events come. -/
def finish (builder : Builder) : Except Fault Element :=
  match builder.stack with
  | element :: _ => .error (.xml (.unclosed element.name))
  | [] =>
    match builder.root with
    | some root => .ok root
    | none => .error (.xml .noRoot)

/-! ## What the operations do to the open elements and to the root -/

@[simp] theorem stack_push (builder : Builder) (element : OpenElement) :
    (builder.push element).stack = element :: builder.stack := rfl

@[simp] theorem root_push (builder : Builder) (element : OpenElement) :
    (builder.push element).root = builder.root := rfl

theorem addChild_of_nil {builder : Builder} (h : builder.stack = []) (child : Node) :
    builder.addChild child = builder := by
  obtain ⟨stack, depth, root, hdepth⟩ := builder
  obtain rfl : stack = [] := h
  rfl

theorem stack_addChild_of_cons {builder : Builder} {element : OpenElement}
    {outer : List OpenElement} (h : builder.stack = element :: outer) (child : Node) :
    (builder.addChild child).stack = element.add child :: outer := by
  obtain ⟨stack, depth, root, hdepth⟩ := builder
  obtain rfl : stack = element :: outer := h
  rfl

@[simp] theorem root_addChild (builder : Builder) (child : Node) :
    (builder.addChild child).root = builder.root := by
  obtain ⟨stack, depth, root, hdepth⟩ := builder
  cases stack <;> rfl

end Builder

/-- The root of the tree that a transcript of `text` describes.  A fault in the events comes before
the misreading that ended them. -/
def Transcript.root (limits : Limits) (text : List Char) (transcript : Transcript) :
    Except Fault Element :=
  match transcript.events.foldlM (Builder.take limits) {} with
  | .error fault => .error fault
  | .ok builder =>
    match transcript.ending with
    | some misread => .error (.xml (.misread (misread.position text) misread.cause))
    | none => builder.finish

/-- A text without the mark of byte order that may stand before it. -/
def withoutMark : List Char → List Char
  | [] => []
  | c :: text => if c = '\ufeff' then text else c :: text

/-- Read a document and give its root.  The size is tested before anything is read. -/
def Element.parse (limits : Limits) (text : String) : Except Fault Element := do
  limits.require .size text.utf8ByteSize
  let marked := withoutMark text.toList
  (Reader.mk marked []).transcript.root limits marked

end Xml
end ServiceTypes
