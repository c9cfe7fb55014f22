import Mathlib.Data.List.Forall2
import ServiceTypes.Xml.Node

/-!
# Changing a tree at one place

To compare how a tree and a changed tree are read, the change has to be made where the reading
looks: at the first child of a name, and at the children of that.

* `Element.mapFirstChild`: an element with its first child of a name changed;
  `firstChild?_mapFirstChild` says what is found there then.
* `Element.placesOf`: where the children of a name stand among all children; `forall₂_placesOf`
  ties the places to the children.
* `Element.withChildren`: an element with other children.
-/

namespace ServiceTypes
namespace Xml

namespace Node

@[simp] theorem asElement?_element (name : String) (attributes : Attributes)
    (children : List Node) :
    (Node.element name attributes children).asElement? = some ⟨name, attributes, children⟩ := rfl

@[simp] theorem asElement?_text (content : String) : (Node.text content).asElement? = none := rfl

/-- Whether a node is an element of a name. -/
def isNamed (name : String) (node : Node) : Bool :=
  node.asElement?.any fun element => element.name == name

@[simp] theorem isNamed_element (name other : String) (attributes : Attributes)
    (children : List Node) :
    (Node.element other attributes children).isNamed name = (other == name) := rfl

@[simp] theorem isNamed_text (name content : String) :
    (Node.text content).isNamed name = false := rfl

end Node

namespace Element

/-- An element with other children. -/
def withChildren (element : Element) (children : List Node) : Element :=
  { element with children := children }

@[simp] theorem name_withChildren (element : Element) (children : List Node) :
    (element.withChildren children).name = element.name := rfl

/-- The children of a name are found node by node. -/
theorem childrenNamed_eq (element : Element) (name : String) :
    element.childrenNamed name =
      (element.children.filter (Node.isNamed name)).filterMap Node.asElement? := by
  rw [childrenNamed, elements]
  induction element.children with
  | nil => rfl
  | cons child children ih =>
    cases child with
    | text content => simpa [List.filterMap_cons] using ih
    | element other attributes inner =>
      by_cases h : other = name
      · simpa [List.filterMap_cons, h] using ih
      · simpa [List.filterMap_cons, h] using ih

/-! ## The first child of a name -/

/-- What becomes of a node when the elements of a name are changed; `none` if nothing does. -/
def changed (name : String) (change : Element → Element) (node : Node) : Option Node :=
  match node with
  | .element other attributes children =>
    if other = name then some (change ⟨other, attributes, children⟩).toNode else none
  | .text _ => none

/-- An element with its first child of a name changed. -/
def mapFirstChild (name : String) (change : Element → Element) (element : Element) : Element :=
  element.withChildren (element.children.replaceF (changed name change))

@[simp] theorem name_mapFirstChild (name : String) (change : Element → Element)
    (element : Element) : (element.mapFirstChild name change).name = element.name := rfl

/-- The changed child is the first of its name, as the child was before. -/
theorem firstChild?_mapFirstChild {name : String} {change : Element → Element}
    (hchange : ∀ child, (change child).name = child.name) (element : Element) :
    (element.mapFirstChild name change).firstChild? name =
      (element.firstChild? name).map change := by
  rw [firstChild?, firstChild?, elements, elements, mapFirstChild, withChildren]
  dsimp only
  induction element.children with
  | nil => rfl
  | cons child children ih =>
    cases child with
    | text content =>
      rw [List.replaceF_cons_of_none _ rfl]
      exact ih
    | element other attributes inner =>
      by_cases h : other = name
      · have hname : (change ⟨name, attributes, inner⟩).name = name := hchange _
        have hchanged : changed name change (.element other attributes inner) =
            some (change ⟨other, attributes, inner⟩).toNode := if_pos h
        rw [List.replaceF_cons_of_some _ hchanged]
        simp [h, hname]
      · have hchanged : changed name change (.element other attributes inner) = none := if_neg h
        rw [List.replaceF_cons_of_none _ hchanged]
        simpa [List.filterMap_cons, h] using ih

/-! ## The places of the children of a name -/

/-- Where the children of a name stand among all children, in order. -/
def placesOf (element : Element) (name : String) : List Nat :=
  element.children.findIdxs (Node.isNamed name)

/-- At each place of a name stands the child that is found there. -/
theorem forall₂_placesOf (element : Element) (name : String) :
    List.Forall₂
      (fun place child => element.children[place]? = some child.toNode ∧ child.name = name)
      (element.placesOf name) (element.childrenNamed name) := by
  suffices ∀ before children, element.children = before ++ children →
      List.Forall₂
        (fun place child => element.children[place]? = some child.toNode ∧ child.name = name)
        (children.findIdxs (Node.isNamed name) before.length)
        ((children.filter (Node.isNamed name)).filterMap Node.asElement?) by
    rw [childrenNamed_eq]
    exact this [] element.children rfl
  intro before children hsplit
  -- of the children that are searched already only the number counts
  induction children generalizing before with
  | nil => exact List.Forall₂.nil
  | cons child children ih =>
    have hrest := ih (before ++ [child]) (by rw [hsplit, List.append_assoc]; rfl)
    rw [List.length_append, List.length_singleton] at hrest
    rw [List.findIdxs_cons]
    cases child with
    | text content => simpa using hrest
    | element other attributes inner =>
      by_cases h : other = name
      · have hplace : element.children[before.length]? =
            some (Node.element other attributes inner) := by
          rw [hsplit, List.getElem?_append_right (Nat.le_refl _), Nat.sub_self]
          rfl
        have hnamed : (Node.element other attributes inner).isNamed name = true := by
          simpa using h
        rw [if_pos hnamed, List.filter_cons_of_pos hnamed]
        exact List.Forall₂.cons ⟨hplace, h⟩ hrest
      · simpa [h] using hrest

end Element
end Xml
end ServiceTypes
