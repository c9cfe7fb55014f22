import Mathlib.Data.List.Nodup
import Mathlib.Data.List.Perm.Subperm
import Mathlib.Logic.Relation
import ServiceTypes.Proofs.Schema.Sketch

/-!
# Edits that the extraction does not see

A description can be changed in many ways without any change to its definitions or to its fault.
The edits here are those of `Settings.Edit`: they are made at one element, which may stand anywhere
in the tree, and any number of them can be made one after the other.

None of them changes the sketch of the tree (`sketch_eq_of_edit`), and the extraction cannot tell a
tree from its sketch.  Equality up to the order of attributes stands for one edit at each element;
that it leaves the sketch alone is shown directly, by going through both trees
(`sketch_eq_of_same`).

* `definitions_insensitive`: edited descriptions, and descriptions that are equal up to the order
  of attributes, have the same definitions or the same fault.
-/

namespace ServiceTypes
namespace Schema

open Xml

namespace Settings

variable (settings : Settings)

/-! ## Edits -/

/-- Whether a node is an element of a name that is ever looked for. -/
def readsNode (node : Node) : Bool :=
  node.asElement?.any fun element => settings.reads element.name

/-- One edit of an element at some depth, the root being at depth one. -/
inductive Edit : Nat → Element → Element → Prop
  /-- The attributes are put into another order. -/
  | reorder {depth : Nat} {name : String} {attributes attributes' : Attributes}
    {children : List Node} (h : attributes.entries.Perm attributes'.entries) :
    Edit depth ⟨name, attributes, children⟩ ⟨name, attributes', children⟩
  /-- Attributes of keys that are not looked up are put in, taken out or changed. -/
  | attributes {depth : Nat} {name : String} {attributes attributes' : Attributes}
    {children : List Node}
    (h : attributes.entries.filter (fun entry => entry.1 ∈ readKeys) =
      attributes'.entries.filter fun entry => entry.1 ∈ readKeys) :
    Edit depth ⟨name, attributes, children⟩ ⟨name, attributes', children⟩
  /-- Texts, and elements of names that are not looked for, are put in or taken out. -/
  | children {depth : Nat} {name : String} {attributes : Attributes}
    {children children' : List Node}
    (h : children.filter settings.readsNode = children'.filter settings.readsNode) :
    Edit depth ⟨name, attributes, children⟩ ⟨name, attributes, children'⟩
  /-- The children of an element of which no child is looked at are changed. -/
  | contents {depth : Nat} {name : String} {attributes : Attributes}
    {children children' : List Node}
    (h : settings.Unread depth name) :
    Edit depth ⟨name, attributes, children⟩ ⟨name, attributes, children'⟩
  /-- A child is edited. -/
  | child {depth : Nat} {name : String} {attributes : Attributes} {before after : List Node}
    {child child' : Element} (h : Edit (depth + 1) child child') :
    Edit depth ⟨name, attributes, before ++ child.toNode :: after⟩
      ⟨name, attributes, before ++ child'.toNode :: after⟩

variable {settings} {depth : Nat}

/-- A text is put in at any place among the children. -/
theorem Edit.text {name : String} {attributes : Attributes} (before after : List Node)
    (content : String) :
    settings.Edit depth ⟨name, attributes, before ++ after⟩
      ⟨name, attributes, before ++ .text content :: after⟩ := by
  refine Edit.children ?_
  rw [List.filter_append, List.filter_append, List.filter_cons_of_neg (by simp [readsNode])]

/-- An element of a name that is not looked for is put in at any place among the children. -/
theorem Edit.element {name : String} {attributes : Attributes} (before after : List Node)
    {child : Element} (h : settings.reads child.name = false) :
    settings.Edit depth ⟨name, attributes, before ++ after⟩
      ⟨name, attributes, before ++ child.toNode :: after⟩ := by
  refine Edit.children ?_
  rw [List.filter_append, List.filter_append, List.filter_cons_of_neg (by simp [readsNode, h])]

/-! ## Edits leave the sketch alone -/

/-- A sketch is given by the name, the sketch of the attributes, and the sketches of the children
that are looked for. -/
theorem sketch_congr {first second : Element} (hname : first.name = second.name)
    (hattributes : first.attributes.sketch = second.attributes.sketch)
    (hchildren : ¬ settings.Unread depth first.name →
      (first.elements.filter fun child => settings.reads child.name).map
          (settings.sketch (depth + 1)) =
        (second.elements.filter fun child => settings.reads child.name).map
          (settings.sketch (depth + 1))) :
    settings.sketch depth first = settings.sketch depth second := by
  rw [sketch, sketch, hattributes, ← hname]
  by_cases h : settings.Unread depth first.name
  · rw [dif_pos h, dif_pos h]
  · have hnodes := congrArg (List.map Element.toNode) (hchildren h)
    rw [List.map_map, List.map_map] at hnodes
    rw [dif_neg h, dif_neg h]
    exact congrArg (Element.mk first.name second.attributes.sketch) hnodes

/-- The children that are looked for are found node by node. -/
theorem filter_elements (element : Element) :
    (element.elements.filter fun child => settings.reads child.name) =
      (element.children.filter settings.readsNode).filterMap Node.asElement? := by
  rw [Element.elements]
  induction element.children with
  | nil => rfl
  | cons child children ih =>
    cases child with
    | text content => simpa [List.filterMap_cons, readsNode] using ih
    | element name attributes inner =>
      by_cases h : settings.reads name = true
      · simpa [List.filterMap_cons, readsNode, h] using ih
      · simpa [List.filterMap_cons, readsNode, h] using ih

/-- Attributes with the same entries for the keys that are looked up have one sketch. -/
theorem sketch_eq_of_mem_iff {first second : Attributes}
    (h : ∀ key ∈ readKeys, ∀ value,
      (key, value) ∈ first.entries ↔ (key, value) ∈ second.entries) :
    first.sketch = second.sketch :=
  Attributes.sketch_congr fun key hkey => Attributes.get?_congr (h key hkey)

/-- **An edit leaves the sketch alone.** -/
theorem sketch_eq_of_edit {first second : Element} (h : settings.Edit depth first second) :
    settings.sketch depth first = settings.sketch depth second := by
  induction h with
  | reorder hperm =>
    exact sketch_congr rfl (sketch_eq_of_mem_iff fun _ _ _ => hperm.mem_iff) fun _ => rfl
  | attributes hfilter =>
    refine sketch_congr rfl (sketch_eq_of_mem_iff ?_) fun _ => rfl
    intro key hkey value
    have hmem := congrArg ((key, value) ∈ ·) hfilter
    simpa [List.mem_filter, hkey] using hmem
  | children hfilter =>
    refine sketch_congr rfl rfl fun _ => ?_
    rw [filter_elements, filter_elements]
    dsimp only
    rw [hfilter]
  | contents hunread => exact sketch_congr rfl rfl fun hread => absurd hunread hread
  | @child depth name attributes before after child child' _ ih =>
    refine sketch_congr rfl rfl fun _ => ?_
    have hname : child.name = child'.name := by
      have hnames := congrArg Element.name ih
      rwa [name_sketch, name_sketch] at hnames
    rw [Element.elements, Element.elements]
    dsimp only
    rw [List.filterMap_append, List.filterMap_append,
      List.filterMap_cons_some child.asElement?_toNode,
      List.filterMap_cons_some child'.asElement?_toNode, List.filter_append, List.filter_append,
      List.filter_cons, List.filter_cons, ← hname]
    split
    · rw [List.map_append, List.map_append, List.map_cons, List.map_cons, ih]
    · rfl

/-! ## So does the order of attributes -/

/-- Attributes that are the same in whatever order have the same values. -/
theorem get?_eq_of_same {first second : Attributes} (h : first.same second = true) (key : String) :
    first.get? key = second.get? key := by
  obtain ⟨hsize, hentries⟩ := Attributes.same_iff.mp h
  have hsubset : first.entries ⊆ second.entries := fun entry hmem =>
    Attributes.get?_eq_some_iff.mp (hentries entry hmem)
  have hnodup : first.entries.Nodup := List.Nodup.of_map Prod.fst first.nodup
  have hperm : first.entries.Perm second.entries :=
    (hnodup.subperm hsubset).perm_of_length_le (Nat.le_of_eq hsize.symm)
  exact Attributes.get?_congr fun value => hperm.mem_iff

mutual

theorem sketch_eq_of_same_node (depth : Nat) :
    ∀ first second : Node, first.same second = true →
      first.asElement?.map (settings.sketch depth) = second.asElement?.map (settings.sketch depth)
  | .text _, .text _, _ => rfl
  | .element name attributes children, .element name' attributes' children', h => by
    rw [Node.same, Bool.and_eq_true, Bool.and_eq_true, beq_iff_eq] at h
    obtain ⟨⟨hname, hattributes⟩, hchildren⟩ := h
    refine congrArg some (sketch_congr hname ?_ fun _ => ?_)
    · exact Attributes.sketch_congr fun key _ => get?_eq_of_same hattributes key
    · exact sketches_eq_of_same (depth + 1) children children' hchildren
  | .text _, .element .., h => by rw [Node.same] at h; cases h
  | .element .., .text _, h => by rw [Node.same] at h; cases h

theorem sketches_eq_of_same (depth : Nat) :
    ∀ first second : List Node, Node.sameChildren first second = true →
      ((first.filterMap Node.asElement?).filter fun child => settings.reads child.name).map
          (settings.sketch depth) =
        ((second.filterMap Node.asElement?).filter fun child => settings.reads child.name).map
          (settings.sketch depth)
  | [], [], _ => rfl
  | child :: children, child' :: children', h => by
    rw [Node.sameChildren, Bool.and_eq_true] at h
    have hfirst := sketch_eq_of_same_node depth child child' h.1
    have hrest := sketches_eq_of_same depth children children' h.2
    rcases hchild : child.asElement? with _ | element
    · rw [hchild, Option.map_none, eq_comm, Option.map_eq_none_iff] at hfirst
      rw [List.filterMap_cons_none hchild, List.filterMap_cons_none hfirst, hrest]
    · rw [hchild, Option.map_some, eq_comm, Option.map_eq_some_iff] at hfirst
      obtain ⟨element', hchild', hsketch⟩ := hfirst
      have hname : element'.name = element.name := by
        have hnames := congrArg Element.name hsketch
        rwa [name_sketch, name_sketch] at hnames
      rw [List.filterMap_cons_some hchild, List.filterMap_cons_some hchild', List.filter_cons,
        List.filter_cons, hname]
      split
      · rw [List.map_cons, List.map_cons, hsketch, hrest]
      · exact hrest
  | [], _ :: _, h => by rw [Node.sameChildren] at h; cases h
  | _ :: _, [], h => by rw [Node.sameChildren] at h; cases h

end

/-- Equality up to the order of attributes leaves the sketch alone. -/
theorem sketch_eq_of_same {first second : Element} (h : first.same second = true) :
    settings.sketch depth first = settings.sketch depth second :=
  Option.some.inj (sketch_eq_of_same_node depth first.toNode second.toNode h)

/-! ## The definitions -/

theorem definitions_eq_of_sketch {first second : Element}
    (h : settings.sketch 1 first = settings.sketch 1 second) :
    settings.definitions first = settings.definitions second := by
  rw [← definitions_sketch first, h, definitions_sketch]

/-- **The definitions depend on nothing but what is read.**  Any number of edits anywhere in a
description, and any change to the order of attributes, leave its definitions as they are, and its
fault if it has one. -/
theorem definitions_insensitive (settings : Settings) (first second : Element) :
    (Relation.ReflTransGen (settings.Edit 1) first second →
      settings.definitions first = settings.definitions second) ∧
    (first.same second = true → settings.definitions first = settings.definitions second) := by
  refine ⟨?_, fun h => definitions_eq_of_sketch (sketch_eq_of_same h)⟩
  intro hedits
  refine definitions_eq_of_sketch ?_
  induction hedits with
  | refl => rfl
  | tail _ hedit ih => exact ih.trans (sketch_eq_of_edit hedit)

/-- A description with these nodes in its schema. -/
def descriptionOf (nodes : List Node) : Element :=
  ⟨"d", ∅, [.element "types" ∅ [.element "xsd:schema" ∅ nodes]]⟩

/-- An edit of the schema is an edit of the description. -/
theorem Edit.descriptionOf {nodes nodes' : List Node}
    (h : settings.Edit 3 ⟨"xsd:schema", ∅, nodes⟩ ⟨"xsd:schema", ∅, nodes'⟩) :
    settings.Edit 1 (descriptionOf nodes) (descriptionOf nodes') :=
  @Edit.child _ 1 "d" ∅ [] [] ⟨"types", ∅, [.element "xsd:schema" ∅ nodes]⟩
    ⟨"types", ∅, [.element "xsd:schema" ∅ nodes']⟩
    (@Edit.child _ 2 "types" ∅ [] [] ⟨"xsd:schema", ∅, nodes⟩ ⟨"xsd:schema", ∅, nodes'⟩ h)

/-- An annotation and a text are put in, and the attributes of the complex type change places. -/
theorem definitions_insensitive_annotated :
    ({} : Settings).definitions (descriptionOf
        [.element "xsd:annotation" ∅ [.text "note"], .text "layout",
          .element "xsd:complexType" ⟨[("id", "1"), ("name", "A")], by decide⟩ []]) =
      .ok [.record ⟨"A", none, []⟩] := by
  have hannotation := @Edit.element {} 3 "xsd:schema" ∅ []
    [.element "xsd:complexType" ⟨[("name", "A"), ("id", "1")], by decide⟩ []]
    ⟨"xsd:annotation", ∅, [.text "note"]⟩ (by decide)
  have htext := @Edit.text {} 3 "xsd:schema" ∅ [.element "xsd:annotation" ∅ [.text "note"]]
    [.element "xsd:complexType" ⟨[("name", "A"), ("id", "1")], by decide⟩ []] "layout"
  have hreorder := @Edit.child {} 3 "xsd:schema" ∅
    [.element "xsd:annotation" ∅ [.text "note"], .text "layout"] []
    ⟨"xsd:complexType", ⟨[("name", "A"), ("id", "1")], by decide⟩, []⟩
    ⟨"xsd:complexType", ⟨[("id", "1"), ("name", "A")], by decide⟩, []⟩
    (Edit.reorder (List.Perm.swap ..))
  have hedits := ((Relation.ReflTransGen.single hannotation.descriptionOf).tail
    htext.descriptionOf).tail hreorder.descriptionOf
  exact ((definitions_insensitive {} _ _).1 hedits).symm.trans (by rfl)

end Settings
end Schema
end ServiceTypes
