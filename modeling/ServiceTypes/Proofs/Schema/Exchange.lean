import Mathlib.Logic.Equiv.Defs
import ServiceTypes.Proofs.Schema.Naming
import ServiceTypes.Proofs.Schema.Sketch

/-!
# Exchanges of qualifiers

A qualifier stands for no address, so any other could stand in its place, as long as it does so
everywhere.  An exchange of the qualifiers among themselves is carried out in the names of all
elements of a description and in the values of `type` and `base`, where references to types are
written.  Only the empty qualifier has to stay, since it is the one that is not written in the
name of an element.

What looks at one name, or at one element, goes along with an exchange.  A lemma named
`*_exchange` says so for each function: on exchanged input it has the outcome that it has on the
input itself, exchanged, and the names in the path of a fault are exchanged as well.

* `Qualifier`, `Exchange`: what can stand before a colon, and an exchange of these.
* `Exchange.name`, `Exchange.element`, `Exchange.fault`: an exchange carried out in a name, in a
  tree and in a fault.
* `Exchange.name_injective`: names that differ still do.
* `localIn?_exchange`, `resolve_exchange`: an exchanged name has the exchanged qualifier, and an
  exchanged reference comes to what it came to.
* `childrenNamed_exchange`, `attribute?_exchange`: the parts of an exchanged element.
-/

namespace ServiceTypes

/-- Two diagnostics of one kind. -/
inductive Diagnostic.SameKind : Diagnostic → Diagnostic → Prop
  | malformedSchema (detail detail' : String) (path path' : Option String) :
    SameKind (.malformedSchema detail path) (.malformedSchema detail' path')
  | unknownType (spelling spelling' : String) (path path' : Option String) :
    SameKind (.unknownType spelling path) (.unknownType spelling' path')
  | xml (detail detail' : String) : SameKind (.xml detail) (.xml detail')
  | limitExceeded (detail detail' : String) :
    SameKind (.limitExceeded detail) (.limitExceeded detail')

namespace Schema

open Xml

/-! ## Exchanges -/

/-- A text that can stand before the first colon of a name. -/
structure Qualifier where
  text : String
  plain : ':' ∉ text.toList
  deriving DecidableEq

namespace Qualifier

/-- The empty qualifier. -/
def empty : Qualifier where
  text := ""
  plain := by decide

/-- What stands before the first colon of a name, or all of it. -/
def ofName (written : String) : Qualifier where
  text := String.ofList (written.toList.takeWhile QName.isQualifier)
  plain := by
    rw [String.toList_ofList]
    intro hmem
    have hcolon := List.mem_takeWhile_imp hmem
    revert hcolon
    decide

theorem ofName_qualified (qualifier : Qualifier) (localPart : String) :
    ofName (qualifier.text ++ ":" ++ localPart) = qualifier := by
  obtain ⟨text, hplain⟩ := qualifier
  have htake := Text.takeWhile_append_stop (QName.isQualifier_of_not_mem hplain)
    (show QName.isQualifier ':' = false by decide) localPart.toList
  simp only [ofName, QName.toList_qualified, htake, String.ofList_toList]

theorem text_inj {first second : Qualifier} : first.text = second.text ↔ first = second := by
  obtain ⟨first, hfirst⟩ := first
  obtain ⟨second, hsecond⟩ := second
  simp

end Qualifier

/-- Settings with two qualifiers. -/
def Settings.qualified (schema declared : Qualifier) (limits : Limits) : Settings where
  prefixes := ⟨schema.text, declared.text⟩
  limits := limits

/-- An exchange of the qualifiers among themselves in which the empty one stays. -/
structure Exchange where
  qualifiers : Equiv.Perm Qualifier
  empty : qualifiers .empty = .empty

namespace Exchange

variable (exchange : Exchange)

/-- A name with its qualifier exchanged; a name without a colon has none. -/
def name (written : String) : String :=
  match (QName.ofString written).qualifier with
  | none => written
  | some _ => (exchange.qualifiers (.ofName written)).text ++ ":" ++ QName.localOf written

/-- The value of an attribute: that of `type` and that of `base` is a name. -/
def value (key written : String) : String :=
  if key = "type" ∨ key = "base" then exchange.name written else written

/-- The attributes of an element. -/
def attributes (attributes : Attributes) : Attributes where
  entries := attributes.entries.map fun entry => (entry.1, exchange.value entry.1 entry.2)
  nodup := by
    rw [List.map_map]
    exact attributes.nodup

theorem value_reference {key : String} (h : key = "type" ∨ key = "base") (written : String) :
    exchange.value key written = exchange.name written :=
  if_pos h

theorem value_other {key : String} (h : ¬ (key = "type" ∨ key = "base")) (written : String) :
    exchange.value key written = written :=
  if_neg h

mutual

/-- A node, throughout. -/
def node : Node → Node
  | .element name attributes children =>
    .element (exchange.name name) (exchange.attributes attributes) (nodes children)
  | .text content => .text content

/-- Nodes, throughout. -/
def nodes : List Node → List Node
  | [] => []
  | child :: children => node child :: nodes children

end

/-- An element, throughout. -/
def element (element : Element) : Element where
  name := exchange.name element.name
  attributes := exchange.attributes element.attributes
  children := exchange.nodes element.children

/-- A path; the names that are declared on the way stay. -/
def path (path : Path) : Path where
  steps := path.steps.map fun step => ⟨exchange.name step.element, step.declared⟩

/-- A fault. -/
def fault : Fault → Fault
  | .missingElement element path => .missingElement (exchange.name element) (exchange.path path)
  | .missingAttribute element key path =>
    .missingAttribute (exchange.name element) key (exchange.path path)
  | .unknownType written path => .unknownType (exchange.name written) (exchange.path path)
  | .xml defect => .xml defect
  | .limit excess => .limit excess

/-- The kind of a fault stays. -/
theorem sameKind_fault (fault : Fault) :
    (exchange.fault fault).diagnostic.SameKind fault.diagnostic := by
  cases fault <;> constructor

/-! ## Names -/

theorem name_qualified (qualifier : Qualifier) (localPart : String) :
    exchange.name (qualifier.text ++ ":" ++ localPart) =
      (exchange.qualifiers qualifier).text ++ ":" ++ localPart := by
  rw [name, QName.localOf, QName.ofString_qualified qualifier.plain,
    Qualifier.ofName_qualified]

theorem name_plain {written : String} (h : ':' ∉ written.toList) :
    exchange.name written = written := by
  rw [name, QName.ofString_plain h]

/-- A name has one of the two forms, and keeps it. -/
theorem name_cases (written : String) :
    (':' ∉ written.toList ∧ exchange.name written = written) ∨
      ∃ (qualifier : Qualifier) (localPart : String),
        written = qualifier.text ++ ":" ++ localPart ∧
        exchange.name written = (exchange.qualifiers qualifier).text ++ ":" ++ localPart := by
  rcases QName.ofString_cases written with hplain | ⟨qualifier, localPart, hqualifier, rfl⟩
  · exact Or.inl ⟨hplain, exchange.name_plain hplain⟩
  · exact Or.inr ⟨⟨qualifier, hqualifier⟩, localPart, rfl,
      exchange.name_qualified ⟨qualifier, hqualifier⟩ localPart⟩

theorem colon_mem_qualified (qualifier localPart : String) :
    ':' ∈ (qualifier ++ ":" ++ localPart).toList := by
  rw [QName.toList_qualified]
  exact List.mem_append_right _ (List.mem_cons_self ..)

/-- Names that differ still do. -/
theorem name_injective : Function.Injective exchange.name := by
  intro first second h
  rcases exchange.name_cases first with ⟨hplain, hfirst⟩ | ⟨qualifier, localPart, rfl, hfirst⟩
  · rcases exchange.name_cases second with ⟨-, hsecond⟩ | ⟨qualifier, localPart, rfl, hsecond⟩
    · rwa [hfirst, hsecond] at h
    · rw [hfirst, hsecond] at h
      rw [h] at hplain
      exact absurd (colon_mem_qualified _ _) hplain
  · rcases exchange.name_cases second with ⟨hplain, hsecond⟩ | ⟨other, localPart', rfl, hsecond⟩
    · rw [hfirst, hsecond] at h
      rw [← h] at hplain
      exact absurd (colon_mem_qualified _ _) hplain
    · rw [hfirst, hsecond] at h
      have hdivided := congrArg QName.ofString h
      rw [QName.ofString_qualified (exchange.qualifiers qualifier).plain,
        QName.ofString_qualified (exchange.qualifiers other).plain] at hdivided
      obtain ⟨hqualifier, rfl⟩ := QName.mk.inj hdivided
      obtain rfl := exchange.qualifiers.injective
        (Qualifier.text_inj.mp (Option.some.inj hqualifier))
      rfl

theorem beq_name (first second : String) :
    (exchange.name first == exchange.name second) = (first == second) := by
  rw [Bool.eq_iff_iff, beq_iff_eq, beq_iff_eq]
  exact exchange.name_injective.eq_iff

/-- The local part of a name stays. -/
theorem localOf_exchange (written : String) :
    QName.localOf (exchange.name written) = QName.localOf written := by
  rcases exchange.name_cases written with ⟨-, hname⟩ | ⟨qualifier, localPart, rfl, hname⟩
  · rw [hname]
  · rw [hname, QName.localOf, QName.localOf, QName.ofString_qualified qualifier.plain,
      QName.ofString_qualified (exchange.qualifiers qualifier).plain]

/-- **An exchanged name has the exchanged qualifier**, with the local part that it had. -/
theorem localIn?_exchange (qualifier : Qualifier) (written : String) :
    QName.localIn? (exchange.qualifiers qualifier).text (exchange.name written) =
      QName.localIn? qualifier.text written := by
  rcases exchange.name_cases written with ⟨hplain, hname⟩ | ⟨other, localPart, rfl, hname⟩
  · rw [hname, QName.localIn?, QName.localIn?, QName.ofString_plain hplain]
    rfl
  · have hsame : some (exchange.qualifiers other).text =
        some (exchange.qualifiers qualifier).text ↔ some other.text = some qualifier.text := by
      rw [Option.some_inj, Option.some_inj, Qualifier.text_inj, Qualifier.text_inj]
      exact exchange.qualifiers.injective.eq_iff
    rw [hname, QName.localIn?, QName.localIn?, QName.ofString_qualified other.plain,
      QName.ofString_qualified (exchange.qualifiers other).plain]
    simp only [hsame]

/-- **An exchanged reference comes to what it came to.** -/
theorem resolve_exchange (schema declared : Qualifier) (written : String) :
    Prefixes.resolve ⟨(exchange.qualifiers schema).text, (exchange.qualifiers declared).text⟩
        (exchange.name written) =
      (Prefixes.resolve ⟨schema.text, declared.text⟩ written).mapError
        fun unknown => ⟨exchange.name unknown.written⟩ := by
  unfold Prefixes.resolve
  rw [exchange.localIn?_exchange, exchange.localIn?_exchange]
  dsimp only
  rcases (QName.localIn? schema.text written).bind Primitive.ofBuiltIn? with _ | primitive
  · rcases QName.localIn? declared.text written with _ | name <;> rfl
  · rfl

/-- The empty qualifier is left out before and after. -/
theorem join_exchange {localPart : String} (hlocal : ':' ∉ localPart.toList)
    (qualifier : Qualifier) :
    exchange.name (QName.join qualifier.text localPart) =
      QName.join (exchange.qualifiers qualifier).text localPart := by
  have hempty : (exchange.qualifiers qualifier).text = "" ↔ qualifier.text = "" := by
    rw [show "" = Qualifier.empty.text from rfl, Qualifier.text_inj, Qualifier.text_inj]
    constructor
    · intro h
      exact exchange.qualifiers.injective (h.trans exchange.empty.symm)
    · rintro rfl
      exact exchange.empty
  unfold QName.join
  by_cases h : qualifier.text = ""
  · rw [if_pos h, if_pos (hempty.mpr h), exchange.name_plain hlocal]
  · rw [if_neg h, if_neg (mt hempty.mp h), exchange.name_qualified]

/-! ## Trees -/

theorem nodes_eq_map (children : List Node) :
    exchange.nodes children = children.map exchange.node := by
  induction children with
  | nil => rw [nodes, List.map_nil]
  | cons child children ih => rw [nodes, List.map_cons, ih]

theorem asElement?_node (node : Node) :
    (exchange.node node).asElement? = node.asElement?.map exchange.element := by
  cases node with
  | element name attributes children => rw [Exchange.node]; rfl
  | text content => rw [Exchange.node]; rfl

theorem elements_exchange (element : Element) :
    (exchange.element element).elements = element.elements.map exchange.element := by
  unfold Element.elements Exchange.element
  dsimp only
  rw [nodes_eq_map, List.filterMap_map, List.map_filterMap]
  congr 1
  funext node
  exact exchange.asElement?_node node

theorem childrenNamed_exchange (element : Element) (name : String) :
    (exchange.element element).childrenNamed (exchange.name name) =
      (element.childrenNamed name).map exchange.element := by
  unfold Element.childrenNamed
  rw [elements_exchange, List.filter_map]
  congr 1
  refine List.filter_congr fun child _ => ?_
  exact exchange.beq_name child.name name

theorem firstChild?_exchange (element : Element) (name : String) :
    (exchange.element element).firstChild? (exchange.name name) =
      (element.firstChild? name).map exchange.element := by
  rw [Element.firstChild?_eq_head?, childrenNamed_exchange, List.head?_map,
    Element.firstChild?_eq_head?]

theorem attribute?_exchange (element : Element) (key : String) :
    (exchange.element element).attribute? key =
      (element.attribute? key).map (exchange.value key) := by
  unfold Element.attribute? Attributes.get? Exchange.element Exchange.attributes
  dsimp only
  induction element.attributes.entries with
  | nil => rfl
  | cons entry entries ih =>
    rw [List.map_cons, List.lookup_cons, List.lookup_cons, ih]
    by_cases h : key = entry.1
    · subst h
      simp
    · rw [beq_false_of_ne h]

theorem path_child (path : Path) (name : String) :
    (exchange.path path).child (exchange.name name) = exchange.path (path.child name) := by
  simp [Exchange.path, Path.child]

theorem path_declaration (path : Path) (element name : String) :
    (exchange.path path).declaration (exchange.name element) name =
      exchange.path (path.declaration element name) := by
  simp [Exchange.path, Path.declaration]

theorem requireChild_exchange (element : Element) (name : String) (path : Path) :
    requireChild (exchange.element element) (exchange.name name) (exchange.path path) =
      ((requireChild element name path).mapError exchange.fault).map exchange.element := by
  unfold requireChild
  rw [firstChild?_exchange]
  cases element.firstChild? name <;> rfl

theorem requireAttribute_exchange (element : Element) (key : String) (path : Path) :
    requireAttribute (exchange.element element) key (exchange.path path) =
      ((requireAttribute element key path).mapError exchange.fault).map (exchange.value key) := by
  unfold requireAttribute
  rw [attribute?_exchange]
  cases element.attribute? key <;> rfl

/-- Where a complex type has its members, throughout. -/
def content (content : Content) : Content where
  base := content.base
  sequence := content.sequence.map fun sequence =>
    (exchange.element sequence.1, exchange.path sequence.2)

end Exchange
end Schema
end ServiceTypes
