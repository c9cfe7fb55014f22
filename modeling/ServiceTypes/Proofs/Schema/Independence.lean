import ServiceTypes.Proofs.Schema.Contract
import ServiceTypes.Proofs.Xml.Edit

/-!
# Types are read one by one

What one type of a schema comes to does not depend on the others.  To say so, the description is
compared with those in which a single type is left: the others are taken out of the schema, and
everything else stays where it is.

* `Settings.mapSchema`: a description with its schema changed; `definitions_mapSchema` says what
  it comes to.
* `Settings.alone`: a description with a single type left.
* `definitions_eq_mapM`: the definitions of a description are those of its types, one after the
  other.
* `definitions_of_parts`: the definitions are those of the single types put together, the first
  fault among them is the fault, and the order between records and enumerations plays no part.
-/

namespace ServiceTypes
namespace Schema

open Xml

namespace Settings

/-! ## Names -/

/-- Schema names differ when their local parts do. -/
theorem schemaName_injective (settings : Settings) {first second : String}
    (h : settings.schemaName first = settings.schemaName second) : first = second := by
  unfold schemaName QName.join at h
  split at h
  · exact h
  · exact (String.append_right_inj _).mp h

theorem name_ne_of_ne (settings : Settings) {first second : Vocabulary}
    (h : first.localName ≠ second.localName) : settings.name first ≠ settings.name second :=
  fun heq => h (settings.schemaName_injective heq)

variable (settings : Settings)

/-! ## Changing the schema -/

/-- A description with its schema changed. -/
def mapSchema (change : Element → Element) (root : Element) : Element :=
  root.mapFirstChild "types" fun types => types.mapFirstChild (settings.name .schema) change

/-- The path to the schema of a description. -/
def schemaPath (root : Element) : Path :=
  ((Path.root root.name).child "types").child (settings.name .schema)

variable {settings}

theorem definitions_eq_of_schema {root types schema : Element}
    (htypes : root.firstChild? "types" = some types)
    (hschema : types.firstChild? (settings.name .schema) = some schema) :
    settings.definitions root = settings.schemaDefinitions (settings.schemaPath root) schema := by
  unfold Settings.definitions
  dsimp only
  rw [requireChild_eq_ok_iff.mpr htypes]
  show (requireChild types (settings.name .schema) ((Path.root root.name).child "types") >>=
    settings.schemaDefinitions (settings.schemaPath root)) = _
  rw [requireChild_eq_ok_iff.mpr hschema]
  rfl

/-- A changed schema is read in place of the old one. -/
theorem definitions_mapSchema {root types schema : Element}
    (htypes : root.firstChild? "types" = some types)
    (hschema : types.firstChild? (settings.name .schema) = some schema)
    {change : Element → Element} (hchange : ∀ element, (change element).name = element.name) :
    settings.definitions (settings.mapSchema change root) =
      settings.schemaDefinitions (settings.schemaPath root) (change schema) := by
  have htypes' : (settings.mapSchema change root).firstChild? "types" =
      some (types.mapFirstChild (settings.name .schema) change) := by
    have hname : ∀ types : Element,
        (types.mapFirstChild (settings.name .schema) change).name = types.name :=
      fun types => types.name_mapFirstChild _ change
    rw [mapSchema, Element.firstChild?_mapFirstChild hname, htypes]
    rfl
  have hschema' : (types.mapFirstChild (settings.name .schema) change).firstChild?
      (settings.name .schema) = some (change schema) := by
    rw [Element.firstChild?_mapFirstChild hchange, hschema]
    rfl
  exact definitions_eq_of_schema htypes' hschema'

/-! ## The types of a schema -/

/-- The types of a schema, the complex ones first. -/
def declarations (settings : Settings) (schema : Element) : List Element :=
  schema.childrenNamed (settings.name .complexType) ++
    schema.childrenNamed (settings.name .simpleType)

/-- The definition that a type comes to. -/
def declared (settings : Settings) (path : Path) (type : Element) : Except Fault Definition :=
  if type.name = settings.name .complexType then
    (settings.record path type).map Definition.record
  else (settings.enumeration path type).map Definition.enumeration

theorem name_of_mem_childrenNamed {element child : Element} {name : String}
    (h : child ∈ element.childrenNamed name) : child.name = name := by
  simpa using (List.mem_filter.mp h).2

theorem declared_complexType {path : Path} {type : Element}
    (h : type.name = settings.name .complexType) :
    settings.declared path type = (settings.record path type).map Definition.record :=
  if_pos h

theorem declared_simpleType {path : Path} {type : Element}
    (h : type.name = settings.name .simpleType) :
    settings.declared path type = (settings.enumeration path type).map Definition.enumeration := by
  refine if_neg ?_
  rw [h]
  exact settings.name_ne_of_ne (by decide)

/-- The definitions of a schema are those of its types, one after the other. -/
theorem schemaDefinitions_eq_mapM (path : Path) (schema : Element) :
    settings.schemaDefinitions path schema =
      settings.limits.require .definitions (settings.declarations schema).length >>= fun _ =>
        (settings.declarations schema).mapM (settings.declared path) := by
  have hrecords :
      (schema.childrenNamed (settings.name .complexType)).mapM (settings.declared path) =
        ((schema.childrenNamed (settings.name .complexType)).mapM (settings.record path)).map
          (List.map Definition.record) := by
    refine mapM_eq_map_of_forall₂ (List.forall₂_same.mpr ?_)
    intro type hmem
    exact declared_complexType (name_of_mem_childrenNamed hmem)
  have henumerations :
      (schema.childrenNamed (settings.name .simpleType)).mapM (settings.declared path) =
        ((schema.childrenNamed (settings.name .simpleType)).mapM (settings.enumeration path)).map
          (List.map Definition.enumeration) := by
    refine mapM_eq_map_of_forall₂ (List.forall₂_same.mpr ?_)
    intro type hmem
    exact declared_simpleType (name_of_mem_childrenNamed hmem)
  unfold schemaDefinitions declarations
  dsimp only
  rw [List.length_append, List.mapM_append, hrecords, henumerations]
  congr 1
  funext _
  rcases (schema.childrenNamed (settings.name .complexType)).mapM (settings.record path) with
    fault | records
  · rfl
  · rcases (schema.childrenNamed (settings.name .simpleType)).mapM (settings.enumeration path) with
      fault | enumerations <;> rfl

/-! ## A single type -/

/-- Whether a node declares a type. -/
def declares (settings : Settings) (node : Node) : Bool :=
  node.isNamed (settings.name .complexType) || node.isNamed (settings.name .simpleType)

/-- A schema in which no type is left but the one at a place. -/
def isolate (settings : Settings) (place : Nat) (schema : Element) : Element :=
  schema.withChildren
    ((schema.children.take place).filter (fun node => !settings.declares node) ++
      (schema.children[place]?).toList ++
      (schema.children.drop (place + 1)).filter (fun node => !settings.declares node))

@[simp] theorem name_isolate (settings : Settings) (place : Nat) (schema : Element) :
    (settings.isolate place schema).name = schema.name := rfl

/-- A description in which no type is left but the one at a place of the schema. -/
def alone (settings : Settings) (place : Nat) (root : Element) : Element :=
  settings.mapSchema (settings.isolate place) root

/-- Where the types stand in a schema, the complex ones first. -/
def places (settings : Settings) (schema : Element) : List Nat :=
  schema.placesOf (settings.name .complexType) ++ schema.placesOf (settings.name .simpleType)

theorem forall₂_places (schema : Element) :
    List.Forall₂
      (fun place type => schema.children[place]? = some type.toNode ∧
        (type.name = settings.name .complexType ∨ type.name = settings.name .simpleType))
      (settings.places schema) (settings.declarations schema) := by
  refine List.rel_append ?_ ?_
  · exact (schema.forall₂_placesOf _).imp fun _ _ h => ⟨h.1, Or.inl h.2⟩
  · exact (schema.forall₂_placesOf _).imp fun _ _ h => ⟨h.1, Or.inr h.2⟩

/-- Among nodes that declare no type there is none of the names of types. -/
theorem filter_isNamed_filter {name : String} (hname : ∀ node : Node, node.isNamed name = true →
    settings.declares node = true) (nodes : List Node) :
    (nodes.filter (fun node => !settings.declares node)).filter (Node.isNamed name) = [] := by
  rw [List.filter_filter, List.filter_eq_nil_iff]
  intro node _ hboth
  obtain ⟨hnamed, hother⟩ := Bool.and_eq_true_iff.mp hboth
  rw [hname node hnamed] at hother
  cases hother

theorem childrenNamed_isolate {schema type : Element} {place : Nat} {name : String}
    (hname : ∀ node : Node, node.isNamed name = true → settings.declares node = true)
    (hplace : schema.children[place]? = some type.toNode) :
    (settings.isolate place schema).childrenNamed name =
      if type.name = name then [type] else [] := by
  rw [Element.childrenNamed_eq, isolate, Element.withChildren]
  dsimp only
  rw [hplace, List.filter_append, List.filter_append, filter_isNamed_filter hname,
    filter_isNamed_filter hname, List.nil_append, List.append_nil, Option.toList_some]
  by_cases h : type.name = name
  · rw [if_pos h, List.filter_cons_of_pos (by simpa [Element.toNode] using h)]
    rfl
  · rw [if_neg h, List.filter_cons_of_neg (by simpa [Element.toNode] using h)]
    rfl

/-- In an isolated schema there is one type. -/
theorem declarations_isolate {schema type : Element} {place : Nat}
    (hplace : schema.children[place]? = some type.toNode)
    (hname : type.name = settings.name .complexType ∨ type.name = settings.name .simpleType) :
    settings.declarations (settings.isolate place schema) = [type] := by
  have hdiffer : settings.name .complexType ≠ settings.name .simpleType :=
    settings.name_ne_of_ne (by decide)
  have hcomplex : ∀ node : Node, node.isNamed (settings.name .complexType) = true →
      settings.declares node = true := fun node h => Bool.or_eq_true_iff.mpr (Or.inl h)
  have hsimple : ∀ node : Node, node.isNamed (settings.name .simpleType) = true →
      settings.declares node = true := fun node h => Bool.or_eq_true_iff.mpr (Or.inr h)
  rw [declarations, childrenNamed_isolate hcomplex hplace, childrenNamed_isolate hsimple hplace]
  rcases hname with hname | hname
  · rw [if_pos hname, if_neg (hname ▸ hdiffer), List.append_nil]
  · rw [if_neg (hname ▸ hdiffer.symm), if_pos hname, List.nil_append]

theorem schemaDefinitions_isolate {schema type : Element} {place : Nat} (path : Path)
    (hbound : 1 ≤ settings.limits.definitions)
    (hplace : schema.children[place]? = some type.toNode)
    (hname : type.name = settings.name .complexType ∨ type.name = settings.name .simpleType) :
    settings.schemaDefinitions path (settings.isolate place schema) =
      (settings.declared path type).map fun definition => [definition] := by
  have hrequire : settings.limits.require .definitions [type].length = .ok () :=
    Limits.require_eq_ok_iff.mpr hbound
  rw [schemaDefinitions_eq_mapM, declarations_isolate hplace hname, hrequire]
  show [type].mapM (settings.declared path) = _
  rw [List.mapM_cons, List.mapM_nil]
  rcases settings.declared path type with fault | definition <;> rfl

/-! ## All types -/

section Parts

variable {root types schema : Element} (htypes : root.firstChild? "types" = some types)
  (hschema : types.firstChild? (settings.name .schema) = some schema)

include htypes hschema

/-- The definitions of a description are those of its types, one after the other. -/
theorem definitions_eq_mapM
    (hcount : (settings.declarations schema).length ≤ settings.limits.definitions) :
    settings.definitions root =
      (settings.declarations schema).mapM (settings.declared (settings.schemaPath root)) := by
  have hrequire : settings.limits.require .definitions (settings.declarations schema).length =
      .ok () := Limits.require_eq_ok_iff.mpr hcount
  rw [definitions_eq_of_schema htypes hschema, schemaDefinitions_eq_mapM, hrequire]
  rfl

theorem definitions_of_lt
    (hcount : settings.limits.definitions < (settings.declarations schema).length) :
    settings.definitions root = .error (.limit
      ⟨.definitions, (settings.declarations schema).length, settings.limits.definitions⟩) := by
  have hbound : settings.limits.bound .definitions < (settings.declarations schema).length := hcount
  have hcheck := Limits.check_eq_error_iff.mpr ⟨hbound, rfl⟩
  rw [definitions_eq_of_schema htypes hschema, schemaDefinitions_eq_mapM, Limits.require, hcheck]
  rfl

/-- Each type alone comes to what it comes to among the others. -/
theorem forall₂_alone
    (hcount : (settings.declarations schema).length ≤ settings.limits.definitions) :
    List.Forall₂
      (fun place type => settings.definitions (settings.alone place root) =
        (settings.declared (settings.schemaPath root) type).map fun definition => [definition])
      (settings.places schema) (settings.declarations schema) := by
  have hplaces := settings.forall₂_places schema
  rcases hnil : settings.declarations schema with _ | ⟨first, rest⟩
  · rw [hnil] at hplaces
    rw [List.forall₂_nil_right_iff.mp hplaces]
    exact List.Forall₂.nil
  · rw [hnil, List.length_cons] at hcount
    rw [hnil] at hplaces
    refine hplaces.imp ?_
    rintro place type ⟨hplace, hname⟩
    rw [alone, definitions_mapSchema htypes hschema (settings.name_isolate place)]
    have hbound : 1 ≤ settings.limits.definitions := by omega
    exact schemaDefinitions_isolate _ hbound hplace hname

/-- The single types, one after the other, come to what the description comes to. -/
theorem mapM_alone
    (hcount : (settings.declarations schema).length ≤ settings.limits.definitions) :
    ((settings.places schema).mapM fun place => settings.definitions (settings.alone place root)) =
      (settings.definitions root).map (List.map fun definition => [definition]) := by
  rw [definitions_eq_mapM htypes hschema hcount]
  exact mapM_eq_map_of_forall₂ (forall₂_alone htypes hschema hcount)

/-- When no type alone has a fault, what they come to is put together. -/
theorem definitions_of_forall₂_alone
    (hcount : (settings.declarations schema).length ≤ settings.limits.definitions)
    {parts : List (List Definition)}
    (hparts : List.Forall₂
      (fun place part => settings.definitions (settings.alone place root) = .ok part)
      (settings.places schema) parts) :
    settings.definitions root = .ok parts.flatten := by
  have hall := mapM_eq_ok_iff.mpr hparts
  rw [mapM_alone htypes hschema hcount] at hall
  obtain ⟨definitions, hdefinitions, rfl⟩ := map_eq_ok_iff.mp hall
  rw [hdefinitions, ← List.flatMap_def, List.flatMap_singleton']

/-- The first type that alone has a fault decides. -/
theorem definitions_of_first_fault
    (hcount : (settings.declarations schema).length ≤ settings.limits.definitions)
    {before after : List Nat} {place : Nat} {fault : Fault}
    (hplaces : settings.places schema = before ++ place :: after)
    (hbefore : ∀ earlier ∈ before, ∃ part,
      settings.definitions (settings.alone earlier root) = .ok part)
    (hfault : settings.definitions (settings.alone place root) = .error fault) :
    settings.definitions root = .error fault := by
  have hfirst := mapM_eq_error_iff.mpr ⟨before, place, after, hplaces, hbefore, hfault⟩
  rw [mapM_alone htypes hschema hcount] at hfirst
  rcases hdefinitions : settings.definitions root with other | definitions
  · rw [hdefinitions] at hfirst
    obtain rfl := Except.error.inj hfirst
    rfl
  · rw [hdefinitions] at hfirst
    cases hfirst

/-- Only the order among the records, and that among the enumerations, plays a part. -/
theorem definitions_withChildren {children : List Node}
    (hcomplex : children.filter (Node.isNamed (settings.name .complexType)) =
      schema.children.filter (Node.isNamed (settings.name .complexType)))
    (hsimple : children.filter (Node.isNamed (settings.name .simpleType)) =
      schema.children.filter (Node.isNamed (settings.name .simpleType))) :
    settings.definitions
        (settings.mapSchema (fun element => element.withChildren children) root) =
      settings.definitions root := by
  have hname : ∀ element : Element, (element.withChildren children).name = element.name :=
    fun element => element.name_withChildren children
  have hdeclarations : settings.declarations (schema.withChildren children) =
      settings.declarations schema := by
    unfold declarations
    rw [Element.childrenNamed_eq, Element.childrenNamed_eq, Element.childrenNamed_eq,
      Element.childrenNamed_eq, ← hcomplex, ← hsimple]
    rfl
  rw [definitions_mapSchema htypes hschema hname, definitions_eq_of_schema htypes hschema,
    schemaDefinitions_eq_mapM, schemaDefinitions_eq_mapM, hdeclarations]

end Parts

/-- **Types are read one by one, and the first fault decides.**  In a schema with no more types
than allowed, the definitions are those of the single types put together, the complex types first,
and when some type alone has a fault then the first such fault is the fault of the whole.  With
more types than allowed nothing but that is told.  Either way the children of the schema can be
put in another order that keeps the order among the complex types and that among the simple
types. -/
theorem definitions_of_parts {root types schema : Element}
    (htypes : root.firstChild? "types" = some types)
    (hschema : types.firstChild? (settings.name .schema) = some schema) :
    ((settings.declarations schema).length ≤ settings.limits.definitions →
      (∀ parts,
        List.Forall₂ (fun place part => settings.definitions (settings.alone place root) = .ok part)
          (settings.places schema) parts →
        settings.definitions root = .ok parts.flatten) ∧
      (∀ before place after fault, settings.places schema = before ++ place :: after →
        (∀ earlier ∈ before, ∃ part,
          settings.definitions (settings.alone earlier root) = .ok part) →
        settings.definitions (settings.alone place root) = .error fault →
        settings.definitions root = .error fault)) ∧
    (settings.limits.definitions < (settings.declarations schema).length →
      settings.definitions root = .error (.limit
        ⟨.definitions, (settings.declarations schema).length, settings.limits.definitions⟩)) ∧
    (∀ children : List Node,
      children.filter (Node.isNamed (settings.name .complexType)) =
        schema.children.filter (Node.isNamed (settings.name .complexType)) →
      children.filter (Node.isNamed (settings.name .simpleType)) =
        schema.children.filter (Node.isNamed (settings.name .simpleType)) →
      settings.definitions
          (settings.mapSchema (fun element => element.withChildren children) root) =
        settings.definitions root) := by
  refine ⟨?_, definitions_of_lt htypes hschema, ?_⟩
  · intro hcount
    refine ⟨fun parts => definitions_of_forall₂_alone htypes hschema hcount, ?_⟩
    intro before place after fault hplaces hbefore hfault
    exact definitions_of_first_fault htypes hschema hcount hplaces hbefore hfault
  · intro children hcomplex hsimple
    exact definitions_withChildren htypes hschema hcomplex hsimple

/-- A schema with a simple type that has no name before a complex type that lacks nothing. -/
def nameless : Element :=
  ⟨"xsd:schema", ∅, [.element "xsd:simpleType" ∅ [],
    .element "xsd:complexType" ⟨[("name", "A")], by decide⟩ []]⟩

/-- The fault of the simple type is found after the complex type, at the schema. -/
theorem definitions_of_parts_nameless :
    ({} : Settings).definitions ⟨"definitions", ∅, [.element "types" ∅ [nameless.toNode]]⟩ =
      .error (.missingAttribute "xsd:simpleType" "name"
        (((Path.root "definitions").child "types").child "xsd:schema")) := by
  have hparts := @definitions_of_parts {}
    ⟨"definitions", ∅, [.element "types" ∅ [nameless.toNode]]⟩ ⟨"types", ∅, [nameless.toNode]⟩
    nameless (by rfl) (by rfl)
  refine (hparts.1 (by decide)).2 [1] 0 [] _ (by rfl) ?_ (by rfl)
  intro earlier hearlier
  obtain rfl := List.mem_singleton.mp hearlier
  exact ⟨[.record ⟨"A", none, []⟩], by rfl⟩

end Settings
end Schema
end ServiceTypes
