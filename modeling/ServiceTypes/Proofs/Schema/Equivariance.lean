import ServiceTypes.Proofs.Outcome
import ServiceTypes.Proofs.Refusal
import ServiceTypes.Proofs.Schema.Exchange

/-!
# Qualifiers are only names

When the qualifiers of a description are exchanged among themselves, and the two qualifiers of the
settings go along, so does the whole extraction.  Each of its functions, on exchanged input, has
the outcome that it has on the input itself, except that the names in the path and in the words of
a fault are exchanged as well.  The lemmas named `*_exchange` stand in the order of the functions.

* `Exchange.Follows`: settings after an exchange and before it.
* `definitions_exchange`: the extraction goes along with any exchange.
* `definitions_of_exchange`: the exchanged description has the same definitions, or a fault of the
  same kind.
-/

namespace ServiceTypes
namespace Schema

open Xml

namespace Exchange

variable (exchange : Exchange)

/-! ## Settings

The extraction looks at its settings in three ways only, and this is what an exchange does to
them. -/

/-- Settings after an exchange, and before it. -/
structure Follows (after before : Settings) : Prop where
  name : ∀ word, after.name word = exchange.name (before.name word)
  resolve : ∀ written, after.prefixes.resolve (exchange.name written) =
    (before.prefixes.resolve written).mapError fun unknown => ⟨exchange.name unknown.written⟩
  limits : after.limits = before.limits

theorem follows_qualified (schema declared : Qualifier) (limits : Limits) :
    exchange.Follows
      (Settings.qualified (exchange.qualifiers schema) (exchange.qualifiers declared) limits)
      (Settings.qualified schema declared limits) where
  name word := (exchange.join_exchange (by cases word <;> decide) schema).symm
  resolve := exchange.resolve_exchange schema declared
  limits := rfl

variable {exchange} {after before : Settings}

/-! ## The functions of the extraction -/

theorem typeAt_exchange (h : exchange.Follows after before) (path : Path) (written : String) :
    after.typeAt (exchange.path path) (exchange.name written) =
      (before.typeAt path written).mapError exchange.fault := by
  unfold Settings.typeAt
  rw [h.resolve]
  cases before.prefixes.resolve written <;> rfl

theorem member_exchange (h : exchange.Follows after before) (path : Path) (element : Element) :
    after.member (exchange.path path) (exchange.element element) =
      (before.member path element).mapError exchange.fault := by
  unfold Settings.member
  refine bind_eq_mapError _ (exchange.requireAttribute_exchange element "name" path) ?_
  intro name
  dsimp only
  rw [exchange.value_other (by decide), exchange.attribute?_exchange element "maxOccurs"]
  have hpath : (exchange.path path).declaration (exchange.element element).name name =
      exchange.path (path.declaration element.name name) :=
    exchange.path_declaration path element.name name
  rw [hpath]
  refine bind_eq_mapError _ (exchange.requireAttribute_exchange element "type" _) ?_
  intro written
  rw [exchange.value_reference (by decide)]
  refine bind_same_eq_mapError (typeAt_exchange h _ written) ?_
  intro type
  cases element.attribute? "maxOccurs" <;> rfl

theorem members_exchange (h : exchange.Follows after before) (path : Path) (sequence : Element) :
    after.members (exchange.path path) (exchange.element sequence) =
      (before.members path sequence).mapError exchange.fault := by
  unfold Settings.members
  rw [h.name, childrenNamed_exchange]
  exact mapM_map_eq_mapError fun element _ => member_exchange h path element

theorem content_exchange (h : exchange.Follows after before) (path : Path)
    (complexType : Element) :
    after.content (exchange.path path) (exchange.element complexType) =
      ((before.content path complexType).mapError exchange.fault).map exchange.content := by
  unfold Settings.content
  rw [h.name, h.name, h.name, firstChild?_exchange, firstChild?_exchange]
  rcases complexType.firstChild? (before.name .sequence) with _ | sequence
  · rcases complexType.firstChild? (before.name .complexContent) with _ | complexContent
    · rfl
    · dsimp only [Option.map_some, Option.map_none]
      rw [path_child, path_child, requireChild_exchange]
      generalize path.child (before.name .complexContent) = path
      rcases requireChild complexContent (before.name .extension) path with fault | extension
      · rfl
      · have hbase := exchange.requireAttribute_exchange extension "base"
          (path.child (before.name .extension))
        have hsequence := exchange.firstChild?_exchange extension (before.name .sequence)
        dsimp only [Except.mapError, Except.map, bind, Except.bind]
        rw [hbase, hsequence, path_child]
        generalize path.child (before.name .extension) = path
        rcases requireAttribute extension "base" path with fault | base
        · rfl
        · have hbare : QName.localOf (exchange.value "base" base) = QName.localOf base := by
            rw [exchange.value_reference (by decide), localOf_exchange]
          dsimp only [Except.mapError, Except.map]
          rw [hbare]
          cases extension.firstChild? (before.name .sequence) <;> rfl
  · rw [path_child]
    rfl

theorem record_exchange (h : exchange.Follows after before) (path : Path)
    (complexType : Element) :
    after.record (exchange.path path) (exchange.element complexType) =
      (before.record path complexType).mapError exchange.fault := by
  unfold Settings.record
  refine bind_eq_mapError _ (exchange.requireAttribute_exchange complexType "name" path) ?_
  intro name
  have hpath : (exchange.path path).declaration (exchange.element complexType).name name =
      exchange.path (path.declaration complexType.name name) :=
    exchange.path_declaration path complexType.name name
  rw [exchange.value_other (by decide), hpath]
  refine bind_eq_mapError _ (content_exchange h _ complexType) ?_
  intro content
  obtain ⟨base, sequence⟩ := content
  rcases sequence with _ | ⟨sequence, path⟩
  · rfl
  · refine bind_same_eq_mapError (members_exchange h path sequence) ?_
    intro members
    rfl

theorem facet_exchange (path : Path) (element : Element) :
    Settings.facet (exchange.path path) (exchange.element element) =
      (Settings.facet path element).mapError exchange.fault := by
  unfold Settings.facet
  have hpath : (exchange.path path).child (exchange.element element).name =
      exchange.path (path.child element.name) := exchange.path_child path element.name
  rw [hpath, exchange.requireAttribute_exchange]
  rcases requireAttribute element "value" (path.child element.name) with fault | value
  · rfl
  · exact congrArg Except.ok (exchange.value_other (by decide) value)

theorem enumeration_exchange (h : exchange.Follows after before) (path : Path)
    (simpleType : Element) :
    after.enumeration (exchange.path path) (exchange.element simpleType) =
      (before.enumeration path simpleType).mapError exchange.fault := by
  unfold Settings.enumeration
  refine bind_eq_mapError _ (exchange.requireAttribute_exchange simpleType "name" path) ?_
  intro name
  have hpath : (exchange.path path).declaration (exchange.element simpleType).name name =
      exchange.path (path.declaration simpleType.name name) :=
    exchange.path_declaration path simpleType.name name
  dsimp only
  rw [exchange.value_other (by decide), hpath, h.name, h.name, path_child]
  refine bind_eq_mapError _ (exchange.requireChild_exchange simpleType _ _) ?_
  intro restriction
  refine bind_eq_mapError _ (exchange.requireAttribute_exchange restriction "base" _) ?_
  intro base
  rw [exchange.value_reference (by decide), childrenNamed_exchange]
  refine bind_same_eq_mapError (typeAt_exchange h _ base) ?_
  intro type
  refine bind_same_eq_mapError (mapM_map_eq_mapError fun element _ => facet_exchange _ element) ?_
  intro values
  rfl

theorem schemaDefinitions_exchange (h : exchange.Follows after before) (path : Path)
    (schema : Element) :
    after.schemaDefinitions (exchange.path path) (exchange.element schema) =
      (before.schemaDefinitions path schema).mapError exchange.fault := by
  unfold Settings.schemaDefinitions
  dsimp only
  rw [h.name, h.name, h.limits, childrenNamed_exchange, childrenNamed_exchange, List.length_map,
    List.length_map]
  refine bind_same_eq_mapError ?_ ?_
  · rcases hrequire : before.limits.require .definitions _ with fault | answer
    · obtain ⟨excess, rfl⟩ := Limits.limit_of_require_eq_error hrequire
      rfl
    · rfl
  intro _
  refine bind_same_eq_mapError
    (mapM_map_eq_mapError fun complexType _ => record_exchange h path complexType) ?_
  intro records
  refine bind_same_eq_mapError
    (mapM_map_eq_mapError fun simpleType _ => enumeration_exchange h path simpleType) ?_
  intro enumerations
  rfl

/-- The whole extraction goes along with an exchange. -/
theorem definitions_exchange (h : exchange.Follows after before) (root : Element) :
    after.definitions (exchange.element root) =
      (before.definitions root).mapError exchange.fault := by
  have htypes : exchange.name "types" = "types" := exchange.name_plain (by decide)
  have hroot : Path.root (exchange.element root).name = exchange.path (Path.root root.name) := rfl
  have hchild := exchange.requireChild_exchange root "types" (Path.root root.name)
  rw [htypes] at hchild
  unfold Settings.definitions
  dsimp only
  rw [hroot, h.name]
  refine bind_eq_mapError _ hchild ?_
  intro types
  have hpath := exchange.path_child (Path.root root.name) "types"
  rw [htypes] at hpath
  rw [hpath, path_child]
  refine bind_eq_mapError _ (exchange.requireChild_exchange types _ _) ?_
  intro schema
  exact schemaDefinitions_exchange h _ schema

end Exchange

namespace Settings

/-- **Qualifiers are only names.**  A description in which the qualifiers are exchanged, read under
exchanged qualifiers and the same limits, has the definitions that it had, and when it has none the
fault is of the kind that it was, with the names in it exchanged. -/
theorem definitions_of_exchange (exchange : Exchange) (schema declared : Qualifier)
    (limits : Limits) (root : Element) :
    let before := Settings.qualified schema declared limits
    let after :=
      Settings.qualified (exchange.qualifiers schema) (exchange.qualifiers declared) limits
    (∀ definitions, after.definitions (exchange.element root) = .ok definitions ↔
      before.definitions root = .ok definitions) ∧
    ∀ fault, before.definitions root = .error fault →
      after.definitions (exchange.element root) = .error (exchange.fault fault) ∧
        (exchange.fault fault).diagnostic.SameKind fault.diagnostic := by
  intro before after
  have houtcome : after.definitions (exchange.element root) =
      (before.definitions root).mapError exchange.fault :=
    Exchange.definitions_exchange (exchange.follows_qualified schema declared limits) root
  rw [houtcome]
  rcases before.definitions root with found | found
  · refine ⟨fun definitions => ⟨nofun, nofun⟩, ?_⟩
    rintro fault ⟨⟩
    exact ⟨rfl, exchange.sameKind_fault found⟩
  · exact ⟨fun definitions => Iff.rfl, nofun⟩

end Settings
end Schema
end ServiceTypes
