import ServiceTypes.Proofs.Schema.Independence
import ServiceTypes.Proofs.Xml.Acceptance

/-!
# Limits refuse, and change nothing else

Counts are tested in four places: the size of a text before it is read, the depth of a tag and
then the number of its attributes while the tree is built, and the number of types before a schema
is read.  What these tests add up to can be said of the finished tree alone.

The idea is to compare two readings of one text that differ in the limits only.  `SameOrRefused`
holds of two outcomes when they are the same unless one of them is the refusal of a count.  It
passes through every chain of steps (`SameOrRefused.bind`), and the tests are the only steps that
differ, so it holds of the two readings as a whole (`sameOrRefused_parse`,
`sameOrRefused_definitionsOfText`).  What is left is to say under which limits there is no
refusal, and `Element.parse_eq_ok_iff` says so for the tree.

* `limits_filter`: a text that can be read under some limits can be read under others exactly when
  its size, its elements and its types keep within these, and comes to the same then; else it is
  refused for a count.
-/

namespace ServiceTypes

variable {α β : Type}

/-! ## Outcomes under two limits -/

/-- An outcome that is the refusal of a count. -/
def Refused (outcome : Except Fault α) : Prop :=
  ∃ excess, outcome = .error (.limit excess)

/-- Two outcomes that are the same unless one of them is the refusal of a count. -/
def SameOrRefused (first second : Except Fault α) : Prop :=
  first = second ∨ Refused first ∨ Refused second

theorem Refused.bind {step : Except Fault α} (h : Refused step) (next : α → Except Fault β) :
    Refused (step >>= next) := by
  obtain ⟨excess, rfl⟩ := h
  exact ⟨excess, rfl⟩

theorem not_refused_ok (answer : α) : ¬ Refused (.ok answer : Except Fault α) := by
  rintro ⟨excess, h⟩
  cases h

namespace SameOrRefused

theorem refl (outcome : Except Fault α) : SameOrRefused outcome outcome :=
  Or.inl rfl

/-- Chains of steps that are the same unless refused are so as a whole. -/
theorem bind {first second : Except Fault α} {next next' : α → Except Fault β}
    (h : SameOrRefused first second) (hnext : ∀ a, SameOrRefused (next a) (next' a)) :
    SameOrRefused (first >>= next) (second >>= next') := by
  rcases h with rfl | hfirst | hsecond
  · rcases first with fault | a
    · exact refl _
    · exact hnext a
  · exact Or.inr (Or.inl (hfirst.bind next))
  · exact Or.inr (Or.inr (hsecond.bind next'))

/-- Beside an answer there is the same answer or a refusal. -/
theorem eq_or_refused {first : Except Fault α} {answer : α}
    (h : SameOrRefused first (.ok answer)) : first = .ok answer ∨ Refused first := by
  rcases h with h | h | h
  · exact Or.inl h
  · exact Or.inr h
  · exact absurd h (not_refused_ok answer)

theorem eq_of_ok {answer answer' : α}
    (h : SameOrRefused (.ok answer : Except Fault α) (.ok answer')) : answer = answer' := by
  rcases h.eq_or_refused with h | h
  · exact Except.ok.inj h
  · exact absurd h (not_refused_ok answer)

/-- When one of two outcomes is known, it is enough to know when the other is an answer. -/
theorem refused_of_not {first : Except Fault α} {answer : α} {kept : Prop}
    (h : SameOrRefused first (.ok answer)) (hiff : first = .ok answer ↔ kept) (hnot : ¬ kept) :
    Refused first := by
  rcases h.eq_or_refused with h | h
  · exact absurd (hiff.mp h) hnot
  · exact h

end SameOrRefused

variable {limits other : Limits}

/-- A test of a count passes or refuses. -/
theorem sameOrRefused_require (limit : Limit) (count : Nat) :
    SameOrRefused (limits.require limit count) (other.require limit count) := by
  have hcases : ∀ limits : Limits,
      limits.require limit count = .ok () ∨ Refused (limits.require limit count) := by
    intro limits
    rcases hrequire : limits.require limit count with fault | ⟨⟩
    · obtain ⟨excess, rfl⟩ := Limits.limit_of_require_eq_error hrequire
      exact Or.inr ⟨excess, rfl⟩
    · exact Or.inl rfl
  rcases hcases limits with hfirst | hfirst
  · rcases hcases other with hsecond | hsecond
    · exact Or.inl (hfirst.trans hsecond.symm)
    · exact Or.inr (Or.inr hsecond)
  · exact Or.inr (Or.inl hfirst)

/-! ## The tree -/

namespace Xml

namespace Builder

theorem sameOrRefused_openElement (builder : Builder) (tag : Tag) :
    SameOrRefused (builder.openElement limits tag) (builder.openElement other tag) :=
  (sameOrRefused_require _ _).bind fun _ => (SameOrRefused.refl _).bind fun _ =>
    (sameOrRefused_require _ _).bind fun _ => SameOrRefused.refl _

/-- Only tags are tested. -/
theorem sameOrRefused_take (builder : Builder) (event : Event) :
    SameOrRefused (builder.take limits event) (builder.take other event) := by
  cases event with
  | startTag tag => exact (sameOrRefused_openElement builder tag).bind fun _ => .refl _
  | emptyTag tag => exact (sameOrRefused_openElement builder tag).bind fun _ => .refl _
  | _ => exact .refl _

theorem sameOrRefused_foldlM_take (builder : Builder) (events : List Event) :
    SameOrRefused (events.foldlM (take limits) builder) (events.foldlM (take other) builder) := by
  induction events generalizing builder with
  | nil => exact .refl _
  | cons event events ih =>
    rw [List.foldlM_cons, List.foldlM_cons]
    exact (sameOrRefused_take builder event).bind ih

end Builder

/-- **Two limits never make two trees of one text**, nor two defects. -/
theorem sameOrRefused_parse (text : String) :
    SameOrRefused (Element.parse limits text) (Element.parse other text) := by
  rw [Element.parse_eq, Element.parse_eq]
  refine (sameOrRefused_require _ _).bind fun _ => ?_
  rw [Transcript.root_eq_bind, Transcript.root_eq_bind]
  exact (Builder.sameOrRefused_foldlM_take _ _).bind fun _ => .refl _

/-- A text that is no document has a defect or is refused for a count. -/
theorem xml_or_limit_of_parse_eq_error {text : String} {fault : Fault}
    (h : Element.parse limits text = .error fault) :
    (∃ defect, fault = .xml defect) ∨ ∃ excess, fault = .limit excess := by
  -- limits of the size of the text refuse nothing
  let roomy : Limits := ⟨text.utf8ByteSize, text.utf8ByteSize, text.utf8ByteSize,
    text.utf8ByteSize⟩
  have hroom : ∀ limit, text.utf8ByteSize ≤ roomy.bound limit := by
    intro limit
    cases limit <;> exact Nat.le_refl _
  have hsame : SameOrRefused (Element.parse limits text) (Element.parse roomy text) :=
    sameOrRefused_parse text
  rw [h] at hsame
  rcases hsame with hroomy | ⟨excess, hexcess⟩ | ⟨excess, hexcess⟩
  · exact Or.inl (xml_of_parse_eq_error hroom hroomy.symm)
  · exact Or.inr ⟨excess, Except.error.inj hexcess⟩
  · obtain ⟨defect, hdefect⟩ := xml_of_parse_eq_error hroom hexcess
    cases hdefect

/-- A tree that a text has under some limits is its tree under others exactly when these admit
it. -/
theorem Element.parse_eq_ok_iff_within {text : String} {root : Element}
    (h : Element.parse other text = .ok root) :
    Element.parse limits text = .ok root ↔
      text.utf8ByteSize ≤ limits.size ∧ root.Within limits := by
  obtain ⟨-, hending, htokens, -⟩ := Element.parse_eq_ok_iff.mp h
  rw [Element.parse_eq_ok_iff]
  exact ⟨fun ⟨hsize, _, _, hwithin⟩ => ⟨hsize, hwithin⟩,
    fun ⟨hsize, hwithin⟩ => ⟨hsize, hending, htokens, hwithin⟩⟩

mutual

theorem Node.within_of_le (hle : ∀ limit, limits.bound limit ≤ other.bound limit) (depth : Nat) :
    ∀ node : Node, node.Within limits depth → node.Within other depth
  | .text _, _ => by rw [Node.Within]; trivial
  | .element _ attributes children, h => by
    rw [Node.Within] at h ⊢
    obtain ⟨hdepth, hsize, hforest⟩ := h
    exact ⟨Nat.le_trans hdepth (hle .depth), Nat.le_trans hsize (hle .attributes),
      Node.forestWithin_of_le hle (depth + 1) children hforest⟩

theorem Node.forestWithin_of_le (hle : ∀ limit, limits.bound limit ≤ other.bound limit)
    (depth : Nat) :
    ∀ nodes : List Node, Node.ForestWithin limits depth nodes → Node.ForestWithin other depth nodes
  | [], _ => by rw [Node.ForestWithin]; trivial
  | child :: children, h => by
    rw [Node.ForestWithin] at h ⊢
    exact ⟨Node.within_of_le hle depth child h.1, Node.forestWithin_of_le hle depth children h.2⟩

end

/-- A larger limit loses no tree. -/
theorem Element.parse_of_le (hle : ∀ limit, limits.bound limit ≤ other.bound limit) {text : String}
    {root : Element} (h : Element.parse limits text = .ok root) :
    Element.parse other text = .ok root := by
  obtain ⟨hsize, -, -, hwithin⟩ := Element.parse_eq_ok_iff.mp h
  exact (Element.parse_eq_ok_iff_within h).mpr
    ⟨Nat.le_trans hsize (hle .size), Node.within_of_le hle 1 root.toNode hwithin⟩

end Xml

/-! ## The definitions -/

namespace Schema
namespace Settings

open Xml

variable {prefixes : Prefixes}

theorem sameOrRefused_schemaDefinitions (path : Path) (schema : Element) :
    SameOrRefused (Settings.schemaDefinitions ⟨prefixes, limits⟩ path schema)
      (Settings.schemaDefinitions ⟨prefixes, other⟩ path schema) :=
  (sameOrRefused_require _ _).bind fun _ => .refl _

theorem sameOrRefused_definitions (root : Element) :
    SameOrRefused (Settings.definitions ⟨prefixes, limits⟩ root)
      (Settings.definitions ⟨prefixes, other⟩ root) :=
  (SameOrRefused.refl _).bind fun _ => (SameOrRefused.refl _).bind fun schema =>
    sameOrRefused_schemaDefinitions _ schema

/-- **Two limits never make two lists of definitions of one text**, nor two other faults. -/
theorem sameOrRefused_definitionsOfText (text : String) :
    SameOrRefused (Settings.definitionsOfText ⟨prefixes, limits⟩ text)
      (Settings.definitionsOfText ⟨prefixes, other⟩ text) :=
  (sameOrRefused_parse text).bind sameOrRefused_definitions

/-- The definitions of a schema are as many as its types, and their number is tested. -/
theorem schemaDefinitions_eq_ok_iff_length {settings : Settings} {path : Path} {schema : Element}
    {definitions : List Definition} :
    settings.schemaDefinitions path schema = .ok definitions ↔
      definitions.length ≤ settings.limits.definitions ∧
        (settings.declarations schema).mapM (settings.declared path) = .ok definitions := by
  rw [schemaDefinitions_eq_mapM, bind_eq_ok_iff]
  have hlength : (settings.declarations schema).mapM (settings.declared path) = .ok definitions →
      (settings.declarations schema).length = definitions.length :=
    fun h => (mapM_eq_ok_iff.mp h).length_eq
  constructor
  · rintro ⟨⟨⟩, hcount, hall⟩
    rw [← hlength hall]
    exact ⟨Limits.require_eq_ok_iff.mp hcount, hall⟩
  · rintro ⟨hcount, hall⟩
    rw [← hlength hall] at hcount
    exact ⟨(), Limits.require_eq_ok_iff.mpr hcount, hall⟩

/-- The definitions that a tree has under some limits are its definitions under others exactly when
they are not too many. -/
theorem definitions_eq_ok_iff_length {root : Element} {definitions : List Definition}
    (h : Settings.definitions ⟨prefixes, other⟩ root = .ok definitions) :
    Settings.definitions ⟨prefixes, limits⟩ root = .ok definitions ↔
      definitions.length ≤ limits.definitions := by
  obtain ⟨types, htypes, h⟩ := bind_eq_ok_iff.mp h
  obtain ⟨schema, hschema, h⟩ := bind_eq_ok_iff.mp h
  have htypes := requireChild_eq_ok_iff.mp htypes
  have hschema := requireChild_eq_ok_iff.mp hschema
  obtain ⟨-, hall⟩ := schemaDefinitions_eq_ok_iff_length.mp h
  have hlimits : Settings.definitions ⟨prefixes, limits⟩ root =
      Settings.schemaDefinitions ⟨prefixes, limits⟩
        (Settings.schemaPath ⟨prefixes, limits⟩ root) schema :=
    definitions_eq_of_schema htypes hschema
  rw [hlimits, schemaDefinitions_eq_ok_iff_length]
  exact ⟨fun h => h.1, fun hcount => ⟨hcount, hall⟩⟩

theorem definitionsOfText_eq_ok_iff {settings : Settings} {text : String}
    {definitions : List Definition} :
    settings.definitionsOfText text = .ok definitions ↔
      ∃ root, Element.parse settings.limits text = .ok root ∧
        settings.definitions root = .ok definitions :=
  bind_eq_ok_iff

/-- The definitions that a text has under some limits, its tree being `root`, are its definitions
under others exactly when these admit the tree and the number of definitions. -/
theorem definitionsOfText_eq_ok_iff_within {text : String} {root : Element}
    {definitions : List Definition} (hroot : Element.parse other text = .ok root)
    (h : Settings.definitions ⟨prefixes, other⟩ root = .ok definitions) :
    Settings.definitionsOfText ⟨prefixes, limits⟩ text = .ok definitions ↔
      (text.utf8ByteSize ≤ limits.size ∧ root.Within limits) ∧
        definitions.length ≤ limits.definitions := by
  rw [definitionsOfText_eq_ok_iff, ← definitions_eq_ok_iff_length h,
    ← Element.parse_eq_ok_iff_within hroot]
  constructor
  · rintro ⟨root', hparse, hdefinitions⟩
    have hsame : SameOrRefused (Element.parse limits text) (Element.parse other text) :=
      sameOrRefused_parse text
    rw [hparse, hroot] at hsame
    obtain rfl := hsame.eq_of_ok
    exact ⟨hparse, hdefinitions⟩
  · rintro ⟨hparse, hdefinitions⟩
    exact ⟨root, hparse, hdefinitions⟩

/-- A larger limit loses no definitions. -/
theorem definitionsOfText_of_le (hle : ∀ limit, limits.bound limit ≤ other.bound limit)
    {text : String} {definitions : List Definition}
    (h : Settings.definitionsOfText ⟨prefixes, limits⟩ text = .ok definitions) :
    Settings.definitionsOfText ⟨prefixes, other⟩ text = .ok definitions := by
  obtain ⟨root, hroot, hdefinitions⟩ := definitionsOfText_eq_ok_iff.mp h
  refine definitionsOfText_eq_ok_iff.mpr ⟨root, Element.parse_of_le hle hroot, ?_⟩
  have hcount := (definitions_eq_ok_iff_length hdefinitions).mp hdefinitions
  exact (definitions_eq_ok_iff_length hdefinitions).mpr (Nat.le_trans hcount (hle .definitions))

/-- **Limits are a filter.**  When a text is a document under some limits, it is one under others
exactly when its size is within these, no element of the tree is too deep and none has too many
attributes; the tree is the same then, and else the text is refused for a count.  When a text has
definitions under some limits, it has the same ones under others exactly when moreover they are
not too many, and else is refused for a count.  So a larger limit changes and loses nothing. -/
theorem limits_filter (prefixes : Prefixes) (text : String) (limits other : Limits) :
    (∀ root, Element.parse other text = .ok root →
      (Element.parse limits text = .ok root ↔
        text.utf8ByteSize ≤ limits.size ∧ root.Within limits) ∧
      (¬ (text.utf8ByteSize ≤ limits.size ∧ root.Within limits) →
        Refused (Element.parse limits text))) ∧
    (∀ definitions, Settings.definitionsOfText ⟨prefixes, other⟩ text = .ok definitions →
      ∃ root, Element.parse other text = .ok root ∧
        (Settings.definitionsOfText ⟨prefixes, limits⟩ text = .ok definitions ↔
          (text.utf8ByteSize ≤ limits.size ∧ root.Within limits) ∧
            definitions.length ≤ limits.definitions) ∧
        (¬ ((text.utf8ByteSize ≤ limits.size ∧ root.Within limits) ∧
            definitions.length ≤ limits.definitions) →
          Refused (Settings.definitionsOfText ⟨prefixes, limits⟩ text))) ∧
    ((∀ limit, limits.bound limit ≤ other.bound limit) →
      (∀ root, Element.parse limits text = .ok root → Element.parse other text = .ok root) ∧
      (∀ definitions, Settings.definitionsOfText ⟨prefixes, limits⟩ text = .ok definitions →
        Settings.definitionsOfText ⟨prefixes, other⟩ text = .ok definitions)) := by
  refine ⟨?_, ?_, fun hle =>
    ⟨fun _ => Element.parse_of_le hle, fun _ => definitionsOfText_of_le hle⟩⟩
  · intro root hroot
    have hiff : Element.parse limits text = .ok root ↔
        text.utf8ByteSize ≤ limits.size ∧ root.Within limits :=
      Element.parse_eq_ok_iff_within hroot
    have hsame : SameOrRefused (Element.parse limits text) (.ok root) :=
      hroot ▸ sameOrRefused_parse text
    exact ⟨hiff, hsame.refused_of_not hiff⟩
  · intro definitions hdefinitions
    have hsame : SameOrRefused (Settings.definitionsOfText ⟨prefixes, limits⟩ text)
        (.ok definitions) := hdefinitions ▸ sameOrRefused_definitionsOfText text
    obtain ⟨root, hroot, hall⟩ := definitionsOfText_eq_ok_iff.mp hdefinitions
    have hiff : Settings.definitionsOfText ⟨prefixes, limits⟩ text = .ok definitions ↔
        (text.utf8ByteSize ≤ limits.size ∧ root.Within limits) ∧
          definitions.length ≤ limits.definitions :=
      definitionsOfText_eq_ok_iff_within hroot hall
    exact ⟨root, hroot, hiff, hsame.refused_of_not hiff⟩

/-- Limits that admit no type at all refuse a text with one. -/
theorem limits_filter_no_types :
    Settings.definitionsOfText {}
        "<d><types><xsd:schema><xsd:complexType name='A'/></xsd:schema></types></d>" =
      .ok [.record ⟨"A", none, []⟩] ∧
    Refused (Settings.definitionsOfText ⟨{}, { Limits.standard with definitions := 0 }⟩
      "<d><types><xsd:schema><xsd:complexType name='A'/></xsd:schema></types></d>") := by
  have hfree : Settings.definitionsOfText {}
      "<d><types><xsd:schema><xsd:complexType name='A'/></xsd:schema></types></d>" =
    .ok [.record ⟨"A", none, []⟩] := by decide +kernel
  obtain ⟨root, -, -, hrefused⟩ := (limits_filter {} _
    { Limits.standard with definitions := 0 } .standard).2.1 _ hfree
  exact ⟨hfree, hrefused fun h => absurd h.2 (by decide)⟩

end Settings
end Schema
end ServiceTypes
