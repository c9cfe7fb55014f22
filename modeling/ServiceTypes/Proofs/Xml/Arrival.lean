import ServiceTypes.Proofs.Xml.Acceptance
import ServiceTypes.Proofs.Xml.Listing
import ServiceTypes.Proofs.Xml.Resolution

/-!
# What the reading of a document comes to

A document is taken in event by event, and the values in a tag one by one, until the first fault.
`Arrives` holds of the events that are come to in that way, `Event.LooksAt` of the texts whose
references are looked at in an event, a run of text inside the root or the values in a tag that is
not too deep, and `Reaches` of those of a whole document.  A text that is reached and does not
resolve is the fault of the document, and such a fault has no other cause.

* `parse_eq_error_of_take`, `arrives_of_parse_eq_error`: the fault of an event that is come to is
  that of the document.
* `parse_eq_error_reference_iff`: when a reference is the fault of a document.
* `references_resolved`: what references come to wherever they are looked at, and that they are
  not looked at outside the root.
-/

namespace ServiceTypes
namespace Xml

open Text

/-! ## Events that are come to -/

/-- An event that is come to: the text is not too long, and the events before it were taken in. -/
structure Arrives (limits : Limits) (text : String) (earlier : List Event) (event : Event)
    (later : List Event) (builder : Builder) : Prop where
  size : text.utf8ByteSize ≤ limits.size
  events : (Transcript.ofText text).events = earlier ++ event :: later
  taken : earlier.foldlM (Builder.take limits) {} = .ok builder

variable {limits : Limits} {text : String} {earlier later : List Event} {event : Event}
  {builder : Builder}

theorem Builder.depth_foldlM_take {before after : Builder} {events : List Event}
    (h : events.foldlM (Builder.take limits) before = .ok after) :
    after.depth = depthAfterEvents before.depth events := by
  induction events generalizing before with
  | nil =>
    obtain rfl := Except.ok.inj h
    rfl
  | cons event events ih =>
    rw [List.foldlM_cons, bind_eq_ok_iff] at h
    obtain ⟨between, hfirst, hrest⟩ := h
    rw [ih hrest, depth_take hfirst]
    rfl

namespace Arrives

theorem depth_eq (h : Arrives limits text earlier event later builder) :
    builder.depth = depthAfterEvents 0 earlier :=
  Builder.depth_foldlM_take h.taken

/-- From an event that is come to, the reading goes on with that event. -/
theorem root_eq (h : Arrives limits text earlier event later builder) :
    (Transcript.ofText text).root limits (withoutMark text.toList) =
      builder.take limits event >>= fun between =>
        later.foldlM (Builder.take limits) between >>= fun after =>
          match (Transcript.ofText text).ending with
          | some misread =>
            .error (.xml (.misread (misread.position (withoutMark text.toList)) misread.cause))
          | none => after.finish := by
  rw [Transcript.root_eq_bind, h.events, List.foldlM_append, h.taken]
  show (List.foldlM (Builder.take limits) builder (event :: later)) >>= _ = _
  rw [List.foldlM_cons]
  exact bind_assoc _ _ _

theorem parse_eq_root (h : Arrives limits text earlier event later builder) :
    Element.parse limits text =
      (Transcript.ofText text).root limits (withoutMark text.toList) := by
  rw [Element.parse_eq, Limits.require_eq_ok_iff.mpr h.size]
  rfl

/-- An event that leaves the builder as it is might as well be missing. -/
theorem parse_eq_of_take_eq_self (h : Arrives limits text earlier event later builder)
    (htake : builder.take limits event = .ok builder) :
    Element.parse limits text =
      (⟨earlier ++ later, (Transcript.ofText text).ending⟩ : Transcript).root limits
        (withoutMark text.toList) := by
  rw [h.parse_eq_root, h.root_eq, htake, Transcript.root_eq_bind, List.foldlM_append, h.taken]
  rfl

end Arrives

/-- **The fault of an event that is come to is that of the document.** -/
theorem parse_eq_error_of_take (h : Arrives limits text earlier event later builder)
    {fault : Fault} (htake : builder.take limits event = .error fault) :
    Element.parse limits text = .error fault := by
  rw [h.parse_eq_root, h.root_eq, htake]
  rfl

/-- An event is come to unless something is at fault before it. -/
theorem arrives_or_parse_eq_error
    (hevents : (Transcript.ofText text).events = earlier ++ event :: later) :
    (∃ builder, Arrives limits text earlier event later builder) ∨
      ∃ fault, Element.parse limits text = .error fault ∧
        (limits.require .size text.utf8ByteSize = .error fault ∨
          earlier.foldlM (Builder.take limits) {} = .error fault) := by
  rw [Element.parse_eq]
  rcases hsize : limits.require .size text.utf8ByteSize with fault | ⟨⟩
  · exact Or.inr ⟨fault, rfl, Or.inl rfl⟩
  · rcases htaken : earlier.foldlM (Builder.take limits) {} with fault | builder
    · refine Or.inr ⟨fault, ?_, Or.inr rfl⟩
      show (Transcript.ofText text).root limits (withoutMark text.toList) = _
      rw [Transcript.root_eq_bind, hevents, List.foldlM_append, htaken]
      rfl
    · exact Or.inl ⟨builder, Limits.require_eq_ok_iff.mp hsize, hevents, htaken⟩

/-- A fault of a document that is no refusal of a count is that of an event that is come to, or
comes of the end of the text. -/
theorem arrives_of_parse_eq_error {defect : Defect}
    (h : Element.parse limits text = .error (.xml defect)) :
    (∃ earlier event later builder, Arrives limits text earlier event later builder ∧
      builder.take limits event = .error (.xml defect)) ∨
    (∃ position cause, defect = .misread position cause) ∨
    (∃ name, defect = .unclosed name) ∨ defect = .noRoot := by
  rw [Element.parse_eq, bind_eq_error_iff] at h
  rcases h with hsize | ⟨⟨⟩, hsize, h⟩
  · obtain ⟨excess, hexcess⟩ := Limits.limit_of_require_eq_error hsize
    cases hexcess
  rw [Transcript.root_eq_bind, bind_eq_error_iff] at h
  rcases h with htake | ⟨after, -, hending⟩
  · obtain ⟨earlier, event, later, builder, hevents, htaken, htake⟩ :=
      foldlM_eq_error_iff.mp htake
    exact Or.inl ⟨earlier, event, later, builder,
      ⟨Limits.require_eq_ok_iff.mp hsize, hevents, htaken⟩, htake⟩
  · refine Or.inr ?_
    split at hending
    · injection hending with hfault
      injection hfault with hdefect
      exact Or.inl ⟨_, _, hdefect.symm⟩
    · rw [Builder.finish] at hending
      split at hending
      · injection hending with hfault
        injection hfault with hdefect
        exact Or.inr (Or.inl ⟨_, hdefect.symm⟩)
      · split at hending
        · cases hending
        · injection hending with hfault
          injection hfault with hdefect
          exact Or.inr (Or.inr hdefect.symm)

/-! ## Texts whose references are looked at -/

/-- The places at which references are looked at. -/
inductive Place where
  /-- A run of text. -/
  | text
  /-- The value of an attribute. -/
  | value
  deriving DecidableEq, Repr

/-- The defect of a document in which a reference at a place cannot be resolved. -/
def Place.defect : Place → ReferenceFault → Defect
  | .text => .text
  | .value => .attributeValue

/-- How the message of such a defect begins. -/
def Place.complaint : Place → String
  | .text => "XML error: Failed to unescape text: "
  | .value => "XML error: Failed to unescape attribute value: "

theorem Place.message_defect (place : Place) (fault : ReferenceFault) :
    (Fault.xml (place.defect fault)).message = place.complaint ++ fault.message := by
  cases place with
  | text => exact (String.append_assoc ..).symm
  | value => exact (String.append_assoc ..).symm

/-- The texts, as they are written, whose references are looked at in an event that comes when
`depth` elements are open: a run of text inside the root, and the values in a tag that is not too
deep, each if those before it resolve. -/
inductive Event.LooksAt (limits : Limits) (depth : Nat) : Event → Place → List Char → Prop
  | text {raw : List Char} (hinside : depth ≠ 0) : LooksAt limits depth (.text raw) .text raw
  | value {event : Event} {tag : Tag} {before after : List WrittenAttribute}
    {found : WrittenAttribute} (htag : event.tag? = some tag) (hdepth : depth + 1 ≤ limits.depth)
    (hwritten : tag.listing.written = before ++ found :: after)
    (hbefore : ∀ other ∈ before, Resolvable other.value) :
    LooksAt limits depth event .value found.value

/-- The texts whose references are looked at in the reading of a document. -/
def Reaches (limits : Limits) (text : String) (place : Place) (raw : List Char) : Prop :=
  ∃ earlier event later builder, Arrives limits text earlier event later builder ∧
    event.LooksAt limits (depthAfterEvents 0 earlier) place raw

theorem resolvable_iff {raw : List Char} :
    Resolvable raw ↔ ∃ content, resolve raw = .ok content := by
  simp only [resolve_eq_ok_iff, exists_resolves_iff]

/-- When the value of an attribute is the fault of a tag. -/
theorem Tag.attributes_eq_error_value_iff {tag : Tag} {fault : ReferenceFault} :
    tag.attributes = .error (.xml (.attributeValue fault)) ↔
      ∃ before found after, tag.listing.written = before ++ found :: after ∧
        (∀ other ∈ before, Resolvable other.value) ∧ resolve found.value = .error fault := by
  simp only [Tag.attributes_eq_error_iff, resolvable_iff]
  constructor
  · rintro (⟨before, found, after, reference, hwritten, hbefore, hfound, hfault⟩ |
      ⟨-, defect, -, hfault⟩)
    · cases hfault
      exact ⟨before, found, after, hwritten, hbefore, hfound⟩
    · cases hfault
  · rintro ⟨before, found, after, hwritten, hbefore, hfound⟩
    exact Or.inl ⟨before, found, after, fault, hwritten, hbefore, hfound, rfl⟩

namespace Builder

/-- Outside the root a run of text is nothing, whatever is written in it. -/
theorem takeText_of_depth_eq_zero (hdepth : builder.depth = 0) (raw : List Char) :
    builder.takeText raw = .ok builder := by
  have hstack : builder.stack = [] :=
    List.eq_nil_of_length_eq_zero (builder.depth_eq.symm.trans hdepth)
  rw [takeText, hstack]

/-- Inside the root a run of text is what it resolves to, unless that is blank. -/
theorem takeText_of_depth_ne_zero (hdepth : builder.depth ≠ 0) (raw : List Char) :
    builder.takeText raw =
      match resolve raw with
      | .error fault => .error (.xml (.text fault))
      | .ok content =>
        if allBlank content then .ok builder
        else .ok (builder.addChild (.text (String.ofList content))) := by
  obtain ⟨stack, depth, root, hlength⟩ := builder
  cases stack with
  | nil => exact absurd hlength hdepth
  | cons element outer => rfl

/-- When a reference is the fault of an event: the first text in it that is looked at and does not
resolve. -/
theorem take_eq_error_reference_iff {place : Place} {fault : ReferenceFault} :
    builder.take limits event = .error (.xml (place.defect fault)) ↔
      ∃ raw, event.LooksAt limits builder.depth place raw ∧ resolve raw = .error fault := by
  constructor
  · intro h
    have hrequire : ∀ {limit : Limit} {count : Nat},
        limits.require limit count ≠ .error (.xml (place.defect fault)) := by
      intro limit count hrequire
      obtain ⟨excess, hexcess⟩ := Limits.limit_of_require_eq_error hrequire
      cases hexcess
    rcases take_eq_error_cases h with
      ⟨raw, reference, rfl, hinside, hreference, hfault⟩ | ⟨tag, htag, hopen⟩ | ⟨name, hfault⟩
    · cases place <;> cases hfault
      exact ⟨raw, .text hinside, hreference⟩
    · rcases openElement_eq_error_iff.mp hopen with hdepth | ⟨hdepth, hattributes | ⟨_, _, hsize⟩⟩
      · exact absurd hdepth hrequire
      · cases place with
        | text =>
          rcases Tag.attributes_eq_error_iff.mp hattributes with
            ⟨_, _, _, _, _, _, _, hfault⟩ | ⟨_, _, _, hfault⟩ <;> cases hfault
        | value =>
          obtain ⟨before, found, after, hwritten, hbefore, hfound⟩ :=
            Tag.attributes_eq_error_value_iff.mp hattributes
          exact ⟨found.value, .value htag hdepth hwritten hbefore, hfound⟩
      · exact absurd hsize hrequire
    · cases place <;> cases hfault
  · rintro ⟨raw, hlooks, hfault⟩
    cases hlooks with
    | text hinside =>
      rw [take, takeText_of_depth_ne_zero hinside, hfault]
      rfl
    | @value _ _ before after found htag hdepth hwritten hbefore =>
      refine take_eq_error_of_openElement htag (openElement_eq_error_iff.mpr (Or.inr ?_))
      exact ⟨hdepth, Or.inl (Tag.attributes_eq_error_value_iff.mpr
        ⟨before, found, after, hwritten, hbefore, hfault⟩)⟩

end Builder

/-- **When a reference is the fault of a document**: the first text that is reached and does not
resolve, and nothing else. -/
theorem parse_eq_error_reference_iff {place : Place} {fault : ReferenceFault} :
    Element.parse limits text = .error (.xml (place.defect fault)) ↔
      ∃ raw, Reaches limits text place raw ∧ resolve raw = .error fault := by
  constructor
  · intro h
    rcases arrives_of_parse_eq_error h with
      ⟨earlier, event, later, builder, harrives, htake⟩ | ⟨position, cause, h⟩ | ⟨name, h⟩ | h
    · obtain ⟨raw, hlooks, hfault⟩ := Builder.take_eq_error_reference_iff.mp htake
      rw [harrives.depth_eq] at hlooks
      exact ⟨raw, ⟨earlier, event, later, builder, harrives, hlooks⟩, hfault⟩
    · cases place <;> cases h
    · cases place <;> cases h
    · cases place <;> cases h
  · rintro ⟨raw, ⟨earlier, event, later, builder, harrives, hlooks⟩, hfault⟩
    rw [← harrives.depth_eq] at hlooks
    exact parse_eq_error_of_take harrives
      (Builder.take_eq_error_reference_iff.mpr ⟨raw, hlooks, hfault⟩)

/-! ## References wherever they are looked at -/

/-- **References are resolved as they are written.**  A text resolves exactly when every `&` in it
starts a reference, a body that denotes a character and then a `;`; and what it comes to is the
text with each reference replaced by its character once and all other characters as they are.  A
text that is reached and does not resolve is the fault of the document, and the message tells a
run of text from the value of an attribute.  One that resolves is taken in as what it comes to.
Outside the root a run of text is not looked at: the document comes to what it would come to
without it. -/
theorem references_resolved (limits : Limits) (text : String) :
    (∀ raw, (∃ content, resolve raw = .ok content) ↔ Resolvable raw) ∧
    (∀ raw content, resolve raw = .ok content ↔
      ∃ pieces : List (List Char × Char), (∀ piece ∈ pieces, StandsFor piece.1 piece.2) ∧
        raw = pieces.flatMap Prod.fst ∧ content = pieces.map Prod.snd) ∧
    (∀ place raw, Reaches limits text place raw → ¬ Resolvable raw →
      ∃ fault, resolve raw = .error fault ∧
        Element.parse limits text = .error (.xml (place.defect fault)) ∧
        (Fault.xml (place.defect fault)).message = place.complaint ++ fault.message) ∧
    (∀ earlier raw later builder, Arrives limits text earlier (.text raw) later builder →
      (depthAfterEvents 0 earlier ≠ 0 → ∀ content, resolve raw = .ok content →
        builder.take limits (.text raw) =
          .ok (if allBlank content then builder
            else builder.addChild (.text (String.ofList content)))) ∧
      (depthAfterEvents 0 earlier = 0 →
        builder.take limits (.text raw) = .ok builder ∧
        Element.parse limits text =
          (⟨earlier ++ later, (Transcript.ofText text).ending⟩ : Transcript).root limits
            (withoutMark text.toList))) ∧
    (∀ (tag : Tag) attributes, tag.attributes = .ok attributes →
      List.Forall₂ KeptAs (tag.listing.written.map WrittenAttribute.pair) attributes.entries) := by
  refine ⟨fun raw => resolvable_iff.symm, ?_, ?_, ?_, ?_⟩
  · intro raw content
    rw [resolve_eq_ok_iff, resolves_iff_pieces]
  · intro place raw hreaches hnot
    rcases hresolve : resolve raw with fault | content
    · exact ⟨fault, rfl, parse_eq_error_reference_iff.mpr ⟨raw, hreaches, hresolve⟩,
        place.message_defect fault⟩
    · exact absurd (resolvable_iff.mpr ⟨content, hresolve⟩) hnot
  · intro earlier raw later builder harrives
    rw [← harrives.depth_eq]
    constructor
    · intro hinside content hcontent
      rw [Builder.take, Builder.takeText_of_depth_ne_zero hinside, hcontent]
      dsimp only
      split <;> rfl
    · intro houtside
      have htake : builder.take limits (.text raw) = .ok builder :=
        Builder.takeText_of_depth_eq_zero houtside raw
      exact ⟨htake, harrives.parse_eq_of_take_eq_self htake⟩
  · intro tag attributes hattributes
    exact (Tag.attributes_eq_ok_iff_listing.mp hattributes).2

/-- An `&` that starts no reference, inside an element, in a value, and behind the root. -/
theorem references_resolved_bare :
    resolve "&amp;lt;".toList = .ok "&lt;".toList ∧
    (∃ fault, Element.parse .strict "<a>&b</a>" = .error (.xml (.text fault)) ∧
      (Fault.xml (.text fault)).message =
        "XML error: Failed to unescape text: " ++ fault.message) ∧
    (∃ fault, Element.parse .strict "<a k='&b'/>" = .error (.xml (.attributeValue fault)) ∧
      (Fault.xml (.attributeValue fault)).message =
        "XML error: Failed to unescape attribute value: " ++ fault.message) ∧
    Element.parse .strict "<a/>&b" =
      (⟨[.emptyTag ⟨['a'], []⟩], none⟩ : Transcript).root .strict "<a/>&b".toList := by
  have hbare : ¬ Resolvable "&b".toList := by
    intro h
    obtain ⟨body, c, rest, hafter, -⟩ := h [] ['b'] rfl
    have hmem : ';' ∈ ['b'] := hafter ▸ List.mem_append_right body List.mem_cons_self
    exact absurd hmem (by decide)
  refine ⟨?_, ?_, ?_, ?_⟩
  · -- the `&` that the reference stands for does not start another one
    refine ((references_resolved .strict "").2.1 _ _).mpr
      ⟨[("&amp;".toList, '&'), (['l'], 'l'), (['t'], 't'), ([';'], ';')], ?_, rfl, rfl⟩
    have hamp : StandsFor "&amp;".toList '&' :=
      @StandsFor.reference "amp".toList '&' (Denotes.named rfl)
    simp only [List.forall_mem_cons]
    exact ⟨hamp, .plain (by decide), .plain (by decide), .plain (by decide), List.forall_mem_nil _⟩
  · have htaken : [Event.startTag ⟨['a'], []⟩].foldlM (Builder.take .strict) {} =
        .ok (Builder.push {} ⟨"a", ∅, []⟩) := by
      refine Builder.foldlM_take_eq_ok_iff.mpr ⟨[.opening "a" ∅], by decide +kernel, ?_, rfl⟩
      exact (tokensWithin_of_opening (tokensWithin_nil _ _)).mpr (by decide)
    have harrives : Arrives .strict "<a>&b</a>" [.startTag ⟨['a'], []⟩] (.text "&b".toList)
        [.endTag ['a']] (Builder.push {} ⟨"a", ∅, []⟩) :=
      ⟨by decide, by decide +kernel, htaken⟩
    obtain ⟨fault, -, hfault⟩ := (references_resolved .strict "<a>&b</a>").2.2.1 .text _
      ⟨_, _, _, _, harrives, .text (by decide)⟩ hbare
    exact ⟨fault, hfault⟩
  · have harrives : Arrives .strict "<a k='&b'/>" [] (.emptyTag ⟨['a'], " k='&b'".toList⟩) [] {} :=
      ⟨by decide, by decide +kernel, rfl⟩
    have hwritten : (Tag.listing ⟨['a'], " k='&b'".toList⟩).written =
        [] ++ ⟨2, ['k'], "&b".toList⟩ :: [] := by decide +kernel
    obtain ⟨fault, -, hfault⟩ := (references_resolved .strict "<a k='&b'/>").2.2.1 .value _
      ⟨_, _, _, _, harrives, .value rfl (by decide) hwritten (List.forall_mem_nil _)⟩ hbare
    exact ⟨fault, hfault⟩
  · have htaken : [Event.emptyTag ⟨['a'], []⟩].foldlM (Builder.take .strict) {} =
        .ok { root := some ⟨"a", ∅, []⟩ } := by
      refine Builder.foldlM_take_eq_ok_iff.mpr
        ⟨[.opening "a" ∅, .closing "a"], by decide +kernel, ?_, rfl⟩
      exact (tokensWithin_of_opening (tokensWithin_closing _ _ _)).mpr (by decide)
    have harrives : Arrives .strict "<a/>&b" [.emptyTag ⟨['a'], []⟩] (.text "&b".toList) []
        { root := some ⟨"a", ∅, []⟩ } := ⟨by decide, by decide +kernel, htaken⟩
    have hending : (Transcript.ofText "<a/>&b").ending = none := by decide +kernel
    have herased := (((references_resolved .strict "<a/>&b").2.2.2.1 _ _ _ _ harrives).2 rfl).2
    rw [hending] at herased
    exact herased

end Xml
end ServiceTypes
