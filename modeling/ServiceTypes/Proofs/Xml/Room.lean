import ServiceTypes.Proofs.Xml.Intake
import ServiceTypes.Proofs.Xml.Listing
import ServiceTypes.Proofs.Xml.Reading

/-!
# Limits that leave room for a text

Limits that are no smaller than a text never stand in its way.  An element that is open has its
start tag behind it, so there are never more elements open than characters were read; and every
attribute of a tag is written in it.

* `size_le_of_attributes`: a tag has no more attributes than characters behind its name.
* `Roomy`: a sequence of events in which the limits leave room for every tag.
* `roomy_transcript`: limits no smaller than the unread text leave room for all that is read from
  it.
* `tokensWithin_of_roomy`, `xml_of_foldlM_take_eq_error`: where there is room, the tokens keep
  within the limits, and the fault of a sequence that is not taken in is one of the document.
-/

namespace ServiceTypes
namespace Xml

open Text

/-! ## How many attributes a tag has -/

/-- Every attribute that is written takes up room. -/
theorem length_le_of_attributesAt {text after : List Char}
    {written : List (List Char × List Char)} (h : AttributesAt text written after) :
    written.length + after.length ≤ text.length := by
  induction h with
  | nil => exact Nat.le_of_eq (Nat.zero_add _)
  | cons hkey hvalue _ ih =>
    cases hkey
    cases hvalue
    simp only [List.length_append, List.length_cons] at ih ⊢
    omega

/-- A tag has no more attributes than characters behind its name. -/
theorem Tag.size_le_of_attributes {tag : Tag} {attributes : Attributes}
    (h : tag.attributes = .ok attributes) : attributes.size ≤ tag.tail.length := by
  obtain ⟨written, ⟨blank, hwritten, -⟩, hkept⟩ := Tag.attributes_eq_ok_iff.mp h
  have hlength := length_le_of_attributesAt hwritten
  rw [hkept.length_eq] at hlength
  exact Nat.le_trans (Nat.le_add_right _ _) hlength

theorem Tag.length_tail_le (content : List Char) :
    (Tag.ofContent content).tail.length ≤ content.length :=
  (List.dropWhile_suffix _).length_le

/-! ## Room for every tag -/

/-- Events that begin when `depth` elements are open, and in which the limits leave room for the
depth and the attributes of every tag. -/
def Roomy (limits : Limits) (depth : Nat) : List Event → Prop
  | [] => True
  | event :: events =>
    (∀ tag, event.tag? = some tag → depth + 1 ≤ limits.depth ∧
      ∀ attributes, tag.attributes = .ok attributes → attributes.size ≤ limits.attributes) ∧
    Roomy limits (event.depthAfter depth) events

/-- A tag is written within the text that it is read from. -/
theorem Reader.length_tail_lt_of_step {reader rest : Reader} {event : Event}
    (h : Step reader event rest) {tag : Tag} (htag : event.tag? = some tag) :
    tag.tail.length < reader.unread.length := by
  have hwritten : ∀ {c : Char} {after content rest : List Char},
      cut unquoted none (c :: after) = some (content, rest) →
        content.length < ('<' :: c :: after).length := by
    intro c after content rest hcut
    obtain ⟨stop, htext⟩ := cut_eq_some hcut
    rw [List.length_cons, htext, List.length_append]
    omega
  cases h with
  | startTag _ _ _ hcut _ =>
    obtain rfl := Option.some.inj htag
    exact Nat.lt_of_le_of_lt (Tag.length_tail_le _) (hwritten hcut)
  | @emptyTag _ _ content _ _ _ _ _ hcut _ =>
    obtain rfl := Option.some.inj htag
    have hlast := Tag.length_tail_le content.dropLast
    rw [List.length_dropLast] at hlast
    have := hwritten hcut
    dsimp only
    omega
  | _ => cases htag

/-- The elements open after an event and the text unread then are no more than before it. -/
theorem Reader.depthAfter_add_length_le {reader rest : Reader} {event : Event}
    (h : Step reader event rest) :
    rest.openNames.length + rest.unread.length ≤
      reader.openNames.length + reader.unread.length := by
  have hshorter := length_lt_of_next (next_of_step h)
  have hdepth := length_openNames_of_step h
  have hle : event.depthAfter reader.openNames.length ≤ reader.openNames.length + 1 := by
    cases event <;> simp only [Event.depthAfter] <;> omega
  omega

/-- **Limits no smaller than a text leave room for it.** -/
theorem roomy_transcript {limits : Limits} (reader : Reader)
    (hdepth : reader.openNames.length + reader.unread.length ≤ limits.depth)
    (hattributes : reader.unread.length ≤ limits.attributes) :
    Roomy limits reader.openNames.length reader.transcript.events := by
  induction reader using Reader.reading_induction with
  | misread reader cause hnext =>
    rw [Reader.transcript_of_error hnext]
    trivial
  | done reader hnext =>
    rw [Reader.transcript_of_none hnext]
    trivial
  | event reader event rest hstep ih =>
    have hshorter := Reader.length_lt_of_next (Reader.next_of_step hstep)
    have hrest := Reader.depthAfter_add_length_le hstep
    rw [Reader.transcript_of_some (Reader.next_of_step hstep)]
    refine ⟨?_, ?_⟩
    · intro tag htag
      have htail := Reader.length_tail_lt_of_step hstep htag
      refine ⟨by omega, ?_⟩
      intro attributes h
      have hsize := Tag.size_le_of_attributes h
      omega
    · rw [← Reader.length_openNames_of_step hstep]
      exact ih (by omega) (by omega)

/-- Where there is room for an event, its tokens keep within the limits. -/
theorem tokensWithin_of_room {limits : Limits} {depth : Nat} {event : Event} {tokens : List Token}
    (hroom : ∀ tag, event.tag? = some tag → depth + 1 ≤ limits.depth ∧
      ∀ attributes, tag.attributes = .ok attributes → attributes.size ≤ limits.attributes)
    (h : event.tokens depth = .ok tokens) : TokensWithin limits depth tokens := by
  have hopening : ∀ {tag : Tag} {attributes : Attributes} {rest : List Token},
      event.tag? = some tag → tag.attributes = .ok attributes →
      TokensWithin limits (depth + 1) rest →
      TokensWithin limits depth (.opening (String.ofList tag.name) attributes :: rest) := by
    intro tag attributes rest htag hattributes hrest
    obtain ⟨hdepth, hsize⟩ := hroom tag htag
    exact (tokensWithin_of_opening hrest).mpr ⟨hdepth, hsize attributes hattributes⟩
  rcases Event.tokens_cases h with ⟨tag, attributes, rfl, hattributes, rfl⟩ |
    ⟨tag, attributes, rfl, hattributes, rfl⟩ | ⟨name, rfl, rfl⟩ | ⟨-, -, rfl | ⟨-, content, rfl⟩⟩
  · exact hopening rfl hattributes (tokensWithin_nil _ _)
  · exact hopening rfl hattributes (tokensWithin_closing _ _ _)
  · exact tokensWithin_closing _ _ _
  · exact tokensWithin_nil _ _
  · exact tokensWithin_text _ _ _

theorem tokensWithin_of_roomy {limits : Limits} {depth : Nat} {events : List Event}
    {tokens : List Token} (hroom : Roomy limits depth events)
    (h : eventTokens depth events = .ok tokens) : TokensWithin limits depth tokens := by
  induction events generalizing depth tokens with
  | nil =>
    obtain rfl := Except.ok.inj h
    exact tokensWithin_nil _ _
  | cons event events ih =>
    obtain ⟨hfirstroom, hrestroom⟩ := hroom
    obtain ⟨first, rest, hfirst, hrest, rfl⟩ := eventTokens_cons_eq_ok_iff.mp h
    refine tokensWithin_append.mpr ⟨tokensWithin_of_room hfirstroom hfirst, ?_⟩
    rw [Event.depthAfter_of_tokens hfirst]
    exact ih hrestroom hrest

/-! ## Where there is room only the document can be at fault -/

theorem Tag.xml_of_attributes_eq_error {tag : Tag} {fault : Fault}
    (h : tag.attributes = .error fault) : ∃ defect, fault = .xml defect := by
  rcases Tag.attributes_eq_error_iff.mp h with ⟨_, _, _, _, _, _, _, hfault⟩ | ⟨_, _, _, hfault⟩
  · exact ⟨_, hfault⟩
  · exact ⟨_, hfault⟩

namespace Builder

theorem xml_of_openElement_eq_error {limits : Limits} {builder : Builder} {tag : Tag}
    {fault : Fault} (hdepth : builder.depth + 1 ≤ limits.depth)
    (hsize : ∀ attributes, tag.attributes = .ok attributes → attributes.size ≤ limits.attributes)
    (h : builder.openElement limits tag = .error fault) : ∃ defect, fault = .xml defect := by
  rcases openElement_eq_error_iff.mp h with hrequire | ⟨-, hfault | ⟨attributes, hok, hrequire⟩⟩
  · have hok : limits.require .depth (builder.depth + 1) = .ok () :=
      Limits.require_eq_ok_iff.mpr hdepth
    rw [hok] at hrequire
    cases hrequire
  · exact Tag.xml_of_attributes_eq_error hfault
  · have hok : limits.require .attributes attributes.size = .ok () :=
      Limits.require_eq_ok_iff.mpr (hsize attributes hok)
    rw [hok] at hrequire
    cases hrequire

theorem xml_of_take_eq_error {limits : Limits} {builder : Builder} {event : Event} {fault : Fault}
    (hroom : ∀ tag, event.tag? = some tag → builder.depth + 1 ≤ limits.depth ∧
      ∀ attributes, tag.attributes = .ok attributes → attributes.size ≤ limits.attributes)
    (h : builder.take limits event = .error fault) : ∃ defect, fault = .xml defect := by
  rcases take_eq_error_cases h with ⟨_, _, _, _, _, hfault⟩ | ⟨tag, htag, hopen⟩ | ⟨_, hfault⟩
  · exact ⟨_, hfault⟩
  · obtain ⟨hdepth, hsize⟩ := hroom tag htag
    exact xml_of_openElement_eq_error hdepth hsize hopen
  · exact ⟨_, hfault⟩

/-- The depth of a builder goes with its events. -/
theorem depth_take {limits : Limits} {builder after : Builder} {event : Event}
    (h : builder.take limits event = .ok after) : after.depth = event.depthAfter builder.depth := by
  obtain ⟨tokens, htokens, -, haccept⟩ := take_eq_ok_iff.mp h
  rw [depth_foldlM_accept haccept, Event.depthAfter_of_tokens htokens]

/-- **Where there is room, only the document can be at fault.** -/
theorem xml_of_foldlM_take_eq_error {limits : Limits} {builder : Builder} {events : List Event}
    {fault : Fault} (hroom : Roomy limits builder.depth events)
    (h : events.foldlM (take limits) builder = .error fault) : ∃ defect, fault = .xml defect := by
  induction events generalizing builder with
  | nil => cases h
  | cons event events ih =>
    obtain ⟨hfirstroom, hrestroom⟩ := hroom
    rw [List.foldlM_cons, bind_eq_error_iff] at h
    rcases h with hfirst | ⟨between, hfirst, hrest⟩
    · exact xml_of_take_eq_error hfirstroom hfirst
    · rw [← depth_take hfirst] at hrestroom
      exact ih hrestroom hrest

theorem xml_of_finish_eq_error {builder : Builder} {fault : Fault}
    (h : builder.finish = .error fault) : ∃ defect, fault = .xml defect := by
  rw [finish] at h
  split at h
  · exact ⟨_, (Except.error.inj h).symm⟩
  · split at h
    · cases h
    · exact ⟨_, (Except.error.inj h).symm⟩

end Builder
end Xml
end ServiceTypes
