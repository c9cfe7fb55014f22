import Mathlib.Data.List.Flatten
import ServiceTypes.Proofs.Xml.Composition
import ServiceTypes.Proofs.Xml.Resolution

/-!
# The character data of an element

The characters in an element come in runs of text and in character data sections, and comments and
processing instructions may stand between them at any place.  Layout is looked for in one run of
text at a time.  So an element has as its text what all the other runs come to, and it loses the
white space that makes up a run by itself, even where characters stand on both sides of it.

* `Event.characters`, `characterData`: the characters of an event, and of a stretch of events.
* `Event.isLayout`: whether an event is a run of text that is blank once resolved.
* `text_of_composes`: the text of what is made up without tags.
* `text_eq_of_parse`: the text of an element of a document, and when it is all of the character
  data.
-/

namespace ServiceTypes
namespace Xml

open Text

/-- The characters that an event stands for, with references resolved. -/
def Event.characters : Event → List Char
  | .text raw =>
    match resolve raw with
    | .ok content => content
    | .error _ => []
  | .cdata content => content
  | _ => []

/-- The characters that a stretch of events stands for, in order. -/
def characterData (events : List Event) : List Char :=
  events.flatMap Event.characters

/-- Whether an event is a run of text that is blank once resolved. -/
def Event.isLayout : Event → Bool
  | .text raw =>
    match resolve raw with
    | .ok content => allBlank content
    | .error _ => false
  | _ => false

/-! ## Without tags -/

theorem characterData_filter_of_pos {event : Event} (h : event.isLayout = false)
    (events : List Event) :
    characterData ((event :: events).filter fun event => !event.isLayout) =
      event.characters ++ characterData (events.filter fun event => !event.isLayout) := by
  rw [List.filter_cons_of_pos (by rw [h]; rfl)]
  rfl

/-- The text of nodes without elements, from the events that make them up. -/
theorem text_of_composes {events : List Event} {nodes : List Node} (h : Composes events nodes)
    (hleaf : nodes.filterMap Node.asElement? = []) :
    (nodes.filterMap Node.asText?).flatMap String.toList =
      characterData (events.filter fun event => !event.isLayout) := by
  induction h with
  | nil => rfl
  | @aside event events _ haside _ ih =>
    have hevent : event.isLayout = false ∧ event.characters = [] := by
      cases event with
      | comment | instruction | doctype => exact ⟨rfl, rfl⟩
      | _ => cases haside
    rw [ih hleaf, characterData_filter_of_pos hevent.1, hevent.2, List.nil_append]
  | @layout raw content events _ hresolve hblank _ ih =>
    have hlayout : (Event.text raw).isLayout = true := by
      rw [Event.isLayout, hresolve]
      exact hblank
    rw [ih hleaf, List.filter_cons_of_neg (by simp [hlayout])]
  | @text raw content events nodes hresolve hblank _ ih =>
    have hlayout : (Event.text raw).isLayout = false := by
      rw [Event.isLayout, hresolve]
      exact hblank
    have hcharacters : (Event.text raw).characters = content := by
      rw [Event.characters, hresolve]
    rw [characterData_filter_of_pos hlayout, hcharacters, ← ih hleaf]
    show (String.ofList content).toList ++ _ = _
    rw [String.toList_ofList]
    rfl
  | @cdata content events nodes _ ih =>
    rw [characterData_filter_of_pos rfl, ← ih hleaf]
    show (String.ofList content).toList ++ _ = _
    rw [String.toList_ofList]
    rfl
  | empty _ _ _ => cases hleaf
  | paired _ _ _ _ _ => cases hleaf

/-- What makes up nodes without elements has no tags in it, and its runs of text resolve. -/
theorem plain_of_composes {events : List Event} {nodes : List Node} (h : Composes events nodes)
    (hleaf : nodes.filterMap Node.asElement? = []) :
    ∀ event ∈ events, event.tag? = none ∧
      ∀ raw, event = .text raw → ∃ content, resolve raw = .ok content := by
  induction h with
  | nil => exact List.forall_mem_nil _
  | @aside event _ _ haside _ ih =>
    refine List.forall_mem_cons.mpr ⟨?_, ih hleaf⟩
    cases event with
    | comment | instruction | doctype => exact ⟨rfl, nofun⟩
    | _ => cases haside
  | layout hresolve _ _ ih =>
    refine List.forall_mem_cons.mpr ⟨⟨rfl, ?_⟩, ih hleaf⟩
    rintro raw ⟨⟩
    exact ⟨_, hresolve⟩
  | text hresolve _ _ ih =>
    refine List.forall_mem_cons.mpr ⟨⟨rfl, ?_⟩, ih hleaf⟩
    rintro raw ⟨⟩
    exact ⟨_, hresolve⟩
  | cdata _ ih => exact List.forall_mem_cons.mpr ⟨⟨rfl, nofun⟩, ih hleaf⟩
  | empty _ _ _ => cases hleaf
  | paired _ _ _ _ _ => cases hleaf

/-! ## Layout has characters in it -/

/-- A run of text in a document is not empty. -/
theorem Reader.ne_nil_of_text_mem (reader : Reader) :
    ∀ raw, .text raw ∈ reader.transcript.events → raw ≠ [] := by
  induction reader using reading_induction with
  | misread reader cause hnext =>
    rw [transcript_of_error hnext]
    intro raw hmem
    cases hmem
  | done reader hnext =>
    rw [transcript_of_none hnext]
    intro raw hmem
    cases hmem
  | event reader event rest hstep ih =>
    rw [transcript_of_some (next_of_step hstep)]
    intro raw hmem
    rcases List.mem_cons.mp hmem with rfl | hmem
    · cases hstep with
      | text _ => exact List.cons_ne_nil _ _
    · exact ih raw hmem

/-- Text that is not empty does not resolve to nothing. -/
theorem ne_nil_of_resolves {raw content : List Char} (h : Resolves raw content) (hraw : raw ≠ []) :
    content ≠ [] := by
  cases h with
  | nil => exact absurd rfl hraw
  | plain _ _ => exact List.cons_ne_nil _ _
  | reference _ _ _ => exact List.cons_ne_nil _ _

theorem characters_ne_nil_of_isLayout {text : String} {event : Event}
    (hmem : event ∈ (Transcript.ofText text).events) (h : event.isLayout = true) :
    event.characters ≠ [] := by
  cases event with
  | text raw =>
    have hraw : raw ≠ [] := Reader.ne_nil_of_text_mem ⟨withoutMark text.toList, []⟩ raw hmem
    rw [Event.isLayout] at h
    rw [Event.characters]
    rcases hresolve : resolve raw with fault | content
    · rw [hresolve] at h
      cases h
    · exact ne_nil_of_resolves (resolve_eq_ok_iff.mp hresolve) hraw
  | _ => cases h

/-- Nothing is lost by dropping some events exactly when these stand for nothing. -/
theorem characterData_filter_eq_iff (kept : Event → Bool) (events : List Event) :
    characterData (events.filter kept) = characterData events ↔
      ∀ event ∈ events, kept event = false → event.characters = [] := by
  induction events with
  | nil => exact ⟨fun _ => List.forall_mem_nil _, fun _ => rfl⟩
  | cons event events ih =>
    have hcons : characterData (event :: events) = event.characters ++ characterData events := rfl
    rw [List.forall_mem_cons, ← ih, hcons]
    rcases hkept : kept event with _ | _
    · rw [List.filter_cons_of_neg (by simp [hkept])]
      have hle : (characterData (events.filter kept)).length ≤ (characterData events).length :=
        (List.filter_sublist.flatMap _).length_le
      constructor
      · intro h
        -- the rest cannot make up for characters that the first event stands for
        have hlength := congrArg List.length h
        rw [List.length_append] at hlength
        have hnil : event.characters = [] := List.eq_nil_of_length_eq_zero (by omega)
        refine ⟨fun _ => hnil, ?_⟩
        rw [hnil, List.nil_append] at h
        exact h
      · rintro ⟨hnil, h⟩
        rw [hnil rfl, List.nil_append, h]
    · rw [List.filter_cons_of_pos hkept]
      have hfirst : characterData (event :: events.filter kept) =
          event.characters ++ characterData (events.filter kept) := rfl
      rw [hfirst, List.append_cancel_left_eq]
      exact ⟨fun h => ⟨nofun, h⟩, fun h => h.2⟩

/-! ## The text of an element -/

/-- **What an element has for its text.**  The elements of a document are made up of their tags and
contents.  One with no element in it has in its content runs of text, which all resolve, character
data sections, comments and processing instructions.  Its text is what the runs and the sections
stand for, without the runs that are blank by themselves; it is all of the character data exactly
when there is no such run. -/
theorem text_eq_of_parse (limits : Limits) (text : String) (root : Element)
    (h : Element.parse limits text = .ok root) :
    List.Forall₂ (fun part element => Makes part element ∧
      (element.elements = [] →
        (∀ event ∈ part.2, event.tag? = none ∧
          ∀ raw, event = .text raw → ∃ content, resolve raw = .ok content) ∧
        element.text.toList = characterData (part.2.filter fun event => !event.isLayout) ∧
        (element.text.toList = characterData part.2 ↔
          ∀ event ∈ part.2, event.isLayout = false)))
      (tagged (Transcript.ofText text).events) root.preorder := by
  have hmakes := makes_of_parse h
  have hpart : ∀ part ∈ tagged (Transcript.ofText text).events,
      ∀ event ∈ part.2, event.isLayout = true → event.characters ≠ [] := by
    intro part hpart event hevent
    exact characters_ne_nil_of_isLayout (mem_of_mem_tagged hpart hevent)
  rw [List.forall₂_iff_zip] at hmakes ⊢
  refine ⟨hmakes.1, ?_⟩
  intro part element hmem
  have hmade : Makes part element := hmakes.2 hmem
  refine ⟨hmade, fun hleaf => ?_⟩
  have htext : element.text.toList =
      characterData (part.2.filter fun event => !event.isLayout) := by
    rw [Element.text, String.toList_join]
    exact text_of_composes hmade.children hleaf
  refine ⟨plain_of_composes hmade.children hleaf, htext, ?_⟩
  rw [htext, characterData_filter_eq_iff]
  refine forall₂_congr fun event hevent => ?_
  have hsome := hpart part (List.of_mem_zip hmem).1 event hevent
  rcases hlayout : event.isLayout with _ | _
  · simp
  · simp [hsome hlayout]

/-- A comment and a section split a text, and none of the runs is blank. -/
theorem text_eq_of_parse_split :
    Element.parse .strict "<a>x <!--c-->y<![CDATA[ z]]></a>" =
        .ok ⟨"a", ∅, [.text "x ", .text "y", .text " z"]⟩ ∧
      (⟨"a", ∅, [.text "x ", .text "y", .text " z"]⟩ : Element).text.toList =
        characterData [.text "x ".toList, .comment ['c'], .text ['y'], .cdata " z".toList] := by
  have hparse : Element.parse .strict "<a>x <!--c-->y<![CDATA[ z]]></a>" =
      .ok ⟨"a", ∅, [.text "x ", .text "y", .text " z"]⟩ := by
    rw [Element.parse_eq_ok_iff]
    exact ⟨by decide, by decide +kernel, by decide +kernel, by decide, by decide, trivial, trivial,
      trivial, trivial⟩
  have htagged : tagged (Transcript.ofText "<a>x <!--c-->y<![CDATA[ z]]></a>").events =
      [(⟨['a'], []⟩, [.text "x ".toList, .comment ['c'], .text ['y'], .cdata " z".toList])] := by
    decide +kernel
  have hall := text_eq_of_parse .strict _ _ hparse
  rw [htagged, Element.preorder_eq] at hall
  obtain ⟨⟨-, hroot⟩, -⟩ := List.forall₂_cons.mp hall
  exact ⟨hparse, (hroot rfl).2.2.mpr (by decide +kernel)⟩

/-- **Character data is lost**, although there is more of it than white space: a space by itself
between a comment and a section is taken for layout. -/
theorem not_text_eq_characterData :
    ¬ ∀ (limits : Limits) (text : String) (root : Element),
      Element.parse limits text = .ok root →
      List.Forall₂ (fun part element => element.elements = [] →
        allBlank (characterData part.2) = false → element.text.toList = characterData part.2)
        (tagged (Transcript.ofText text).events) root.preorder := by
  intro h
  have hparse : Element.parse .strict "<a>x<!--c--> <![CDATA[y]]></a>" =
      .ok ⟨"a", ∅, [.text "x", .text "y"]⟩ := by
    rw [Element.parse_eq_ok_iff]
    exact ⟨by decide, by decide +kernel, by decide +kernel, by decide, by decide, trivial, trivial,
      trivial⟩
  have htagged : tagged (Transcript.ofText "<a>x<!--c--> <![CDATA[y]]></a>").events =
      [(⟨['a'], []⟩, [.text ['x'], .comment ['c'], .text [' '], .cdata ['y']])] := by
    decide +kernel
  have hall := h .strict _ _ hparse
  rw [htagged, Element.preorder_eq] at hall
  obtain ⟨hroot, -⟩ := List.forall₂_cons.mp hall
  have htext : (⟨"a", ∅, [.text "x", .text "y"]⟩ : Element).text.toList = "xy".toList := by decide
  have hdata : characterData [.text ['x'], .comment ['c'], .text [' '], .cdata ['y']] =
      "x y".toList := by decide +kernel
  have hsame := hroot rfl (by rw [hdata]; decide)
  rw [htext, hdata] at hsame
  exact absurd hsame (by decide)

end Xml
end ServiceTypes
