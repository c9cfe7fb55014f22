import ServiceTypes.Proofs.Xml.Acceptance
import ServiceTypes.Proofs.Xml.Entity
import ServiceTypes.Proofs.Xml.Weight

/-!
# A tree is no larger than its text

Reading never amplifies.  So the limit on the size of a text is a limit on the whole tree, and no
document can ask for more memory than its own size accounts for.

* `Element.bytes`, `Element.things`: the two weights of a tree.
* `weight_le_of_parse`: what every event pays for, the text pays for.
* `parse_volume`: the two bounds, and references to names that a document would have to declare.
-/

namespace ServiceTypes
namespace Xml

open Text

theorem byteCount_withoutMark_le (text : List Char) :
    byteCount (withoutMark text) ≤ byteCount text := by
  rcases text with _ | ⟨c, text⟩
  · exact Nat.le_refl _
  · rw [withoutMark]
    split
    · rw [byteCount_cons]
      omega
    · exact Nat.le_refl _

/-- The bytes of all names, keys, values and texts of a tree. -/
def Element.bytes (root : Element) : Nat :=
  Weight.bytes.node root.toNode

/-- The number of nodes and attributes of a tree. -/
def Element.things (root : Element) : Nat :=
  Weight.things.node root.toNode

/-- A weight that is paid for by every event is no more than the size of a document. -/
theorem weight_le_of_parse {weight : Weight}
    (hstep : ∀ {reader rest : Reader} {event : Event} {tokens : List Token},
      Reader.Step reader event rest → event.tokens reader.openNames.length = .ok tokens →
        weight.tokens tokens ≤ event.mark + byteCount event.written)
    {limits : Limits} {text : String} {root : Element}
    (h : Element.parse limits text = .ok root) : weight.node root.toNode ≤ text.utf8ByteSize := by
  obtain ⟨-, -, htokens, -⟩ := Element.parse_eq_ok_iff.mp h
  have hpaid : weight.tokens root.tokens ≤ byteCount (withoutMark text.toList) :=
    @Weight.tokens_le_of_steps weight hstep ⟨withoutMark text.toList, []⟩ root.tokens htokens
  have hmark := byteCount_withoutMark_le text.toList
  rw [Element.tokens, Weight.tokens_of_node] at hpaid
  rw [byteCount_toList] at hmark
  exact Nat.le_trans hpaid hmark

/-- **Reading never amplifies.**  The bytes of all names, keys, values and texts of a tree are no
more than those of the text it is read from, and neither is the number of nodes and attributes, so
that the limit on the size of a text is a limit on the tree.  No reference is ever replaced by
what a document declares: a reference to any but the predefined names, in text where some element
is open or in the value of an attribute, is a fault of the text. -/
theorem parse_volume (limits : Limits) (text : String) :
    (∀ root, Element.parse limits text = .ok root →
      root.bytes ≤ text.utf8ByteSize ∧ root.things ≤ text.utf8ByteSize ∧
        root.bytes ≤ limits.size ∧ root.things ≤ limits.size) ∧
    ∀ earlier event later, (Transcript.ofText text).events = earlier ++ event :: later →
      event.NamesEntity (depthAfterEvents 0 earlier) →
        ∃ fault, Element.parse limits text = .error fault := by
  constructor
  · intro root h
    have hsize : text.utf8ByteSize ≤ limits.size := (Element.parse_eq_ok_iff.mp h).1
    have hbytes : root.bytes ≤ text.utf8ByteSize := by
      refine weight_le_of_parse ?_ h
      intro reader rest event tokens _ htokens
      exact Nat.le_trans (Weight.bytes_le_of_event htokens) (Nat.le_add_left _ _)
    have hthings : root.things ≤ text.utf8ByteSize := by
      refine weight_le_of_parse ?_ h
      intro reader rest event tokens hread htokens
      exact Weight.things_le_of_event htokens (Reader.mark_add_written_pos hread)
    exact ⟨hbytes, hthings, Nat.le_trans hbytes hsize, Nat.le_trans hthings hsize⟩
  · intro earlier event later hevents hentity
    rcases hparse : Element.parse limits text with fault | root
    · exact ⟨fault, rfl⟩
    · exfalso
      obtain ⟨-, -, htokens, -⟩ := Element.parse_eq_ok_iff.mp hparse
      rw [Transcript.tokens, hevents] at htokens
      obtain ⟨found, hfound⟩ := tokens_of_eventTokens htokens
      exact Event.tokens_ne_ok_of_namesEntity hentity found hfound

/-- References by number and by a predefined name, and one by a declared name. -/
theorem parse_volume_references :
    (Element.bytes ⟨"a", ⟨[("k", "A")], by decide⟩, [.text "<"]⟩ ≤
        "<a k='&#65;'>&lt;</a>".utf8ByteSize ∧
      Element.things ⟨"a", ⟨[("k", "A")], by decide⟩, [.text "<"]⟩ ≤
        "<a k='&#65;'>&lt;</a>".utf8ByteSize) ∧
      ∃ fault, Element.parse .strict "<!DOCTYPE a [<!ENTITY b 'c'>]><a>&b;</a>" =
        .error fault := by
  constructor
  · have hparse : Element.parse .strict "<a k='&#65;'>&lt;</a>" =
        .ok ⟨"a", ⟨[("k", "A")], by decide⟩, [.text "<"]⟩ := by
      rw [Element.parse_eq_ok_iff]
      refine ⟨by decide, by decide +kernel, by decide +kernel, ?_⟩
      exact ⟨by decide, by decide, trivial, trivial⟩
    obtain ⟨hbytes, hthings, -, -⟩ := (parse_volume .strict _).1 _ hparse
    exact ⟨hbytes, hthings⟩
  · have hevents : (Transcript.ofText "<!DOCTYPE a [<!ENTITY b 'c'>]><a>&b;</a>").events =
        [.doctype " a [<!ENTITY b 'c'>]".toList, .startTag ⟨['a'], []⟩] ++
          .text "&b;".toList :: [.endTag ['a']] := by
      decide +kernel
    have hbody : ∀ c ∈ ['b'], inBody c = true := List.forall_mem_singleton.mpr (by decide)
    refine (parse_volume .strict _).2 _ _ _ hevents (Or.inl ⟨by decide, _, rfl, ?_⟩)
    exact ⟨[], ['b'], [], rfl, hbody, by decide, by decide⟩

end Xml
end ServiceTypes
