import ServiceTypes.Proofs.Text.Scan
import ServiceTypes.Proofs.Xml.Room

/-!
# Which texts are documents

A text is a document when it can be read to its end, its tokens exist, and they are the tokens of
one tree; the tree is then the root.  So the builder accepts exactly the well-nested sequences of
events with a single root, and gives back what was written, each thing once and in its place.

* `Transcript.ofText`, `Transcript.tokens`: how a text is read, and the tokens of that.
* `parse_eq_ok_iff`: when a text is a document under some limits.
* `parse_iff_tokens`: the same under limits no smaller than the text, where no limit plays a part
  and every failure is one of the document.
-/

namespace ServiceTypes
namespace Xml

/-- How a whole text is read. -/
def Transcript.ofText (text : String) : Transcript :=
  (Reader.mk (withoutMark text.toList) []).transcript

/-- The tokens of a reading.  They do not exist when the attributes of some tag, or the references
of some text inside the root, cannot be read. -/
def Transcript.tokens (transcript : Transcript) : Except Fault (List Token) :=
  eventTokens 0 transcript.events

/-! ## Under any limits -/

/-- What is done with a transcript after its events are in does not depend on limits. -/
theorem Transcript.root_eq_bind (limits : Limits) (text : List Char) (transcript : Transcript) :
    transcript.root limits text =
      transcript.events.foldlM (Builder.take limits) {} >>= fun builder =>
        match transcript.ending with
        | some misread => .error (.xml (.misread (misread.position text) misread.cause))
        | none => builder.finish := by
  rw [Transcript.root]
  cases transcript.events.foldlM (Builder.take limits) {} <;> rfl

/-- The root of a transcript is what its events come to, once they are all in. -/
theorem Transcript.root_eq_ok_iff {limits : Limits} {text : List Char} {transcript : Transcript}
    {root : Element} :
    transcript.root limits text = .ok root ↔
      transcript.ending = none ∧
        ∃ builder, transcript.events.foldlM (Builder.take limits) {} = .ok builder ∧
          builder.finish = .ok root := by
  rw [Transcript.root]
  rcases transcript.events.foldlM (Builder.take limits) {} with fault | builder
  · simp
  · rcases transcript.ending with _ | misread
    · simp
    · simp

/-- What a text is read as is well nested. -/
theorem Transcript.nested_ofText {text : String} {tokens : List Token}
    (h : (Transcript.ofText text).tokens = .ok tokens) : Nested [] tokens :=
  @Reader.nested_tokens ⟨withoutMark text.toList, []⟩ tokens h

theorem Element.parse_eq (limits : Limits) (text : String) :
    Element.parse limits text =
      limits.require .size text.utf8ByteSize >>= fun _ =>
        (Transcript.ofText text).root limits (withoutMark text.toList) := rfl

/-- **When a text is a document**: it is not too long, it can be read to its end, and what it is
read as are the tokens of a tree in which no element is too deep and none has too many
attributes. -/
theorem Element.parse_eq_ok_iff {limits : Limits} {text : String} {root : Element} :
    Element.parse limits text = .ok root ↔
      text.utf8ByteSize ≤ limits.size ∧ (Transcript.ofText text).ending = none ∧
        (Transcript.ofText text).tokens = .ok root.tokens ∧ root.Within limits := by
  rw [Element.parse_eq, bind_eq_ok_iff]
  simp only [Transcript.root_eq_ok_iff, Builder.foldlM_take_eq_ok_iff]
  constructor
  · rintro ⟨⟨⟩, hsize, hending, builder, ⟨tokens, htokens, hwithin, haccept⟩, hfinish⟩
    obtain rfl : tokens = root.tokens :=
      (Builder.assembled_iff (Transcript.nested_ofText htokens)).mp ⟨builder, haccept, hfinish⟩
    exact ⟨Limits.require_eq_ok_iff.mp hsize, hending, htokens,
      (tokensWithin_tokens 0 root.toNode).mp hwithin⟩
  · rintro ⟨hsize, hending, htokens, hwithin⟩
    obtain ⟨builder, haccept, hfinish⟩ :=
      (Builder.assembled_iff (Transcript.nested_ofText htokens)).mpr rfl
    exact ⟨(), Limits.require_eq_ok_iff.mpr hsize, hending, builder,
      ⟨root.tokens, htokens, (tokensWithin_tokens 0 root.toNode).mpr hwithin, haccept⟩, hfinish⟩

/-! ## Under limits with room for the text -/

theorem length_withoutMark_le (text : List Char) :
    (withoutMark text).length ≤ text.length := by
  rcases text with _ | ⟨c, text⟩
  · exact Nat.le_refl _
  · rw [withoutMark]
    split
    · exact Nat.le_succ _
    · exact Nat.le_refl _

/-- Limits no smaller than a text leave room for all that it is read as. -/
theorem roomy_ofText {limits : Limits} {text : String}
    (hroom : ∀ limit, text.utf8ByteSize ≤ limits.bound limit) :
    Roomy limits 0 (Transcript.ofText text).events := by
  have hlength : (withoutMark text.toList).length ≤ text.utf8ByteSize := by
    refine Nat.le_trans (length_withoutMark_le _) ?_
    rw [← Text.byteCount_toList]
    exact Text.length_le_byteCount _
  have hdepth : text.utf8ByteSize ≤ limits.depth := hroom .depth
  have hattributes : text.utf8ByteSize ≤ limits.attributes := hroom .attributes
  refine roomy_transcript ⟨withoutMark text.toList, []⟩ ?_ ?_
  · dsimp only [List.length_nil]
    omega
  · dsimp only
    omega

/-- Under limits no smaller than a text only the document can be at fault. -/
theorem xml_of_parse_eq_error {limits : Limits} {text : String}
    (hroom : ∀ limit, text.utf8ByteSize ≤ limits.bound limit) {fault : Fault}
    (h : Element.parse limits text = .error fault) : ∃ defect, fault = .xml defect := by
  rw [Element.parse_eq, Limits.require_eq_ok_iff.mpr (hroom .size)] at h
  rcases bind_eq_error_iff.mp h with hsize | ⟨-, -, hroot⟩
  · cases hsize
  rw [Transcript.root] at hroot
  split at hroot
  · next hfold =>
    obtain rfl := Except.error.inj hroot
    exact Builder.xml_of_foldlM_take_eq_error (roomy_ofText hroom) hfold
  · split at hroot
    · exact ⟨_, (Except.error.inj hroot).symm⟩
    · exact Builder.xml_of_finish_eq_error hroot

/-- The tokens of one element and more than that are not the tokens of a single element. -/
theorem tokens_ne_of_two (root first second : Element) (rest : List Token) :
    root.tokens ≠ first.tokens ++ (second.tokens ++ rest) := by
  intro h
  have hone := Builder.foldlM_accept_tokens {} root
  have hattach : ({ root := some first } : Builder).attach second =
      .error (.xml (.secondRoot second.name)) := rfl
  rw [h, List.foldlM_append, Builder.foldlM_accept_tokens] at hone
  have htwo : (second.tokens ++ rest).foldlM Builder.accept { root := some first } =
      Except.ok { root := some root } := hone
  rw [List.foldlM_append, Builder.foldlM_accept_tokens, hattach] at htwo
  cases htwo

/-- **The builder accepts exactly the well-nested sequences with a single root, and keeps
everything in its place.**  Under limits no smaller than the text, the text is a document with a
given root when it can be read to its end and what it is read as are the tokens of that root.
Every failure then is one of the document; in particular there is one when there is no element at
all, when some element is still open at the end, and when a second element follows the first
outside of it. -/
theorem parse_iff_tokens {limits : Limits} {text : String}
    (hroom : ∀ limit, text.utf8ByteSize ≤ limits.bound limit) :
    (∀ root, Element.parse limits text = .ok root ↔
      (Transcript.ofText text).ending = none ∧
        (Transcript.ofText text).tokens = .ok root.tokens) ∧
    (∀ fault, Element.parse limits text = .error fault → ∃ defect, fault = .xml defect) ∧
    (∀ tokens, (Transcript.ofText text).tokens = .ok tokens →
      (tokens = [] ∨ 0 < depthAfterTokens 0 tokens ∨
        ∃ (first second : Element) (rest : List Token),
          tokens = first.tokens ++ (second.tokens ++ rest)) →
      ∃ defect, Element.parse limits text = .error (.xml defect)) := by
  have hiff : ∀ root, Element.parse limits text = .ok root ↔
      (Transcript.ofText text).ending = none ∧
        (Transcript.ofText text).tokens = .ok root.tokens := by
    intro root
    rw [Element.parse_eq_ok_iff]
    constructor
    · rintro ⟨-, hending, htokens, -⟩
      exact ⟨hending, htokens⟩
    · rintro ⟨hending, htokens⟩
      have hwithin := tokensWithin_of_roomy (roomy_ofText hroom) htokens
      exact ⟨hroom .size, hending, htokens, (tokensWithin_tokens 0 root.toNode).mp hwithin⟩
  refine ⟨hiff, fun fault => xml_of_parse_eq_error hroom, ?_⟩
  intro tokens htokens hshape
  rcases hparse : Element.parse limits text with fault | root
  · obtain ⟨defect, rfl⟩ := xml_of_parse_eq_error hroom hparse
    exact ⟨defect, rfl⟩
  · -- the tokens would be those of a root, which none of the three shapes can be
    exfalso
    obtain rfl : tokens = root.tokens :=
      Except.ok.inj (htokens.symm.trans ((hiff root).mp hparse).2)
    rcases hshape with hnil | hopen | ⟨first, second, rest, htwo⟩
    · rw [Element.tokens_eq] at hnil
      cases hnil
    · have hclosed : depthAfterTokens 0 root.tokens = 0 := depthAfterTokens_tokens 0 root.toNode
      omega
    · exact tokens_ne_of_two root first second rest htwo

/-- A comment, layout and an empty tag, under limits that have room for them. -/
theorem parse_iff_tokens_layout :
    (∀ limit, "<a k='v'> <!--?--><c/>b</a>".utf8ByteSize ≤ Limits.strict.bound limit) ∧
      Element.parse .strict "<a k='v'> <!--?--><c/>b</a>" =
        .ok ⟨"a", ⟨[("k", "v")], by decide⟩, [.element "c" ∅ [], .text "b"]⟩ := by
  have hroom : ∀ limit,
      "<a k='v'> <!--?--><c/>b</a>".utf8ByteSize ≤ Limits.strict.bound limit := by
    intro limit
    cases limit <;> decide
  exact ⟨hroom, ((parse_iff_tokens hroom).1 _).mpr ⟨by decide +kernel, by decide +kernel⟩⟩

end Xml
end ServiceTypes
