import ServiceTypes.Proofs.Text.Scan
import ServiceTypes.Proofs.Xml.Acceptance
import ServiceTypes.Schema.Extraction

/-!
# Documents that begin alike

The reader is lenient at the end of a text: an end tag and a processing instruction may run to it
without their `>`, and a lone `<` there counts for nothing.  So a text that is cut off can still be
a document.  It is then the same document.

Two readings go side by side for this, of a text and of the same text with more behind it.  They
take the same steps as long as no step of the first runs to its end (`step_append`).  Where one
does, only three kinds of events are possible, and the first reading is over.  Its root is closed
by then, and a closed root is never changed or replaced (`root_foldlM_accept`), so that the second
reading can only fail or come to it as well.

* `Completes`: what is left to read brings a half-built tree to its root.
* `root_eq_of_append`: more text behind a document does not change its root.
* `root_eq_of_beginning`: of two documents of which one begins with the other the roots are the
  same, and so are the definitions.
-/

namespace ServiceTypes
namespace Xml

open Text

/-! ## A closed root is final -/

namespace Builder

theorem root_attach {builder after : Builder} {element root : Element}
    (hroot : builder.root = some root) (h : builder.attach element = .ok after) :
    after.root = some root := by
  rw [attach] at h
  split at h
  · obtain rfl := Except.ok.inj h
    rw [root_addChild, hroot]
  · rw [hroot] at h
    cases h

theorem root_accept {builder after : Builder} {token : Token} {root : Element}
    (hroot : builder.root = some root) (h : builder.accept token = .ok after) :
    after.root = some root := by
  cases token with
  | opening name attributes =>
    obtain rfl := Except.ok.inj h
    exact hroot
  | text content =>
    obtain rfl := Except.ok.inj h
    rw [root_addChild, hroot]
  | closing name =>
    rcases hstack : builder.stack with _ | ⟨element, outer⟩
    · obtain ⟨stack, depth, root', hdepth⟩ := builder
      obtain rfl : stack = [] := hstack
      obtain rfl := Except.ok.inj h
      exact hroot
    · obtain ⟨before, rfl, -, hbefore⟩ := eq_push_of_stack_eq_cons hstack
      exact root_attach (hbefore.trans hroot) h

/-- **A closed root is final**: no token changes it or puts another in its place. -/
theorem root_foldlM_accept {builder after : Builder} {tokens : List Token} {root : Element}
    (hroot : builder.root = some root) (h : tokens.foldlM accept builder = .ok after) :
    after.root = some root := by
  induction tokens generalizing builder with
  | nil =>
    obtain rfl := Except.ok.inj h
    exact hroot
  | cons token tokens ih =>
    rw [List.foldlM_cons, bind_eq_ok_iff] at h
    obtain ⟨between, hfirst, hrest⟩ := h
    exact ih (root_accept hroot hfirst) hrest

end Builder

/-! ## Bringing a half-built tree to its root -/

/-- What a reader has left to read is without a misreading, and brings a half-built tree to the
root. -/
def Completes (limits : Limits) (reader : Reader) (builder : Builder) (root : Element) : Prop :=
  reader.transcript.ending = none ∧
    ∃ after, reader.transcript.events.foldlM (Builder.take limits) builder = .ok after ∧
      after.finish = .ok root

variable {limits : Limits} {reader rest : Reader} {builder : Builder} {root : Element}

theorem not_completes_of_error {misread : Misread} (hnext : reader.next = .error misread) :
    ¬ Completes limits reader builder root := by
  rintro ⟨hending, -⟩
  rw [Reader.transcript_of_error hnext] at hending
  cases hending

theorem completes_of_none (hnext : reader.next = .ok none) :
    Completes limits reader builder root ↔ builder.finish = .ok root := by
  rw [Completes, Reader.transcript_of_none hnext]
  constructor
  · rintro ⟨-, after, hafter, hfinish⟩
    obtain rfl := Except.ok.inj hafter
    exact hfinish
  · intro hfinish
    exact ⟨rfl, builder, rfl, hfinish⟩

theorem completes_of_step {event : Event} (hstep : Reader.Step reader event rest) :
    Completes limits reader builder root ↔
      ∃ between, builder.take limits event = .ok between ∧
        Completes limits rest between root := by
  rw [Completes, Reader.transcript_of_some (Reader.next_of_step hstep)]
  simp only [List.foldlM_cons, bind_eq_ok_iff]
  constructor
  · rintro ⟨hending, after, ⟨between, hbetween, hafter⟩, hfinish⟩
    exact ⟨between, hbetween, hending, after, hafter, hfinish⟩
  · rintro ⟨between, hbetween, hending, after, hafter, hfinish⟩
    exact ⟨hending, after, ⟨between, hbetween, hafter⟩, hfinish⟩

/-- When the root is closed already, it is the root that comes out. -/
theorem root_eq_of_completes {closed : Element} (hclosed : builder.root = some closed)
    (h : Completes limits reader builder root) : root = closed := by
  obtain ⟨-, after, hafter, hfinish⟩ := h
  obtain ⟨tokens, -, -, haccept⟩ := Builder.foldlM_take_eq_ok_iff.mp hafter
  have hroot := Builder.root_foldlM_accept hclosed haccept
  rw [(Builder.finish_eq_ok_iff.mp hfinish).2] at hroot
  exact Option.some.inj hroot

theorem Element.parse_eq_ok_iff_completes {text : String} :
    Element.parse limits text = .ok root ↔
      text.utf8ByteSize ≤ limits.size ∧
        Completes limits ⟨withoutMark text.toList, []⟩ {} root := by
  rw [Element.parse_eq, bind_eq_ok_iff]
  simp only [Transcript.root_eq_ok_iff]
  constructor
  · rintro ⟨⟨⟩, hsize, hcompletes⟩
    exact ⟨Limits.require_eq_ok_iff.mp hsize, hcompletes⟩
  · rintro ⟨hsize, hcompletes⟩
    exact ⟨(), Limits.require_eq_ok_iff.mpr hsize, hcompletes⟩

/-! ## Reading with more text behind -/

namespace Reader

/-- A reader with more text behind what it has not read. -/
def append (reader : Reader) (more : List Char) : Reader :=
  ⟨reader.unread ++ more, reader.openNames⟩

/-- The events that can run to the end of a text and lack their own end. -/
def MayRunOut : Event → Prop
  | .text _ => True
  | .endTag _ => True
  | .instruction _ => True
  | _ => False

/-- **A step is the same with more text behind, or it runs to the end of the text.** -/
theorem step_append {event : Event} (h : Step reader event rest) (more : List Char) :
    Step (reader.append more) event (rest.append more) ∨
      rest.unread = [] ∧ MayRunOut event := by
  cases h with
  | @text c text names hc =>
    by_cases hdrop : text.dropWhile isText = []
    · exact Or.inr ⟨hdrop, trivial⟩
    · obtain ⟨htake, hrest⟩ := run_append hdrop more
      have hstep := @Step.text c (text ++ more) names hc
      rw [htake, hrest] at hstep
      exact Or.inl hstep
  | @endTag after name outer hname =>
    by_cases hdrop : after.dropWhile isInner = []
    · exact Or.inr ⟨by simp [hdrop], trivial⟩
    · obtain ⟨htake, hrest⟩ := run_append hdrop more
      have hstep := @Step.endTag (after ++ more) name outer (by rw [htake, hname])
      rw [hrest, List.tail_append_of_ne_nil hdrop] at hstep
      exact Or.inl hstep
  | comment hcut => exact Or.inl (Step.comment (cut_append hcut more))
  | cdata hcut hword => exact Or.inl (Step.cdata (cut_append hcut more) hword)
  | doctype hd hcut hword hsome =>
    exact Or.inl (Step.doctype hd (cut_append hcut more) hword hsome)
  | @instruction after names hlast hlength =>
    by_cases hdrop : after.dropWhile isInner = []
    · exact Or.inr ⟨by simp [hdrop], trivial⟩
    · obtain ⟨htake, hrest⟩ := run_append hdrop more
      have hstep := @Step.instruction (after ++ more) names (by rw [htake, hlast])
        (by rw [htake]; exact hlength)
      rw [htake, hrest, List.tail_append_of_ne_nil hdrop] at hstep
      exact Or.inl hstep
  | startTag hslash hbang hquestion hcut hlast =>
    exact Or.inl (Step.startTag hslash hbang hquestion (cut_append hcut more) hlast)
  | emptyTag hslash hbang hquestion hcut hlast =>
    exact Or.inl (Step.emptyTag hslash hbang hquestion (cut_append hcut more) hlast)

/-- A reader finds nothing more in an empty text and in a lone `<`. -/
theorem unread_of_next_eq_none (h : reader.next = .ok none) :
    reader.unread = [] ∨ reader.unread = ['<'] := by
  obtain ⟨unread, names⟩ := reader
  rcases unread with _ | ⟨c, text⟩
  · exact Or.inl rfl
  by_cases hc : c = '<'
  · subst hc
    rcases text with _ | ⟨d, after⟩
    · exact Or.inr rfl
    · rw [next_markup, readMarkup] at h
      split at h
      all_goals
        obtain ⟨answer, -, hanswer⟩ := map_eq_ok_iff.mp h
        cases hanswer
  · rw [next_text hc] at h
    cases h

/-- Where an end tag can be read, nothing else can, whatever text comes behind. -/
theorem event_eq_of_endTag {name : List Char} (h : Step reader (.endTag name) rest)
    {more : List Char} {event : Event} {rest' : Reader}
    (h' : Step (reader.append more) event rest') : event = .endTag name := by
  cases h with
  | endTag hname =>
    cases h' with
    | endTag hname' => rfl
    | text hc => exact absurd rfl hc
    | startTag hslash _ _ _ _ => exact absurd rfl hslash
    | emptyTag hslash _ _ _ _ => exact absurd rfl hslash

end Reader

/-- Text and instructions leave the root as it is. -/
theorem root_take_of_mayRunOut {event : Event} {after : Builder} (hevent : Reader.MayRunOut event)
    (hend : ∀ name, event ≠ .endTag name) (h : builder.take limits event = .ok after) :
    after.root = builder.root := by
  cases event with
  | text raw =>
    rw [Builder.take, Builder.takeText] at h
    split at h
    · obtain rfl := Except.ok.inj h
      rfl
    · split at h
      · cases h
      · split at h
        · obtain rfl := Except.ok.inj h
          rfl
        · obtain rfl := Except.ok.inj h
          exact Builder.root_addChild ..
  | instruction content =>
    obtain rfl := Except.ok.inj h
    rfl
  | endTag name => exact absurd rfl (hend name)
  | _ => cases hevent

/-- **More text behind a document does not change its root**: it makes the reading fail or comes to
nothing. -/
theorem root_eq_of_append {root' : Element} (more : List Char)
    (h : Completes limits reader builder root)
    (h' : Completes limits (reader.append more) builder root') : root' = root := by
  induction reader using Reader.reading_induction generalizing builder with
  | misread reader cause hnext => exact absurd h (not_completes_of_error hnext)
  | done reader hnext =>
    have hfinish := (completes_of_none hnext).mp h
    exact root_eq_of_completes (Builder.finish_eq_ok_iff.mp hfinish).2 h'
  | event reader event rest hstep ih =>
    obtain ⟨between, hbetween, hrest⟩ := (completes_of_step hstep).mp h
    rcases Reader.step_append hstep more with hstep' | ⟨hend, hevent⟩
    · obtain ⟨between', hbetween', hrest'⟩ := (completes_of_step hstep').mp h'
      obtain rfl := Except.ok.inj (hbetween.symm.trans hbetween')
      exact ih hrest hrest'
    -- the first reading is over behind `event`, so that the root is closed by then
    have hnone : rest.next = .ok none := by rw [Reader.next, hend]
    have hclosed := (Builder.finish_eq_ok_iff.mp ((completes_of_none hnone).mp hrest)).2
    by_cases hendTag : ∃ name, event = .endTag name
    · obtain ⟨name, rfl⟩ := hendTag
      rcases hnext : (reader.append more).next with misread | _ | ⟨event, rest'⟩
      · exact absurd h' (not_completes_of_error hnext)
      · cases hstep
        rcases Reader.unread_of_next_eq_none hnext with hunread | hunread <;> cases hunread
      · have hstep' := Reader.next_eq_some_iff.mp hnext
        obtain rfl := Reader.event_eq_of_endTag hstep hstep'
        obtain ⟨between', hbetween', hrest'⟩ := (completes_of_step hstep').mp h'
        obtain rfl := Except.ok.inj (hbetween.symm.trans hbetween')
        exact root_eq_of_completes hclosed hrest'
    · have hroot := root_take_of_mayRunOut hevent (not_exists.mp hendTag) hbetween
      exact root_eq_of_completes (hroot.symm.trans hclosed) h'

/-! ## Documents that begin alike -/

theorem withoutMark_append {text : List Char} (h : text ≠ []) (more : List Char) :
    withoutMark (text ++ more) = withoutMark text ++ more := by
  obtain ⟨c, text, rfl⟩ := List.exists_cons_of_ne_nil h
  rw [List.cons_append, withoutMark, withoutMark]
  split <;> rfl

/-- An empty text has no root. -/
theorem not_completes_nil : ¬ Completes limits ⟨[], []⟩ {} root := by
  intro h
  have hroot := (Builder.finish_eq_ok_iff.mp ((completes_of_none rfl).mp h)).2
  cases hroot

/-- **Of two documents of which one begins with the other** the roots are the same, and so are the
definitions.  So a document that is cut off somewhere, or has something put behind it, is no
document any more or still the same one. -/
theorem root_eq_of_beginning {first second : String} {root' : Element}
    (hbegin : first.toList <+: second.toList) (h : Element.parse limits first = .ok root)
    (h' : Element.parse limits second = .ok root') :
    root' = root ∧
      ∀ prefixes, Schema.Settings.definitionsOfText ⟨prefixes, limits⟩ second =
        Schema.Settings.definitionsOfText ⟨prefixes, limits⟩ first := by
  obtain ⟨more, hmore⟩ := hbegin
  have hcompletes := (Element.parse_eq_ok_iff_completes.mp h).2
  have hcompletes' := (Element.parse_eq_ok_iff_completes.mp h').2
  have hfirst : first.toList ≠ [] := by
    intro hnil
    rw [hnil] at hcompletes
    exact not_completes_nil hcompletes
  rw [← hmore, withoutMark_append hfirst] at hcompletes'
  obtain rfl : root' = root := root_eq_of_append more hcompletes hcompletes'
  refine ⟨rfl, fun prefixes => ?_⟩
  rw [Schema.Settings.definitionsOfText, Schema.Settings.definitionsOfText, h, h']

/-- A document that is cut off within the end tag of its root, and one that goes on from there. -/
theorem root_eq_of_beginning_endTag :
    "<a k='v'>b</a".toList <+: "<a k='v'>b</a ><!--c-->".toList ∧
      Element.parse .strict "<a k='v'>b</a" =
        .ok ⟨"a", ⟨[("k", "v")], by decide⟩, [.text "b"]⟩ ∧
      Element.parse .strict "<a k='v'>b</a ><!--c-->" =
        .ok ⟨"a", ⟨[("k", "v")], by decide⟩, [.text "b"]⟩ ∧
      Schema.Settings.definitionsOfText ⟨⟨"xsd", "tns"⟩, .strict⟩ "<a k='v'>b</a ><!--c-->" =
        Schema.Settings.definitionsOfText ⟨⟨"xsd", "tns"⟩, .strict⟩ "<a k='v'>b</a" := by
  have hbegin : "<a k='v'>b</a".toList <+: "<a k='v'>b</a ><!--c-->".toList := by decide
  have hwithin : Element.Within .strict ⟨"a", ⟨[("k", "v")], by decide⟩, [.text "b"]⟩ := by
    simp [Element.Within, Element.toNode, Node.Within, Node.ForestWithin, Limits.strict,
      Attributes.size]
  have h : Element.parse .strict "<a k='v'>b</a" =
      .ok ⟨"a", ⟨[("k", "v")], by decide⟩, [.text "b"]⟩ :=
    Element.parse_eq_ok_iff.mpr ⟨by decide, by decide +kernel, by decide +kernel, hwithin⟩
  have h' : Element.parse .strict "<a k='v'>b</a ><!--c-->" =
      .ok ⟨"a", ⟨[("k", "v")], by decide⟩, [.text "b"]⟩ :=
    Element.parse_eq_ok_iff.mpr ⟨by decide, by decide +kernel, by decide +kernel, hwithin⟩
  exact ⟨hbegin, h, h', (root_eq_of_beginning hbegin h h').2 _⟩

end Xml
end ServiceTypes
