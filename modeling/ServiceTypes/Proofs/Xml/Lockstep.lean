import ServiceTypes.Proofs.Xml.Loop
import ServiceTypes.Proofs.Xml.Room

/-!
# Reader and builder in step

Two stacks are kept side by side.  The reader has the names of the elements that are open, as they
are written, and checks end tags against them.  The builder has the elements themselves, and closes
the innermost one at every end tag without a look at its name.  The result is right only because
the two stacks always agree.

That they do has one cause: an event does the same to both.  `Event.namesAfter` says what that is,
and the reader (`openNames_of_step`) and the builder (`names_of_take`) both keep to it, whatever the
names are made of.  The other invariant is that of the limits, which each tag is tested against
when it opens: no element that was built, whether it is closed or still open, is too deep or has too
many attributes.

* `Event.namesAfter`: the names that are open behind an event.
* `Builder.Within`: a half-built tree that keeps within limits, with one lemma for each operation.
* `Loop.InStep`, `inStep_of_reached`: the invariant of the loop.
* `stacks_in_step`: the stacks agree in every round, so that an end tag closes the element of its
  own name, and a document with an open end names the innermost element.
-/

namespace ServiceTypes
namespace Xml

open Text

/-! ## The names of the open elements -/

/-- The names of the elements that are open behind an event, innermost first. -/
def Event.namesAfter (names : List (List Char)) : Event → List (List Char)
  | .startTag tag => tag.name :: names
  | .endTag _ => names.tail
  | _ => names

/-- What an event does to the names that the reader keeps. -/
theorem Reader.openNames_of_step {reader rest : Reader} {event : Event}
    (h : Step reader event rest) : rest.openNames = event.namesAfter reader.openNames := by
  cases h <;> rfl

namespace Builder

variable {limits : Limits} {builder after : Builder}

/-- The names of the open elements as they are written, innermost first. -/
def openNames (builder : Builder) : List (List Char) :=
  builder.names.map String.toList

@[simp] theorem openNames_push (builder : Builder) (element : OpenElement) :
    (builder.push element).openNames = element.name.toList :: builder.openNames := rfl

@[simp] theorem openNames_addChild (builder : Builder) (child : Node) :
    (builder.addChild child).openNames = builder.openNames := by
  obtain ⟨stack, depth, root, hdepth⟩ := builder
  cases stack <;> rfl

theorem openNames_attach {element : Element} (h : builder.attach element = .ok after) :
    after.openNames = builder.openNames :=
  congrArg (List.map String.toList) (emitted_attach h).2

theorem openNames_closeElement (h : builder.closeElement = .ok after) :
    after.openNames = builder.openNames.tail := by
  rcases hstack : builder.stack with _ | ⟨element, outer⟩
  · obtain ⟨stack, depth, root, hdepth⟩ := builder
    obtain rfl : stack = [] := hstack
    obtain rfl := Except.ok.inj h
    rfl
  · obtain ⟨before, rfl, -⟩ := eq_push_of_stack_eq_cons hstack
    rw [closeElement_push] at h
    rw [openNames_attach h, openNames_push, List.tail_cons]

/-- A run of text is added to the innermost element, or nothing is done. -/
theorem takeText_cases {raw : List Char} (h : builder.takeText raw = .ok after) :
    after = builder ∨ ∃ content, after = builder.addChild (.text content) := by
  rw [takeText] at h
  split at h
  · exact Or.inl (Except.ok.inj h).symm
  · split at h
    · cases h
    · split at h
      · exact Or.inl (Except.ok.inj h).symm
      · exact Or.inr ⟨_, (Except.ok.inj h).symm⟩

/-- **What an event does to the names of the elements that the builder keeps** is what it does to
the names that the reader keeps. -/
theorem names_of_take {event : Event} (h : builder.take limits event = .ok after) :
    after.openNames = event.namesAfter builder.openNames := by
  cases event with
  | startTag tag =>
    obtain ⟨element, helement, hafter⟩ := bind_eq_ok_iff.mp h
    obtain ⟨attributes, -, -, rfl⟩ := openElement_eq_ok_iff.mp helement
    obtain rfl := Except.ok.inj hafter
    rw [openNames_push, String.toList_ofList]
    rfl
  | emptyTag tag =>
    obtain ⟨element, -, hafter⟩ := bind_eq_ok_iff.mp h
    exact openNames_attach hafter
  | endTag name => exact openNames_closeElement h
  | text raw =>
    rcases takeText_cases h with rfl | ⟨content, rfl⟩
    · rfl
    · exact openNames_addChild builder _
  | cdata content =>
    obtain rfl := Except.ok.inj h
    exact openNames_addChild builder _
  | comment content =>
    obtain rfl := Except.ok.inj h
    rfl
  | instruction content =>
    obtain rfl := Except.ok.inj h
    rfl
  | doctype content =>
    obtain rfl := Except.ok.inj h
    rfl

end Builder

/-! ## Half-built trees within limits -/

theorem Node.forestWithin_append {limits : Limits} {depth : Nat} {first second : List Node} :
    Node.ForestWithin limits depth (first ++ second) ↔
      Node.ForestWithin limits depth first ∧ Node.ForestWithin limits depth second := by
  induction first with
  | nil => simp [Node.ForestWithin]
  | cons child first ih =>
    rw [List.cons_append, Node.ForestWithin, Node.ForestWithin, ih, and_assoc]

/-- An element as far as it has come, at some depth, in which no element is too deep and none has
too many attributes. -/
def OpenElement.Within (limits : Limits) (depth : Nat) (element : OpenElement) : Prop :=
  element.close.toNode.Within limits depth

theorem OpenElement.within_add {limits : Limits} {depth : Nat} {element : OpenElement}
    {child : Node} :
    (element.add child).Within limits depth ↔
      element.Within limits depth ∧ child.Within limits (depth + 1) := by
  rw [OpenElement.Within, OpenElement.Within, Element.toNode, Element.toNode, Node.Within,
    Node.Within, OpenElement.children_close_add, Node.forestWithin_append, Node.ForestWithin,
    Node.ForestWithin, and_true, and_assoc, and_assoc]
  rfl

namespace Builder

/-- Open elements, innermost first, each of which is within limits at its own depth. -/
def StackWithin (limits : Limits) : List OpenElement → Prop
  | [] => True
  | element :: outer => element.Within limits (outer.length + 1) ∧ StackWithin limits outer

/-- A half-built tree within limits: neither in the closed root nor in the open elements is there
one that is too deep or has too many attributes. -/
structure Within (limits : Limits) (builder : Builder) : Prop where
  stack : StackWithin limits builder.stack
  root : ∀ root, builder.root = some root → root.Within limits

variable {limits : Limits} {builder after : Builder}

/-- There are no more open elements than the limits allow. -/
theorem length_le_of_stackWithin {stack : List OpenElement} (h : StackWithin limits stack) :
    stack.length ≤ limits.depth := by
  cases stack with
  | nil => exact Nat.zero_le _
  | cons element outer => exact h.1.1

theorem within_push {element : OpenElement} (hbuilder : builder.Within limits)
    (helement : element.Within limits (builder.stack.length + 1)) :
    (builder.push element).Within limits :=
  ⟨⟨helement, hbuilder.stack⟩, hbuilder.root⟩

theorem within_addChild {child : Node} (hbuilder : builder.Within limits)
    (hchild : child.Within limits (builder.stack.length + 1)) :
    (builder.addChild child).Within limits := by
  refine ⟨?_, fun root hroot => hbuilder.root root ((root_addChild builder child).symm.trans hroot)⟩
  have hstack := hbuilder.stack
  rcases hcons : builder.stack with _ | ⟨inner, outer⟩
  · rw [addChild_of_nil hcons]
    exact hstack
  · rw [hcons] at hstack hchild
    rw [stack_addChild_of_cons hcons]
    exact ⟨OpenElement.within_add.mpr ⟨hstack.1, hchild⟩, hstack.2⟩

theorem within_attach {element : Element} (hbuilder : builder.Within limits)
    (helement : element.toNode.Within limits (builder.stack.length + 1))
    (h : builder.attach element = .ok after) : after.Within limits := by
  rw [attach] at h
  split at h
  · obtain rfl := Except.ok.inj h
    exact within_addChild hbuilder helement
  · next hnil =>
    split at h
    · obtain rfl := Except.ok.inj h
      rw [hnil] at helement
      refine ⟨trivial, fun root hroot => ?_⟩
      obtain rfl := Option.some.inj hroot
      exact helement
    · cases h

theorem within_closeElement (hbuilder : builder.Within limits)
    (h : builder.closeElement = .ok after) : after.Within limits := by
  rcases hstack : builder.stack with _ | ⟨element, outer⟩
  · obtain ⟨stack, depth, root, hdepth⟩ := builder
    obtain rfl : stack = [] := hstack
    obtain rfl := Except.ok.inj h
    exact hbuilder
  · obtain ⟨before, rfl, -, -⟩ := eq_push_of_stack_eq_cons hstack
    rw [closeElement_push] at h
    exact within_attach ⟨hbuilder.stack.2, hbuilder.root⟩ hbuilder.stack.1 h

/-- What a tag opens is tested against the limits. -/
theorem within_openElement {tag : Tag} {element : OpenElement}
    (h : builder.openElement limits tag = .ok element) :
    element.Within limits (builder.stack.length + 1) := by
  obtain ⟨attributes, -, ⟨hdepth, hsize⟩, rfl⟩ := openElement_eq_ok_iff.mp h
  rw [builder.depth_eq] at hdepth
  exact ⟨hdepth, hsize, trivial⟩

/-- **No event leads out of the limits.** -/
theorem within_take {event : Event} (hbuilder : builder.Within limits)
    (h : builder.take limits event = .ok after) : after.Within limits := by
  cases event with
  | startTag tag =>
    obtain ⟨element, helement, hafter⟩ := bind_eq_ok_iff.mp h
    obtain rfl := Except.ok.inj hafter
    exact within_push hbuilder (within_openElement helement)
  | emptyTag tag =>
    obtain ⟨element, helement, hafter⟩ := bind_eq_ok_iff.mp h
    exact within_attach hbuilder (within_openElement helement) hafter
  | endTag name => exact within_closeElement hbuilder h
  | text raw =>
    rcases takeText_cases h with rfl | ⟨content, rfl⟩
    · exact hbuilder
    · exact within_addChild hbuilder trivial
  | cdata content =>
    obtain rfl := Except.ok.inj h
    exact within_addChild hbuilder trivial
  | comment content =>
    obtain rfl := Except.ok.inj h
    exact hbuilder
  | instruction content =>
    obtain rfl := Except.ok.inj h
    exact hbuilder
  | doctype content =>
    obtain rfl := Except.ok.inj h
    exact hbuilder

end Builder

/-! ## The invariant of the loop -/

namespace Loop

variable {limits : Limits} {text : String} {loop next : Loop}

/-- Reader and builder agree on what is open, and the builder is within limits. -/
structure InStep (limits : Limits) (loop : Loop) : Prop where
  names : loop.builder.openNames = loop.reader.openNames
  within : loop.builder.Within limits

theorem inStep_start (limits : Limits) (text : String) : (start text).InStep limits :=
  ⟨rfl, trivial, nofun⟩

theorem inStep_again (h : loop.InStep limits) (hround : loop.round limits text = .again next) :
    next.InStep limits := by
  obtain ⟨event, hstep, htake⟩ := round_eq_again_iff.mp hround
  refine ⟨?_, Builder.within_take h.within htake⟩
  rw [Builder.names_of_take htake, Reader.openNames_of_step hstep, h.names]

/-- **Reader and builder are in step in every round.** -/
theorem inStep_of_reached (h : Reached limits text loop) : loop.InStep limits := by
  induction h with
  | start => exact inStep_start limits text
  | again _ hround ih => exact inStep_again ih hround

/-- Where an end tag is read, there is an element to close, and it has the name that the tag
gives. -/
theorem exists_push_of_endTag (h : loop.InStep limits) {name : List Char} {rest : Reader}
    (hstep : Reader.Step loop.reader (.endTag name) rest) :
    ∃ (before : Builder) (element : OpenElement) (after : List Char),
      loop.builder = before.push element ∧ element.name.toList = name ∧
      loop.reader.unread = '<' :: '/' :: after ∧ endName (after.takeWhile isInner) = name := by
  obtain ⟨⟨unread, names⟩, builder⟩ := loop
  have hnames : builder.openNames = names := h.names
  cases hstep with
  | @endTag after _ outer hname =>
    rcases hstack : builder.stack with _ | ⟨element, stack⟩
    · rw [Builder.openNames, Builder.names, hstack] at hnames
      cases hnames
    · obtain ⟨before, rfl, -, -⟩ := Builder.eq_push_of_stack_eq_cons hstack
      exact ⟨before, element, after, rfl, (List.cons.inj hnames).1, rfl, hname⟩

end Loop

/-- A builder cannot finish for an open element when that is the innermost one. -/
theorem Builder.finish_eq_unclosed_iff {builder : Builder} {name : String} :
    builder.finish = .error (.xml (.unclosed name)) ↔
      builder.openNames.head? = some name.toList := by
  rw [finish, openNames, names]
  rcases builder.stack with _ | ⟨element, outer⟩
  · rcases builder.root with _ | root <;> simp
  · simp [String.toList_inj]

/-- **Reader and builder stay in step.**  In every round, whether the text will turn out to be a
document or not, the elements that the builder keeps open have the names that the reader keeps, in
the same order; there are never more of them than the limits allow; and no element in the closed
root or in the open ones is too deep or has too many attributes.  So where an end tag is read, the
builder has an element to close, and that has the name which is written in the tag.  The last round
comes to what the document comes to; and that is an open end exactly when the innermost of the
elements that are open at the end of the text has the name that is given. -/
theorem stacks_in_step (limits : Limits) (text : String) :
    (∀ loop, Loop.Reached limits text loop →
      loop.builder.openNames = loop.reader.openNames ∧
      loop.builder.stack.length ≤ limits.depth ∧ loop.builder.Within limits ∧
      ∀ name rest, loop.reader.next = .ok (some (.endTag name, rest)) →
        ∃ (before : Builder) (element : OpenElement) (after : List Char),
          loop.builder = before.push element ∧
          loop.reader.unread = '<' :: '/' :: after ∧ element.name.toList = name ∧
          endName (after.takeWhile isInner) = name ∧
          loop.builder.take limits (.endTag name) = before.attach element.close) ∧
    (text.utf8ByteSize ≤ limits.size → ∃ last, Loop.Reached limits text last ∧
      last.round limits text = .over (Element.parse limits text)) ∧
    ∀ name, Element.parse limits text = .error (.xml (.unclosed name)) ↔
      text.utf8ByteSize ≤ limits.size ∧ ∃ last, Loop.Reached limits text last ∧
        last.reader.next = .ok none ∧ last.reader.openNames.head? = some name.toList := by
  refine ⟨?_, exists_last_of_size, ?_⟩
  · intro loop hreached
    have hstep := Loop.inStep_of_reached hreached
    refine ⟨hstep.names, Builder.length_le_of_stackWithin hstep.within.stack, hstep.within, ?_⟩
    intro name rest hnext
    obtain ⟨before, element, after, hbuilder, hname, hunread, htag⟩ :=
      Loop.exists_push_of_endTag hstep (Reader.next_eq_some_iff.mp hnext)
    refine ⟨before, element, after, hbuilder, hunread, hname, htag, ?_⟩
    rw [hbuilder]
    exact Builder.closeElement_push before element
  · intro name
    constructor
    · intro h
      obtain ⟨hsize, last, hlast, ⟨misread, -, hdefect⟩ | ⟨hnext, hfinish⟩⟩ :=
        exists_last_of_atEnd (show (Defect.unclosed name).AtEnd from trivial) h
      · cases hdefect
      · refine ⟨hsize, last, hlast, hnext, ?_⟩
        rw [← (Loop.inStep_of_reached hlast).names]
        exact Builder.finish_eq_unclosed_iff.mp hfinish
    · rintro ⟨hsize, last, hlast, hnext, hhead⟩
      rw [← (Loop.inStep_of_reached hlast).names, ← Builder.finish_eq_unclosed_iff] at hhead
      have hround : last.round limits text = .over last.builder.finish := by
        rw [Loop.round, hnext]
      rw [Element.parse_eq_outcome, Limits.require_eq_ok_iff.mpr hsize]
      show (Loop.start text).outcome limits text = _
      rw [← Loop.outcome_of_reached hlast, Loop.outcome_of_over hround, hhead]

/-- Two elements of which the inner one is closed, with space in its end tag, under limits that are
just wide enough. -/
theorem stacks_in_step_open :
    (∃ loop, Loop.Reached ⟨2, 11, 0, 0⟩ "<a><b></b >" loop ∧
      loop.reader.openNames = [['b'], ['a']] ∧ loop.builder.openNames = [['b'], ['a']] ∧
      ∃ (before : Builder) (element : OpenElement), loop.builder = before.push element ∧
        element.name.toList = ['b']) ∧
    Element.parse ⟨2, 11, 0, 0⟩ "<a><b></b >" = .error (.xml (.unclosed "a")) := by
  have hopen : ∀ {name : Char} {builder : Builder}, builder.depth + 1 ≤ 2 →
      Tag.attributes ⟨[name], []⟩ = .ok ∅ →
      builder.take ⟨2, 11, 0, 0⟩ (.startTag ⟨[name], []⟩) =
        .ok (builder.push ⟨String.ofList [name], ∅, []⟩) := by
    intro name builder hdepth hattributes
    refine bind_eq_ok_iff.mpr ⟨⟨String.ofList [name], ∅, []⟩, ?_, rfl⟩
    exact Builder.openElement_eq_ok_iff.mpr ⟨∅, hattributes, ⟨hdepth, Nat.zero_le _⟩, rfl⟩
  have hfirst : (Loop.start "<a><b></b >").round ⟨2, 11, 0, 0⟩ "<a><b></b >" =
      .again ⟨⟨"<b></b >".toList, [['a']]⟩, Builder.push {} ⟨"a", ∅, []⟩⟩ :=
    Loop.round_eq_again_iff.mpr ⟨.startTag ⟨['a'], []⟩,
      Reader.next_eq_some_iff.mp (by decide +kernel), hopen (by decide) (by decide +kernel)⟩
  have hsecond : Loop.round ⟨2, 11, 0, 0⟩ "<a><b></b >"
      ⟨⟨"<b></b >".toList, [['a']]⟩, Builder.push {} ⟨"a", ∅, []⟩⟩ =
      .again ⟨⟨"</b >".toList, [['b'], ['a']]⟩,
        (Builder.push {} ⟨"a", ∅, []⟩).push ⟨"b", ∅, []⟩⟩ :=
    Loop.round_eq_again_iff.mpr ⟨.startTag ⟨['b'], []⟩,
      Reader.next_eq_some_iff.mp (by decide +kernel), hopen (by decide) (by decide +kernel)⟩
  have hnext : (Reader.mk "</b >".toList [['b'], ['a']]).next =
      .ok (some (.endTag ['b'], ⟨[], [['a']]⟩)) := by decide +kernel
  have hthird : Loop.round ⟨2, 11, 0, 0⟩ "<a><b></b >"
      ⟨⟨"</b >".toList, [['b'], ['a']]⟩, (Builder.push {} ⟨"a", ∅, []⟩).push ⟨"b", ∅, []⟩⟩ =
      .again ⟨⟨[], [['a']]⟩, Builder.push {} ⟨"a", ∅, [.element "b" ∅ []]⟩⟩ :=
    Loop.round_eq_again_iff.mpr ⟨.endTag ['b'], Reader.next_eq_some_iff.mp hnext, rfl⟩
  have hreached := (Loop.Reached.start.again hfirst).again hsecond
  obtain ⟨hinside, -, hend⟩ := stacks_in_step ⟨2, 11, 0, 0⟩ "<a><b></b >"
  obtain ⟨hnames, -, -, hclose⟩ := hinside _ hreached
  obtain ⟨before, element, -, hbuilder, -, hname, -⟩ := hclose _ _ hnext
  refine ⟨⟨_, hreached, rfl, hnames, before, element, hbuilder, hname⟩, ?_⟩
  exact (hend "a").mpr ⟨by decide, _, hreached.again hthird, rfl, by decide⟩

end Xml
end ServiceTypes
