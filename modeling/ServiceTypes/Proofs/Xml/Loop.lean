import ServiceTypes.Proofs.Xml.Passage

/-!
# Reading and building, round by round

`Element.parse` divides a whole text into events before the first of them is taken in.  The same
comes out when the two go hand in hand: in each round the reader is called once, and the event that
it gives is taken in before the next round.  The first fault ends the loop, and so does the end of
the text.  Between two rounds there is a reader in the middle of the text and a builder in the
middle of the tree, and what holds of the two together is said of a `Loop`.

* `Loop.round`: one round, which goes on to another loop or ends with an outcome.
* `Loop.Reached`: the loops that the reading of a text gets to.
* `round_eq_again_iff`, `round_eq_over_cases`: what a round does, in terms of the steps of the
  reader.
* `outcome_of_reached`, `exists_last`: whatever loop is reached, what it comes to is what the text
  comes to, and there is a last round.
-/

namespace ServiceTypes
namespace Xml

/-- What is at hand between two rounds: a reader, and what was built from the events before it. -/
structure Loop where
  reader : Reader
  builder : Builder

/-- What a round comes to. -/
inductive Turn where
  /-- There is another round. -/
  | again (next : Loop)
  /-- The reading is over. -/
  | over (outcome : Except Fault Element)

namespace Loop

theorem depth_start : 0 = ([] : List OpenElement).length := rfl

/-- The loop before the first round: all of the text is unread, and nothing is built. -/
def start (text : String) : Loop where
  reader := ⟨withoutMark text.toList, []⟩
  builder := { depth_eq := depth_start }

/-- One round: the reader is called once, and the event that it gives is taken in. -/
def round (limits : Limits) (text : String) (loop : Loop) : Turn :=
  match loop.reader.next with
  | .error misread =>
    .over (.error (.xml (.misread (misread.position (withoutMark text.toList)) misread.cause)))
  | .ok none => .over loop.builder.finish
  | .ok (some (event, rest)) =>
    match loop.builder.take limits event with
    | .error fault => .over (.error fault)
    | .ok after => .again ⟨rest, after⟩

/-- The loops that the reading of a text gets to, after any number of rounds. -/
inductive Reached (limits : Limits) (text : String) : Loop → Prop
  | start : Reached limits text (start text)
  | again {loop next : Loop} (h : Reached limits text loop)
    (hround : loop.round limits text = .again next) : Reached limits text next

/-- What a loop comes to: what the builder makes of all the events that are still to be read. -/
def outcome (limits : Limits) (text : String) (loop : Loop) : Except Fault Element :=
  loop.reader.transcript.events.foldlM (Builder.take limits) loop.builder >>= fun builder =>
    match loop.reader.transcript.ending with
    | some misread =>
      .error (.xml (.misread (misread.position (withoutMark text.toList)) misread.cause))
    | none => builder.finish

variable {limits : Limits} {text : String} {loop next : Loop}

/-! ## One round -/

/-- There is another round when an event can be read and taken in. -/
theorem round_eq_again_iff :
    loop.round limits text = .again next ↔
      ∃ event, Reader.Step loop.reader event next.reader ∧
        loop.builder.take limits event = .ok next.builder := by
  constructor
  · intro h
    rw [round] at h
    rcases hnext : loop.reader.next with misread | _ | ⟨event, rest⟩
    · simp [hnext] at h
    · simp [hnext] at h
    · rcases htake : loop.builder.take limits event with fault | after
      · simp [hnext, htake] at h
      · simp only [hnext, htake, Turn.again.injEq] at h
        subst h
        exact ⟨event, Reader.next_eq_some_iff.mp hnext, htake⟩
  · rintro ⟨event, hstep, htake⟩
    simp only [round, Reader.next_of_step hstep, htake]

/-- The reading is over when the text is misread, when it is at its end, or when an event cannot be
taken in. -/
theorem round_eq_over_cases {outcome : Except Fault Element}
    (h : loop.round limits text = .over outcome) :
    (∃ misread, loop.reader.next = .error misread ∧ outcome =
      .error (.xml (.misread (misread.position (withoutMark text.toList)) misread.cause))) ∨
    (loop.reader.next = .ok none ∧ outcome = loop.builder.finish) ∨
    ∃ event rest fault, Reader.Step loop.reader event rest ∧
      loop.builder.take limits event = .error fault ∧ outcome = .error fault := by
  rw [round] at h
  rcases hnext : loop.reader.next with misread | _ | ⟨event, rest⟩
  · simp only [hnext, Turn.over.injEq] at h
    exact Or.inl ⟨misread, rfl, h.symm⟩
  · simp only [hnext, Turn.over.injEq] at h
    exact Or.inr (Or.inl ⟨rfl, h.symm⟩)
  · rcases htake : loop.builder.take limits event with fault | after
    · simp only [hnext, htake, Turn.over.injEq] at h
      exact Or.inr (Or.inr ⟨event, rest, fault, Reader.next_eq_some_iff.mp hnext, htake, h.symm⟩)
    · simp [hnext, htake] at h

/-- A round takes nothing away from what is to come. -/
theorem outcome_of_again (h : loop.round limits text = .again next) :
    loop.outcome limits text = next.outcome limits text := by
  obtain ⟨event, hstep, htake⟩ := round_eq_again_iff.mp h
  rw [outcome, Reader.transcript_of_some (Reader.next_of_step hstep), List.foldlM_cons, htake]
  rfl

theorem outcome_of_over {answer : Except Fault Element}
    (h : loop.round limits text = .over answer) : loop.outcome limits text = answer := by
  rcases round_eq_over_cases h with ⟨misread, hnext, rfl⟩ | ⟨hnext, rfl⟩ |
    ⟨event, rest, fault, hstep, htake, rfl⟩
  · rw [outcome, Reader.transcript_of_error hnext]
    rfl
  · rw [outcome, Reader.transcript_of_none hnext]
    rfl
  · rw [outcome, Reader.transcript_of_some (Reader.next_of_step hstep), List.foldlM_cons, htake]
    rfl

/-! ## The whole reading -/

/-- A round goes on with less of the text unread. -/
theorem length_lt_of_again (h : loop.round limits text = .again next) :
    next.reader.unread.length < loop.reader.unread.length := by
  obtain ⟨event, hstep, -⟩ := round_eq_again_iff.mp h
  exact Reader.length_lt_of_next (Reader.next_of_step hstep)

/-- **Whatever loop is reached, it comes to what the loop before the first round comes to.** -/
theorem outcome_of_reached (h : Reached limits text loop) :
    loop.outcome limits text = (start text).outcome limits text := by
  induction h with
  | start => rfl
  | again _ hround ih => rw [← outcome_of_again hround, ih]

/-- From every loop that is reached the way goes on to a last round. -/
theorem exists_last (h : Reached limits text loop) :
    ∃ last, Reached limits text last ∧
      last.round limits text = .over (loop.outcome limits text) := by
  induction hlength : loop.reader.unread.length using Nat.strongRecOn generalizing loop with
  | ind length ih =>
    rcases hround : loop.round limits text with next | answer
    · have hshorter := length_lt_of_again hround
      rw [outcome_of_again hround]
      exact ih _ (hlength ▸ hshorter) (h.again hround) rfl
    · rw [outcome_of_over hround]
      exact ⟨loop, h, hround⟩

/-- The reader of a loop that is reached has read its way from the start of the text. -/
theorem exists_reads (h : Reached limits text loop) :
    ∃ events, Reader.Reads (start text).reader events loop.reader := by
  induction h with
  | start => exact ⟨[], Reader.Reads.refl _⟩
  | again _ hround ih =>
    obtain ⟨events, hreads⟩ := ih
    obtain ⟨event, hstep, -⟩ := round_eq_again_iff.mp hround
    exact ⟨events ++ [event], hreads.concat hstep⟩

end Loop

variable {limits : Limits} {text : String}

theorem Element.parse_eq_outcome (limits : Limits) (text : String) :
    Element.parse limits text =
      limits.require .size text.utf8ByteSize >>= fun _ =>
        (Loop.start text).outcome limits text := by
  rw [Element.parse_eq]
  refine bind_congr_of_ok fun _ _ => ?_
  exact Transcript.root_eq_bind limits (withoutMark text.toList) (Transcript.ofText text)

/-- **The last round of the loop comes to what the document comes to**, unless the text is too
long to be read at all. -/
theorem exists_last_of_size (hsize : text.utf8ByteSize ≤ limits.size) :
    ∃ last, Loop.Reached limits text last ∧
      last.round limits text = .over (Element.parse limits text) := by
  rw [Element.parse_eq_outcome, Limits.require_eq_ok_iff.mpr hsize]
  exact Loop.exists_last Loop.Reached.start

/-! ## Faults of the end -/

/-- The defects that are those of the place at which a reading ends, and of no event. -/
def Defect.AtEnd : Defect → Prop
  | .misread _ _ => True
  | .unclosed _ => True
  | .noRoot => True
  | _ => False

theorem Tag.not_atEnd_of_attributes {tag : Tag} {defect : Defect}
    (h : tag.attributes = .error (.xml defect)) : ¬ defect.AtEnd := by
  rcases Tag.attributes_eq_error_iff.mp h with ⟨_, _, _, _, _, _, _, hfault⟩ | ⟨_, _, _, hfault⟩
  · cases hfault
    exact id
  · cases hfault
    exact id

theorem Builder.not_atEnd_of_take {builder : Builder} {event : Event} {defect : Defect}
    (h : builder.take limits event = .error (.xml defect)) : ¬ defect.AtEnd := by
  have hrequire : ∀ {limit : Limit} {count : Nat},
      limits.require limit count ≠ .error (.xml defect) := by
    intro limit count hrequire
    obtain ⟨excess, hexcess⟩ := Limits.limit_of_require_eq_error hrequire
    cases hexcess
  rcases Builder.take_eq_error_cases h with
    ⟨raw, reference, -, -, -, hfault⟩ | ⟨tag, -, hopen⟩ | ⟨name, hfault⟩
  · cases hfault
    exact id
  · rcases Builder.openElement_eq_error_iff.mp hopen with hdepth | ⟨-, hattributes | ⟨_, -, hsize⟩⟩
    · exact absurd hdepth hrequire
    · exact Tag.not_atEnd_of_attributes hattributes
    · exact absurd hsize hrequire
  · cases hfault
    exact id

/-- **Where a defect of the end comes from**: the reader misreads the text, or the builder cannot
finish. -/
theorem exists_last_of_atEnd {defect : Defect} (hend : defect.AtEnd)
    (h : Element.parse limits text = .error (.xml defect)) :
    text.utf8ByteSize ≤ limits.size ∧ ∃ last, Loop.Reached limits text last ∧
      ((∃ misread, last.reader.next = .error misread ∧ defect =
          .misread (misread.position (withoutMark text.toList)) misread.cause) ∨
        (last.reader.next = .ok none ∧ last.builder.finish = .error (.xml defect))) := by
  have hsize : text.utf8ByteSize ≤ limits.size := by
    rw [Element.parse_eq, bind_eq_error_iff] at h
    rcases h with hrequire | ⟨⟨⟩, hrequire, -⟩
    · obtain ⟨excess, hexcess⟩ := Limits.limit_of_require_eq_error hrequire
      cases hexcess
    · exact Limits.require_eq_ok_iff.mp hrequire
  obtain ⟨last, hlast, hover⟩ := exists_last_of_size hsize
  rw [h] at hover
  refine ⟨hsize, last, hlast, ?_⟩
  rcases Loop.round_eq_over_cases hover with ⟨misread, hnext, hfault⟩ | ⟨hnext, hfault⟩ |
    ⟨event, rest, fault, -, htake, hfault⟩
  · injection hfault with hfault
    injection hfault with hdefect
    exact Or.inl ⟨misread, hnext, hdefect⟩
  · exact Or.inr ⟨hnext, hfault.symm⟩
  · obtain rfl := Except.error.inj hfault
    exact absurd hend (Builder.not_atEnd_of_take htake)

end Xml
end ServiceTypes
