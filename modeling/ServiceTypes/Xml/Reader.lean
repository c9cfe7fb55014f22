import ServiceTypes.Xml.Markup

/-!
# The reader

A reader goes through a text from event to event.  All that it remembers is the text it has not
read and the names of the elements it has seen open, innermost first, against which end tags are
checked.

* `Reader.next`: the next event, with the reader after it.  A `<` at the very end of a text is
  passed over.
* `length_lt_of_next`: an event takes up some of the text.
* `Reader.transcript`: all events up to the end of the text or to the first misreading, with one
  equation for each answer of `next`.
-/

namespace ServiceTypes
namespace Xml

/-- A reader in the middle of a text. -/
structure Reader where
  unread : List Char
  openNames : List (List Char) := []
  deriving DecidableEq, Repr

namespace Reader

/-- Whether a character belongs to a run of text. -/
def isText (c : Char) : Bool :=
  c ≠ '<'

/-- The reader that is at `rest` and has the names of `reader` and one more open. -/
def entered (reader : Reader) (name rest : List Char) : Reader :=
  ⟨rest, name :: reader.openNames⟩

/-- Read the end tag whose content starts at `after`.  Its name has to be the innermost open one. -/
def readEndTag (reader : Reader) (body after : List Char) : Except Misread (Event × Reader) :=
  let content := after.takeWhile isInner
  match reader.openNames with
  | [] => .error ⟨.mismatch [] content, blame body after⟩
  | expected :: outer =>
    if endName content = expected then
      .ok (.endTag expected, ⟨(after.dropWhile isInner).tail, outer⟩)
    else .error ⟨.mismatch expected (endName content), blame body after⟩

/-- Go on after an event of which only a start tag changes the open names. -/
def pass (reader : Reader) (event : Event) (rest : List Char) : Event × Reader :=
  match event with
  | .startTag tag => (event, reader.entered tag.name rest)
  | _ => (event, ⟨rest, reader.openNames⟩)

/-- Read the markup that starts with a `<` and goes on with `body`. -/
def readMarkup (reader : Reader) (body : List Char) : Except Misread (Option (Event × Reader)) :=
  match body with
  | [] => .ok none
  | c :: after =>
    if c = '/' then (reader.readEndTag body after).map some
    else
      let read :=
        if c = '!' then readMarked body after
        else if c = '?' then readInstruction body after
        else readStartTag body
      read.map fun (event, rest) => some (reader.pass event rest)

/-- The next event of a text and the reader after it, or `none` at the end of the text. -/
def next (reader : Reader) : Except Misread (Option (Event × Reader)) :=
  match reader.unread with
  | [] => .ok none
  | c :: text =>
    if c = '<' then reader.readMarkup text
    else .ok (some (.text (c :: text.takeWhile isText),
      ⟨text.dropWhile isText, reader.openNames⟩))

/-! ## Every event takes up some of the text -/

@[simp] theorem unread_pass (reader : Reader) (event : Event) (rest : List Char) :
    (reader.pass event rest).2.unread = rest := by
  cases event <;> rfl

theorem length_le_of_readEndTag {reader rest : Reader} {body after : List Char} {event : Event}
    (h : reader.readEndTag body after = .ok (event, rest)) : rest.unread.length ≤ after.length := by
  simp only [readEndTag] at h
  split at h
  · simp at h
  · split at h
    · obtain ⟨-, rfl⟩ := by simpa using h
      exact length_tail_dropWhile_le after
    · simp at h

theorem length_lt_of_readMarkup {reader rest : Reader} {body : List Char} {event : Event}
    (h : reader.readMarkup body = .ok (some (event, rest))) :
    rest.unread.length < body.length := by
  unfold readMarkup at h
  split at h
  · simp at h
  · next c after =>
    split at h
    · cases hread : reader.readEndTag (c :: after) after with
      | error misread => simp [hread, Except.map] at h
      | ok answer =>
        obtain ⟨found, left⟩ := answer
        simp only [hread, Except.map, Except.ok.injEq, Option.some.injEq, Prod.mk.injEq] at h
        have := length_le_of_readEndTag hread
        rw [← h.2, List.length_cons]
        omega
    · dsimp only at h
      have shorter : ∀ found left,
          (if c = '!' then readMarked (c :: after) after
            else if c = '?' then readInstruction (c :: after) after
            else readStartTag (c :: after)) = .ok (found, left) →
          left.length < (c :: after).length := by
        intro found left hread
        split at hread
        · have := length_lt_of_readMarked hread
          rw [List.length_cons]
          omega
        · split at hread
          · have := length_le_of_readInstruction hread
            rw [List.length_cons]
            omega
          · exact length_lt_of_readStartTag hread
      revert h shorter
      generalize (if c = '!' then readMarked (c :: after) after
            else if c = '?' then readInstruction (c :: after) after
            else readStartTag (c :: after)) = read
      intro h shorter
      cases read with
      | error misread => simp [Except.map] at h
      | ok answer =>
        obtain ⟨found, left⟩ := answer
        simp only [Except.map, Except.ok.injEq, Option.some.injEq] at h
        have hrest : rest.unread = left := by
          have := congrArg (fun answer => answer.2.unread) h
          simpa using this.symm
        rw [hrest]
        exact shorter found left rfl

/-- After an event less of the text is unread. -/
theorem length_lt_of_next {reader rest : Reader} {event : Event}
    (h : reader.next = .ok (some (event, rest))) :
    rest.unread.length < reader.unread.length := by
  unfold next at h
  split at h
  · simp at h
  · next c text htext =>
    rw [htext, List.length_cons]
    split at h
    · have := length_lt_of_readMarkup h
      omega
    · obtain ⟨-, rfl⟩ := by simpa using h
      have := (List.dropWhile_suffix isText (l := text)).length_le
      dsimp only
      omega

end Reader

/-- The events of a text in order, and the misreading that ended the reading if one did. -/
structure Transcript where
  events : List Event
  ending : Option Misread
  deriving DecidableEq, Repr

namespace Reader

/-- Read on to the end, with the events read before, latest first. -/
def transcriptFrom (past : List Event) (reader : Reader) : Transcript :=
  match _h : reader.next with
  | .error misread => ⟨past.reverse, some misread⟩
  | .ok none => ⟨past.reverse, none⟩
  | .ok (some (event, rest)) => transcriptFrom (event :: past) rest
termination_by reader.unread.length
decreasing_by exact length_lt_of_next _h

/-- All that is left to read. -/
def transcript (reader : Reader) : Transcript :=
  reader.transcriptFrom []

/-- The events read before come first and change nothing else. -/
theorem transcriptFrom_eq (past : List Event) (reader : Reader) :
    reader.transcriptFrom past =
      ⟨past.reverse ++ reader.transcript.events, reader.transcript.ending⟩ := by
  induction hlength : reader.unread.length using Nat.strongRecOn generalizing past reader with
  | ind length ih =>
    rw [transcript, transcriptFrom, transcriptFrom]
    split
    · simp
    · simp
    · next event rest hnext =>
      have hshorter := length_lt_of_next hnext
      rw [ih _ (hlength ▸ hshorter) (event :: past) rest rfl,
        ih _ (hlength ▸ hshorter) [event] rest rfl]
      simp

theorem transcript_of_error {reader : Reader} {misread : Misread}
    (h : reader.next = .error misread) : reader.transcript = ⟨[], some misread⟩ := by
  rw [transcript, transcriptFrom]
  split <;> simp_all

theorem transcript_of_none {reader : Reader} (h : reader.next = .ok none) :
    reader.transcript = ⟨[], none⟩ := by
  rw [transcript, transcriptFrom]
  split <;> simp_all

theorem transcript_of_some {reader rest : Reader} {event : Event}
    (h : reader.next = .ok (some (event, rest))) :
    reader.transcript = ⟨event :: rest.transcript.events, rest.transcript.ending⟩ := by
  rw [transcript, transcriptFrom]
  split
  · simp_all
  · simp_all
  · next found left hnext =>
    obtain ⟨rfl, rfl⟩ : found = event ∧ left = rest := by simpa [h, eq_comm] using hnext
    rw [transcriptFrom_eq]
    simp

end Reader
end Xml
end ServiceTypes
