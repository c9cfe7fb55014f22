import ServiceTypes.Text.Cut
import ServiceTypes.Xml.Event

/-!
# Reading one piece of markup

A piece of markup starts with `<`, and the character after it says of which kind it is.  Each
function here reads one kind, given the text after the characters that show the kind, and answers
with the event and the text after the piece.  All of them also take `body`, the text just after
the `<`: a piece that has no end is put down to that place.

* `readComment`, `readSection`, `readDoctype` and their choice `readMarked`: markup that starts
  with an exclamation mark.
* `readInstruction`: markup that starts with a question mark.
* `readStartTag`: start tags and empty tags.
* `endName`: the name in an end tag.

Every piece takes at least one character more of the text, which is what the lemmas
`length_lt_of_readMarked` and its companions say.
-/

namespace ServiceTypes
namespace Xml

open Text

/-- Whether a text starts with a word, which is given in capitals, in whatever ASCII case. -/
def startsWith (word text : List Char) : Bool :=
  (text.take word.length).map Char.toUpper == word

/-- Read a comment from the text after `<!-`.  A second hyphen has to follow; without it the comment
is refused where it ends. -/
def readComment (body after : List Char) : Except Misread (Event × List Char) :=
  match after with
  | '-' :: content =>
    match cut (afterRun '-') 0 content with
    | some (content, rest) => .ok (.comment content.dropLast.dropLast, rest)
    | none => .error ⟨.cutOff .comment, body⟩
  | _ =>
    match cut (afterRun '-') 0 after with
    | some (_, rest) => .error ⟨.cutOff .comment, rest⟩
    | none => .error ⟨.cutOff .comment, body⟩

/-- Read a character data section from the text after `<![`. -/
def readSection (body after : List Char) : Except Misread (Event × List Char) :=
  match cut (afterRun ']') 0 after with
  | some (content, rest) =>
    if startsWith "CDATA[".toList content then .ok (.cdata (content.drop 6).dropLast.dropLast, rest)
    else .error ⟨.cutOff .cdata, rest⟩
  | none => .error ⟨.cutOff .cdata, body⟩

/-- Read a document type from the text after `<!D`. -/
def readDoctype (body after : List Char) : Except Misread (Event × List Char) :=
  match cut balanced 0 after with
  | some (content, rest) =>
    if startsWith "OCTYPE".toList content then
      if (content.drop 6).all Char.isWhitespace then .error ⟨.emptyDoctype, rest⟩
      else .ok (.doctype (content.drop 6), rest)
    else .error ⟨.cutOff .doctype, rest⟩
  | none => .error ⟨.cutOff .doctype, body⟩

/-- Read the markup whose kind is shown by the text after `<!`. -/
def readMarked (body after : List Char) : Except Misread (Event × List Char) :=
  match after with
  | [] => .error ⟨.cutOff .bang, body⟩
  | c :: after =>
    if c = '-' then readComment body after
    else if c = '[' then readSection body after
    else if c = 'D' ∨ c = 'd' then readDoctype body after
    else .error ⟨.unknownMark (leadingByte c), body⟩

/-- Whether a character does not end a piece of markup. -/
def isInner (c : Char) : Bool :=
  c ≠ '>'

/-- The place of a fault in markup that may run to the end of the text: after the opening characters
if the markup has its end, and before the last of them otherwise. -/
def blame (body after : List Char) : List Char :=
  if (after.dropWhile isInner).isEmpty then body else after

/-- Read a processing instruction from the text after `<?`; the last character before its end has to
be another question mark.  The instruction itself may not be empty. -/
def readInstruction (body after : List Char) : Except Misread (Event × List Char) :=
  let content := after.takeWhile isInner
  if content.getLast? = some '?' ∧ 2 ≤ content.length then
    .ok (.instruction content.dropLast, (after.dropWhile isInner).tail)
  else .error ⟨.cutOff .instruction, blame body after⟩

/-- Read a start tag or an empty tag from the text after `<`.  A slash as the last character makes
the tag empty and belongs neither to the name nor to the attributes. -/
def readStartTag (body : List Char) : Except Misread (Event × List Char) :=
  match cut unquoted none body with
  | some (content, rest) =>
    if content.getLast? = some '/' then .ok (.emptyTag (Tag.ofContent content.dropLast), rest)
    else .ok (.startTag (Tag.ofContent content), rest)
  | none => .error ⟨.cutOff .element, body⟩

/-- The name that the content of an end tag gives: white space at its end does not count, unless
there is nothing else. -/
def endName (content : List Char) : List Char :=
  let name := (content.reverse.dropWhile Char.isWhitespace).reverse
  if name.isEmpty then content else name

/-! ## Every piece is longer than nothing -/

theorem length_lt_of_readComment {body after rest : List Char} {event : Event}
    (h : readComment body after = .ok (event, rest)) : rest.length < after.length := by
  unfold readComment at h
  split at h
  · split at h
    · next hcut =>
      obtain ⟨-, rfl⟩ := by simpa using h
      have := length_after_cut_lt hcut
      simp only [List.length_cons]
      omega
    · simp at h
  · split at h <;> simp at h

theorem length_lt_of_readSection {body after rest : List Char} {event : Event}
    (h : readSection body after = .ok (event, rest)) : rest.length < after.length := by
  unfold readSection at h
  split at h
  · next hcut =>
    split at h
    · obtain ⟨-, rfl⟩ := by simpa using h
      exact length_after_cut_lt hcut
    · simp at h
  · simp at h

theorem length_lt_of_readDoctype {body after rest : List Char} {event : Event}
    (h : readDoctype body after = .ok (event, rest)) : rest.length < after.length := by
  unfold readDoctype at h
  split at h
  · next hcut =>
    split at h
    · split at h
      · simp at h
      · obtain ⟨-, rfl⟩ := by simpa using h
        exact length_after_cut_lt hcut
    · simp at h
  · simp at h

theorem length_lt_of_readMarked {body after rest : List Char} {event : Event}
    (h : readMarked body after = .ok (event, rest)) : rest.length < after.length := by
  unfold readMarked at h
  split at h
  · simp at h
  · rw [List.length_cons]
    apply Nat.lt_succ_of_lt
    split at h
    · exact length_lt_of_readComment h
    · split at h
      · exact length_lt_of_readSection h
      · split at h
        · exact length_lt_of_readDoctype h
        · simp at h

theorem length_tail_dropWhile_le (text : List Char) :
    (text.dropWhile isInner).tail.length ≤ text.length := by
  have := (List.dropWhile_suffix isInner (l := text)).length_le
  rw [List.length_tail]
  omega

theorem length_le_of_readInstruction {body after rest : List Char} {event : Event}
    (h : readInstruction body after = .ok (event, rest)) : rest.length ≤ after.length := by
  simp only [readInstruction] at h
  split at h
  · obtain ⟨-, rfl⟩ := by simpa using h
    have := length_tail_dropWhile_le after
    simpa using this
  · simp at h

theorem length_lt_of_readStartTag {body rest : List Char} {event : Event}
    (h : readStartTag body = .ok (event, rest)) : rest.length < body.length := by
  unfold readStartTag at h
  split at h
  · next hcut =>
    split at h <;>
    · obtain ⟨-, rfl⟩ := by simpa using h
      exact length_after_cut_lt hcut
  · simp at h

end Xml
end ServiceTypes
