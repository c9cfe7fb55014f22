import ServiceTypes.Proofs.Outcome
import ServiceTypes.Proofs.Xml.Token

/-!
# The steps of a reader

`Reader.next` finds out what stands at the head of the unread text, and its branches are spread
over the functions for the pieces of markup.  `Reader.Step` says in one place what a step can be:
one constructor for each kind of event, with all that has to hold for it.  `next_eq_some_iff` ties
the two together, and past it nothing about the reader is unfolded.

* `reading_induction`: what holds at the end of a text, and passes from behind an event to before
  it, holds of every reader.
* `nested_tokens`: the tokens of what a reader reads are well nested within the elements open to
  it.
-/

namespace ServiceTypes
namespace Xml

open Text

namespace Reader

/-- What a reader can read next, and where it is then. -/
inductive Step : Reader → Event → Reader → Prop
  /-- Text runs to the next `<`. -/
  | text {c : Char} {text : List Char} {names : List (List Char)} (hc : c ≠ '<') :
    Step ⟨c :: text, names⟩ (.text (c :: text.takeWhile isText)) ⟨text.dropWhile isText, names⟩
  /-- An end tag runs to the next `>`, or to the end of the text, and closes the innermost name. -/
  | endTag {after : List Char} {name : List Char} {outer : List (List Char)}
    (hname : endName (after.takeWhile isInner) = name) :
    Step ⟨'<' :: '/' :: after, name :: outer⟩ (.endTag name)
      ⟨(after.dropWhile isInner).tail, outer⟩
  /-- A comment runs to the first `>` behind two hyphens that do not belong to its opening. -/
  | comment {after content rest : List Char} {names : List (List Char)}
    (hcut : cut (afterRun '-') 0 after = some (content, rest)) :
    Step ⟨'<' :: '!' :: '-' :: '-' :: after, names⟩ (.comment content.dropLast.dropLast)
      ⟨rest, names⟩
  /-- A character data section runs to the first `>` behind two brackets. -/
  | cdata {after content rest : List Char} {names : List (List Char)}
    (hcut : cut (afterRun ']') 0 after = some (content, rest))
    (hword : startsWith "CDATA[".toList content = true) :
    Step ⟨'<' :: '!' :: '[' :: after, names⟩ (.cdata (content.drop 6).dropLast.dropLast)
      ⟨rest, names⟩
  /-- A document type runs to the `>` that balances its `<`, and says something. -/
  | doctype {d : Char} {after content rest : List Char} {names : List (List Char)}
    (hd : d = 'D' ∨ d = 'd') (hcut : cut balanced 0 after = some (content, rest))
    (hword : startsWith "OCTYPE".toList content = true)
    (hsome : (content.drop 6).all Char.isWhitespace = false) :
    Step ⟨'<' :: '!' :: d :: after, names⟩ (.doctype (content.drop 6)) ⟨rest, names⟩
  /-- A processing instruction runs to the next `>`, or to the end of the text, and ends in `?`. -/
  | instruction {after : List Char} {names : List (List Char)}
    (hlast : (after.takeWhile isInner).getLast? = some '?')
    (hlength : 2 ≤ (after.takeWhile isInner).length) :
    Step ⟨'<' :: '?' :: after, names⟩ (.instruction (after.takeWhile isInner).dropLast)
      ⟨(after.dropWhile isInner).tail, names⟩
  /-- A start tag runs to the first `>` outside quotes. -/
  | startTag {c : Char} {after content rest : List Char} {names : List (List Char)}
    (hslash : c ≠ '/') (hbang : c ≠ '!') (hquestion : c ≠ '?')
    (hcut : cut unquoted none (c :: after) = some (content, rest))
    (hlast : content.getLast? ≠ some '/') :
    Step ⟨'<' :: c :: after, names⟩ (.startTag (Tag.ofContent content))
      ⟨rest, (Tag.ofContent content).name :: names⟩
  /-- An empty tag is a start tag with a slash before its end. -/
  | emptyTag {c : Char} {after content rest : List Char} {names : List (List Char)}
    (hslash : c ≠ '/') (hbang : c ≠ '!') (hquestion : c ≠ '?')
    (hcut : cut unquoted none (c :: after) = some (content, rest))
    (hlast : content.getLast? = some '/') :
    Step ⟨'<' :: c :: after, names⟩ (.emptyTag (Tag.ofContent content.dropLast)) ⟨rest, names⟩

/-- A name without white space is the name in an end tag. -/
theorem endName_of_not_isWhitespace {name : List Char} (h : ∀ c ∈ name, c.isWhitespace = false) :
    endName name = name := by
  have hdrop : name.reverse.dropWhile Char.isWhitespace = name.reverse := by
    rcases hreverse : name.reverse with _ | ⟨c, rest⟩
    · rfl
    · have hmem : c ∈ name := List.mem_reverse.mp (hreverse ▸ List.mem_cons_self)
      rw [List.dropWhile_cons_of_neg (by simp [h c hmem])]
  simp only [endName, hdrop, List.reverse_reverse, ite_self]

/-! ## The pieces of markup -/

theorem next_text {c : Char} (hc : c ≠ '<') (text : List Char) (names : List (List Char)) :
    (Reader.mk (c :: text) names).next =
      .ok (some (.text (c :: text.takeWhile isText), ⟨text.dropWhile isText, names⟩)) := by
  rw [next]
  exact if_neg hc

theorem next_markup (text : List Char) (names : List (List Char)) :
    (Reader.mk ('<' :: text) names).next = (Reader.mk ('<' :: text) names).readMarkup text := rfl

theorem readMarkup_slash (reader : Reader) (after : List Char) :
    reader.readMarkup ('/' :: after) =
      (reader.readEndTag ('/' :: after) after).map some := rfl

theorem readMarkup_bang (reader : Reader) (after : List Char) :
    reader.readMarkup ('!' :: after) =
      (readMarked ('!' :: after) after).map
        fun (event, rest) => some (reader.pass event rest) := rfl

theorem readMarked_hyphen (body after : List Char) :
    readMarked body ('-' :: after) = readComment body after := rfl

theorem readMarked_bracket (body after : List Char) :
    readMarked body ('[' :: after) = readSection body after := rfl

theorem readMarked_doctype {d : Char} (hd : d = 'D' ∨ d = 'd') (body after : List Char) :
    readMarked body (d :: after) = readDoctype body after := by
  rcases hd with rfl | rfl <;> rfl

theorem readMarkup_question (reader : Reader) (after : List Char) :
    reader.readMarkup ('?' :: after) =
      (readInstruction ('?' :: after) after).map
        fun (event, rest) => some (reader.pass event rest) := rfl

theorem readMarkup_tag {c : Char} (hslash : c ≠ '/') (hbang : c ≠ '!') (hquestion : c ≠ '?')
    (reader : Reader) (after : List Char) :
    reader.readMarkup (c :: after) =
      (readStartTag (c :: after)).map fun (event, rest) => some (reader.pass event rest) := by
  rw [readMarkup]
  simp only [if_neg hslash, if_neg hbang, if_neg hquestion]

theorem next_of_step {reader rest : Reader} {event : Event} (h : Step reader event rest) :
    reader.next = .ok (some (event, rest)) := by
  cases h with
  | text hc => exact next_text hc _ _
  | endTag hname =>
    rw [next_markup, readMarkup_slash, readEndTag]
    simp only [if_pos hname]
    rfl
  | comment hcut =>
    rw [next_markup, readMarkup_bang, readMarked_hyphen, readComment, hcut]
    rfl
  | cdata hcut hword =>
    rw [next_markup, readMarkup_bang, readMarked_bracket, readSection, hcut]
    simp only [if_pos hword]
    rfl
  | doctype hd hcut hword hsome =>
    rw [next_markup, readMarkup_bang, readMarked_doctype hd, readDoctype, hcut]
    simp only [if_pos hword, hsome, Bool.false_eq_true, if_false]
    rfl
  | instruction hlast hlength =>
    rw [next_markup, readMarkup_question, readInstruction]
    simp only [if_pos (And.intro hlast hlength)]
    rfl
  | startTag hslash hbang hquestion hcut hlast =>
    rw [next_markup, readMarkup_tag hslash hbang hquestion, readStartTag, hcut]
    simp only [if_neg hlast]
    rfl
  | emptyTag hslash hbang hquestion hcut hlast =>
    rw [next_markup, readMarkup_tag hslash hbang hquestion, readStartTag, hcut]
    simp only [if_pos hlast]
    rfl

/-- Markup that is read with an exclamation mark at its head. -/
theorem step_of_readMarked {after left : List Char} {names : List (List Char)} {event : Event}
    {reader : Reader} (hreader : reader = ⟨'<' :: '!' :: after, names⟩)
    (h : readMarked ('!' :: after) after = .ok (event, left)) :
    Step reader (reader.pass event left).1 (reader.pass event left).2 := by
  subst hreader
  rcases after with _ | ⟨d, after⟩
  · cases h
  by_cases hhyphen : d = '-'
  · subst hhyphen
    rw [readMarked_hyphen, readComment.eq_def] at h
    split at h
    · split at h
      · next hcut =>
        obtain ⟨rfl, rfl⟩ := Prod.mk.inj (Except.ok.inj h)
        exact Step.comment hcut
      · cases h
    · split at h <;> cases h
  by_cases hbracket : d = '['
  · subst hbracket
    rw [readMarked_bracket, readSection] at h
    split at h
    · next hcut =>
      split at h
      · next hword =>
        obtain ⟨rfl, rfl⟩ := Prod.mk.inj (Except.ok.inj h)
        exact Step.cdata hcut hword
      · cases h
    · cases h
  by_cases hd : d = 'D' ∨ d = 'd'
  · rw [readMarked_doctype hd, readDoctype] at h
    split at h
    · next hcut =>
      split at h
      · next hword =>
        split at h
        · cases h
        · next hsome =>
          obtain ⟨rfl, rfl⟩ := Prod.mk.inj (Except.ok.inj h)
          exact Step.doctype hd hcut hword (Bool.eq_false_iff.mpr hsome)
      · cases h
    · cases h
  · rw [readMarked, if_neg hhyphen, if_neg hbracket, if_neg hd] at h
    cases h

/-- A tag that is read where none of the other kinds of markup begins. -/
theorem step_of_readStartTag {c : Char} (hslash : c ≠ '/') (hbang : c ≠ '!') (hquestion : c ≠ '?')
    {after left : List Char} {names : List (List Char)} {event : Event} {reader : Reader}
    (hreader : reader = ⟨'<' :: c :: after, names⟩)
    (h : readStartTag (c :: after) = .ok (event, left)) :
    Step reader (reader.pass event left).1 (reader.pass event left).2 := by
  subst hreader
  rw [readStartTag] at h
  split at h
  · next hcut =>
    split at h
    · next hlast =>
      obtain ⟨rfl, rfl⟩ := Prod.mk.inj (Except.ok.inj h)
      exact Step.emptyTag hslash hbang hquestion hcut hlast
    · next hlast =>
      obtain ⟨rfl, rfl⟩ := Prod.mk.inj (Except.ok.inj h)
      exact Step.startTag hslash hbang hquestion hcut hlast
  · cases h

theorem step_of_readMarkup {text : List Char} {names : List (List Char)} {rest : Reader}
    {event : Event}
    (h : (Reader.mk ('<' :: text) names).readMarkup text = .ok (some (event, rest))) :
    Step ⟨'<' :: text, names⟩ event rest := by
  rcases text with _ | ⟨c, after⟩
  · cases h
  by_cases hslash : c = '/'
  · subst hslash
    rw [readMarkup_slash, readEndTag] at h
    obtain ⟨answer, hread, hanswer⟩ := map_eq_ok_iff.mp h
    obtain rfl := Option.some.inj hanswer
    rcases names with _ | ⟨name, outer⟩
    · cases hread
    · dsimp only at hread
      split at hread
      · next hname =>
        obtain ⟨rfl, rfl⟩ := Prod.mk.inj (Except.ok.inj hread)
        exact Step.endTag hname
      · cases hread
  by_cases hbang : c = '!'
  · subst hbang
    rw [readMarkup_bang] at h
    obtain ⟨⟨found, left⟩, hread, hanswer⟩ := map_eq_ok_iff.mp h
    obtain ⟨rfl, rfl⟩ := Prod.mk.inj (Option.some.inj hanswer)
    exact step_of_readMarked rfl hread
  by_cases hquestion : c = '?'
  · subst hquestion
    rw [readMarkup_question, readInstruction] at h
    obtain ⟨⟨found, left⟩, hread, hanswer⟩ := map_eq_ok_iff.mp h
    split at hread
    · next hend =>
      obtain ⟨rfl, rfl⟩ := Prod.mk.inj (Except.ok.inj hread)
      obtain ⟨rfl, rfl⟩ := Prod.mk.inj (Option.some.inj hanswer)
      exact Step.instruction hend.1 hend.2
    · cases hread
  · rw [readMarkup_tag hslash hbang hquestion] at h
    obtain ⟨⟨found, left⟩, hread, hanswer⟩ := map_eq_ok_iff.mp h
    obtain ⟨rfl, rfl⟩ := Prod.mk.inj (Option.some.inj hanswer)
    exact step_of_readStartTag hslash hbang hquestion rfl hread

/-- **The steps of a reader are the answers of `Reader.next`.** -/
theorem next_eq_some_iff {reader rest : Reader} {event : Event} :
    reader.next = .ok (some (event, rest)) ↔ Step reader event rest := by
  refine ⟨fun h => ?_, next_of_step⟩
  obtain ⟨unread, names⟩ := reader
  rcases unread with _ | ⟨c, text⟩
  · cases h
  by_cases hc : c = '<'
  · subst hc
    rw [next_markup] at h
    exact step_of_readMarkup h
  · rw [next_text hc] at h
    obtain ⟨rfl, rfl⟩ := Prod.mk.inj (Option.some.inj (Except.ok.inj h))
    exact Step.text hc

/-! ## What a whole text is read as -/

/-- What holds where a reading ends, and passes from behind an event to before it, holds of every
reader. -/
theorem reading_induction {motive : Reader → Prop}
    (misread : ∀ reader cause, reader.next = .error cause → motive reader)
    (done : ∀ reader, reader.next = .ok none → motive reader)
    (event : ∀ reader event rest, Step reader event rest → motive rest → motive reader)
    (reader : Reader) : motive reader := by
  induction hlength : reader.unread.length using Nat.strongRecOn generalizing reader with
  | ind length ih =>
    rcases hnext : reader.next with cause | _ | ⟨first, rest⟩
    · exact misread reader cause hnext
    · exact done reader hnext
    · have hshorter := length_lt_of_next hnext
      exact event reader first rest (next_eq_some_iff.mp hnext)
        (ih _ (hlength ▸ hshorter) rest rfl)

/-- How deep the reading is after an event. -/
theorem length_openNames_of_step {reader rest : Reader} {event : Event}
    (h : Step reader event rest) :
    rest.openNames.length = event.depthAfter reader.openNames.length := by
  cases h <;> rfl

/-- Text inside the root, and nothing at all, can stand before well-nested tokens. -/
theorem nested_of_quiet {names : List (List Char)} {first more : List Token}
    (hfirst : first = [] ∨ names.length ≠ 0 ∧ ∃ content, first = [.text content])
    (hmore : Nested (names.map String.ofList) more) :
    Nested (names.map String.ofList) (first ++ more) := by
  rcases hfirst with rfl | ⟨hopen, content, rfl⟩
  · exact hmore
  · refine ⟨?_, hmore⟩
    intro hnil
    exact hopen (by rw [List.map_eq_nil_iff.mp hnil]; rfl)

/-- An event adds to well-nested tokens what keeps them well nested. -/
theorem nested_of_step {reader rest : Reader} {event : Event} (h : Step reader event rest)
    {first more : List Token} (hfirst : event.tokens reader.openNames.length = .ok first)
    (hmore : Nested (rest.openNames.map String.ofList) more) :
    Nested (reader.openNames.map String.ofList) (first ++ more) := by
  rcases Event.tokens_cases hfirst with ⟨tag, attributes, rfl, -, rfl⟩ |
    ⟨tag, attributes, rfl, -, rfl⟩ | ⟨name, rfl, rfl⟩ | ⟨htag, hdepth, hquiet⟩
  · cases h with
    | startTag _ _ _ _ _ => exact hmore
  · cases h with
    | emptyTag _ _ _ _ _ => exact ⟨rfl, hmore⟩
  · cases h with
    | endTag _ => exact ⟨rfl, hmore⟩
  · cases h with
    | startTag _ _ _ _ _ => cases htag
    | emptyTag _ _ _ _ _ => cases htag
    | endTag _ => exact absurd hdepth (by simp [Event.depthAfter])
    | _ => exact nested_of_quiet hquiet hmore

/-- **The tokens of a reading are well nested** within the elements that are open where it
begins. -/
theorem nested_tokens {reader : Reader} {tokens : List Token}
    (h : eventTokens reader.openNames.length reader.transcript.events = .ok tokens) :
    Nested (reader.openNames.map String.ofList) tokens := by
  induction reader using reading_induction generalizing tokens with
  | misread reader cause hnext =>
    rw [transcript_of_error hnext] at h
    obtain rfl := Except.ok.inj h
    trivial
  | done reader hnext =>
    rw [transcript_of_none hnext] at h
    obtain rfl := Except.ok.inj h
    trivial
  | event reader event rest hstep ih =>
    rw [transcript_of_some (next_of_step hstep)] at h
    obtain ⟨first, more, hfirst, hmore, rfl⟩ := eventTokens_cons_eq_ok_iff.mp h
    rw [← length_openNames_of_step hstep] at hmore
    exact nested_of_step hstep hfirst (ih hmore)

end Reader
end Xml
end ServiceTypes
