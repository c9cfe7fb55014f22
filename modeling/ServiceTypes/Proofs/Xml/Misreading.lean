import ServiceTypes.Proofs.Xml.Reading

/-!
# The misreadings of a reader

`Reader.Step` says what a reader can read next; `Reader.Fails` says what stops it.  There is one
constructor for each way in which a piece of markup goes wrong, with the cause and the text that is
unread at the place to which the misreading is put down.

* `next_eq_error_iff`: these are all the misreadings.
* `unread_suffix_of_fails`: the place of a misreading is behind the `<` of the piece of markup.
* `unread_suffix_of_ending`: the misreading that ends a transcript is put down to a place in the
  text.
-/

namespace ServiceTypes
namespace Xml

open Text

/-- The text in which the end of a comment is looked for, given the text after `<!-`: a hyphen that
belongs to the opening is passed. -/
def commentText : List Char → List Char
  | '-' :: content => content
  | after => after

theorem commentText_of_ne {after : List Char} (h : after.head? ≠ some '-') :
    commentText after = after := by
  rw [commentText.eq_def]
  split
  · exact absurd rfl h
  · rfl

theorem readComment_of_ne {after : List Char} (h : after.head? ≠ some '-') (body : List Char) :
    readComment body after =
      match cut (afterRun '-') 0 after with
      | some (_, rest) => .error ⟨.cutOff .comment, rest⟩
      | none => .error ⟨.cutOff .comment, body⟩ := by
  rw [readComment.eq_def]
  split
  · exact absurd rfl h
  · rfl

namespace Reader

/-- What a reader can fail on, and where. -/
inductive Fails : Reader → Misread → Prop
  /-- An end tag where no element is open. -/
  | strayEnd {after : List Char} :
    Fails ⟨'<' :: '/' :: after, []⟩
      ⟨.mismatch [] (after.takeWhile isInner), blame ('/' :: after) after⟩
  /-- An end tag of another name than the innermost open one. -/
  | otherEnd {after name : List Char} {outer : List (List Char)}
    (hname : endName (after.takeWhile isInner) ≠ name) :
    Fails ⟨'<' :: '/' :: after, name :: outer⟩
      ⟨.mismatch name (endName (after.takeWhile isInner)), blame ('/' :: after) after⟩
  /-- The text ends after an exclamation mark. -/
  | bang {names : List (List Char)} : Fails ⟨['<', '!'], names⟩ ⟨.cutOff .bang, ['!']⟩
  /-- No markup starts with an exclamation mark and this character. -/
  | unknownMark {c : Char} {after : List Char} {names : List (List Char)} (hhyphen : c ≠ '-')
    (hbracket : c ≠ '[') (hd : ¬ (c = 'D' ∨ c = 'd')) :
    Fails ⟨'<' :: '!' :: c :: after, names⟩ ⟨.unknownMark (leadingByte c), '!' :: c :: after⟩
  /-- A comment without an end. -/
  | openComment {after : List Char} {names : List (List Char)}
    (hcut : cut (afterRun '-') 0 (commentText after) = none) :
    Fails ⟨'<' :: '!' :: '-' :: after, names⟩ ⟨.cutOff .comment, '!' :: '-' :: after⟩
  /-- A comment that opens with a single hyphen. -/
  | badComment {after content rest : List Char} {names : List (List Char)}
    (hhyphen : after.head? ≠ some '-')
    (hcut : cut (afterRun '-') 0 after = some (content, rest)) :
    Fails ⟨'<' :: '!' :: '-' :: after, names⟩ ⟨.cutOff .comment, rest⟩
  /-- A character data section without an end. -/
  | openSection {after : List Char} {names : List (List Char)}
    (hcut : cut (afterRun ']') 0 after = none) :
    Fails ⟨'<' :: '!' :: '[' :: after, names⟩ ⟨.cutOff .cdata, '!' :: '[' :: after⟩
  /-- A character data section that does not open as one. -/
  | badSection {after content rest : List Char} {names : List (List Char)}
    (hcut : cut (afterRun ']') 0 after = some (content, rest))
    (hword : startsWith "CDATA[".toList content = false) :
    Fails ⟨'<' :: '!' :: '[' :: after, names⟩ ⟨.cutOff .cdata, rest⟩
  /-- A document type without an end. -/
  | openDoctype {d : Char} {after : List Char} {names : List (List Char)}
    (hd : d = 'D' ∨ d = 'd') (hcut : cut balanced 0 after = none) :
    Fails ⟨'<' :: '!' :: d :: after, names⟩ ⟨.cutOff .doctype, '!' :: d :: after⟩
  /-- A document type that does not open as one. -/
  | badDoctype {d : Char} {after content rest : List Char} {names : List (List Char)}
    (hd : d = 'D' ∨ d = 'd') (hcut : cut balanced 0 after = some (content, rest))
    (hword : startsWith "OCTYPE".toList content = false) :
    Fails ⟨'<' :: '!' :: d :: after, names⟩ ⟨.cutOff .doctype, rest⟩
  /-- A document type that says nothing. -/
  | emptyDoctype {d : Char} {after content rest : List Char} {names : List (List Char)}
    (hd : d = 'D' ∨ d = 'd') (hcut : cut balanced 0 after = some (content, rest))
    (hword : startsWith "OCTYPE".toList content = true)
    (hblank : (content.drop 6).all Char.isWhitespace = true) :
    Fails ⟨'<' :: '!' :: d :: after, names⟩ ⟨.emptyDoctype, rest⟩
  /-- A processing instruction that does not end in `?` or says nothing. -/
  | instruction {after : List Char} {names : List (List Char)}
    (hbad : ¬ ((after.takeWhile isInner).getLast? = some '?' ∧
      2 ≤ (after.takeWhile isInner).length)) :
    Fails ⟨'<' :: '?' :: after, names⟩ ⟨.cutOff .instruction, blame ('?' :: after) after⟩
  /-- A start tag without an end. -/
  | startTag {c : Char} {after : List Char} {names : List (List Char)}
    (hslash : c ≠ '/') (hbang : c ≠ '!') (hquestion : c ≠ '?')
    (hcut : cut unquoted none (c :: after) = none) :
    Fails ⟨'<' :: c :: after, names⟩ ⟨.cutOff .element, c :: after⟩

/-! ## These are all the misreadings -/

theorem next_of_fails {reader : Reader} {misread : Misread} (h : Fails reader misread) :
    reader.next = .error misread := by
  cases h with
  | strayEnd => rfl
  | otherEnd hname =>
    rw [next_markup, readMarkup_slash, readEndTag]
    simp only [if_neg hname]
    rfl
  | bang => rfl
  | unknownMark hhyphen hbracket hd =>
    rw [next_markup, readMarkup_bang, readMarked, if_neg hhyphen, if_neg hbracket, if_neg hd]
    rfl
  | @openComment after names hcut =>
    rw [next_markup, readMarkup_bang, readMarked_hyphen]
    by_cases hhyphen : after.head? = some '-'
    · obtain ⟨content, rfl⟩ := List.head?_eq_some_iff.mp hhyphen
      rw [commentText] at hcut
      rw [readComment, hcut]
      rfl
    · rw [commentText_of_ne hhyphen] at hcut
      rw [readComment_of_ne hhyphen, hcut]
      rfl
  | badComment hhyphen hcut =>
    rw [next_markup, readMarkup_bang, readMarked_hyphen, readComment_of_ne hhyphen, hcut]
    rfl
  | openSection hcut =>
    rw [next_markup, readMarkup_bang, readMarked_bracket, readSection, hcut]
    rfl
  | badSection hcut hword =>
    rw [next_markup, readMarkup_bang, readMarked_bracket, readSection, hcut]
    simp only [hword, Bool.false_eq_true, if_false]
    rfl
  | openDoctype hd hcut =>
    rw [next_markup, readMarkup_bang, readMarked_doctype hd, readDoctype, hcut]
    rfl
  | badDoctype hd hcut hword =>
    rw [next_markup, readMarkup_bang, readMarked_doctype hd, readDoctype, hcut]
    simp only [hword, Bool.false_eq_true, if_false]
    rfl
  | emptyDoctype hd hcut hword hblank =>
    rw [next_markup, readMarkup_bang, readMarked_doctype hd, readDoctype, hcut]
    simp only [if_pos hword, if_pos hblank]
    rfl
  | instruction hbad =>
    rw [next_markup, readMarkup_question, readInstruction]
    simp only [if_neg hbad]
    rfl
  | startTag hslash hbang hquestion hcut =>
    rw [next_markup, readMarkup_tag hslash hbang hquestion, readStartTag, hcut]
    rfl

/-- Markup with an exclamation mark at its head that cannot be read. -/
theorem fails_of_readMarked {after : List Char} {names : List (List Char)} {misread : Misread}
    (h : readMarked ('!' :: after) after = .error misread) :
    Fails ⟨'<' :: '!' :: after, names⟩ misread := by
  rcases after with _ | ⟨d, after⟩
  · obtain rfl := Except.error.inj h
    exact Fails.bang
  by_cases hhyphen : d = '-'
  · subst hhyphen
    rw [readMarked_hyphen] at h
    by_cases hhead : after.head? = some '-'
    · obtain ⟨content, rfl⟩ := List.head?_eq_some_iff.mp hhead
      rw [readComment] at h
      split at h
      · cases h
      · next hcut =>
        obtain rfl := Except.error.inj h
        exact Fails.openComment hcut
    · rw [readComment_of_ne hhead] at h
      split at h
      · next hcut =>
        obtain rfl := Except.error.inj h
        exact Fails.badComment hhead hcut
      · next hcut =>
        obtain rfl := Except.error.inj h
        exact Fails.openComment (by rwa [commentText_of_ne hhead])
  by_cases hbracket : d = '['
  · subst hbracket
    rw [readMarked_bracket, readSection] at h
    split at h
    · next hcut =>
      split at h
      · cases h
      · next hword =>
        obtain rfl := Except.error.inj h
        exact Fails.badSection hcut (Bool.eq_false_iff.mpr hword)
    · next hcut =>
      obtain rfl := Except.error.inj h
      exact Fails.openSection hcut
  by_cases hd : d = 'D' ∨ d = 'd'
  · rw [readMarked_doctype hd, readDoctype] at h
    split at h
    · next hcut =>
      split at h
      · next hword =>
        split at h
        · next hblank =>
          obtain rfl := Except.error.inj h
          exact Fails.emptyDoctype hd hcut hword hblank
        · cases h
      · next hword =>
        obtain rfl := Except.error.inj h
        exact Fails.badDoctype hd hcut (Bool.eq_false_iff.mpr hword)
    · next hcut =>
      obtain rfl := Except.error.inj h
      exact Fails.openDoctype hd hcut
  · rw [readMarked, if_neg hhyphen, if_neg hbracket, if_neg hd] at h
    obtain rfl := Except.error.inj h
    exact Fails.unknownMark hhyphen hbracket hd

theorem fails_of_readMarkup {text : List Char} {names : List (List Char)} {misread : Misread}
    (h : (Reader.mk ('<' :: text) names).readMarkup text = .error misread) :
    Fails ⟨'<' :: text, names⟩ misread := by
  rcases text with _ | ⟨c, after⟩
  · cases h
  by_cases hslash : c = '/'
  · subst hslash
    rw [readMarkup_slash, map_eq_error_iff, readEndTag] at h
    rcases names with _ | ⟨name, outer⟩
    · obtain rfl := Except.error.inj h
      exact Fails.strayEnd
    · dsimp only at h
      split at h
      · cases h
      · next hname =>
        obtain rfl := Except.error.inj h
        exact Fails.otherEnd hname
  by_cases hbang : c = '!'
  · subst hbang
    rw [readMarkup_bang, map_eq_error_iff] at h
    exact fails_of_readMarked h
  by_cases hquestion : c = '?'
  · subst hquestion
    rw [readMarkup_question, map_eq_error_iff, readInstruction] at h
    split at h
    · cases h
    · next hbad =>
      obtain rfl := Except.error.inj h
      exact Fails.instruction hbad
  · rw [readMarkup_tag hslash hbang hquestion, map_eq_error_iff, readStartTag] at h
    split at h
    · split at h <;> cases h
    · next hcut =>
      obtain rfl := Except.error.inj h
      exact Fails.startTag hslash hbang hquestion hcut

/-- **The misreadings of a reader are the failures of `Reader.next`.** -/
theorem next_eq_error_iff {reader : Reader} {misread : Misread} :
    reader.next = .error misread ↔ Fails reader misread := by
  refine ⟨fun h => ?_, next_of_fails⟩
  obtain ⟨unread, names⟩ := reader
  rcases unread with _ | ⟨c, text⟩
  · cases h
  by_cases hc : c = '<'
  · subst hc
    rw [next_markup] at h
    exact fails_of_readMarkup h
  · rw [next_text hc] at h
    cases h

/-! ## The place of a misreading -/

theorem suffix_of_cut {σ : Type} {next : σ → Char → Option σ} {memory : σ}
    {text before after : List Char} (h : cut next memory text = some (before, after)) :
    after <:+ text := by
  obtain ⟨stop, rfl⟩ := cut_eq_some h
  exact (List.suffix_cons stop after).trans (List.suffix_append before _)

theorem blame_suffix (c : Char) (after : List Char) : blame (c :: after) after <:+ c :: after := by
  rw [blame]
  split
  · exact List.suffix_refl _
  · exact List.suffix_cons _ _

/-- **A misreading is put down to a place behind the `<`** of the markup that cannot be read. -/
theorem unread_suffix_of_fails {reader : Reader} {misread : Misread} (h : Fails reader misread) :
    ∃ body, reader.unread = '<' :: body ∧ misread.unread <:+ body := by
  cases h with
  | strayEnd => exact ⟨_, rfl, blame_suffix _ _⟩
  | otherEnd hname => exact ⟨_, rfl, blame_suffix _ _⟩
  | instruction hbad => exact ⟨_, rfl, blame_suffix _ _⟩
  | badComment hhyphen hcut =>
    exact ⟨_, rfl, (suffix_of_cut hcut).trans (List.suffix_append ['!', '-'] _)⟩
  | badSection hcut hword =>
    exact ⟨_, rfl, (suffix_of_cut hcut).trans (List.suffix_append ['!', '['] _)⟩
  | @badDoctype d after content rest names hd hcut hword =>
    exact ⟨_, rfl, (suffix_of_cut hcut).trans (List.suffix_append ['!', d] _)⟩
  | @emptyDoctype d after content rest names hd hcut hword hblank =>
    exact ⟨_, rfl, (suffix_of_cut hcut).trans (List.suffix_append ['!', d] _)⟩
  | _ => exact ⟨_, rfl, List.suffix_refl _⟩

/-- An event leaves the end of what was unread. -/
theorem unread_suffix_of_step {reader rest : Reader} {event : Event}
    (h : Step reader event rest) : rest.unread <:+ reader.unread := by
  cases h with
  | @text c text names hc => exact (List.dropWhile_suffix _).trans (List.suffix_cons c text)
  | @endTag after name outer hname =>
    exact ((List.tail_suffix _).trans (List.dropWhile_suffix _)).trans
      (List.suffix_append ['<', '/'] after)
  | @comment after content rest names hcut =>
    exact (suffix_of_cut hcut).trans (List.suffix_append ['<', '!', '-', '-'] after)
  | @cdata after content rest names hcut hword =>
    exact (suffix_of_cut hcut).trans (List.suffix_append ['<', '!', '['] after)
  | @doctype d after content rest names hd hcut hword hsome =>
    exact (suffix_of_cut hcut).trans (List.suffix_append ['<', '!', d] after)
  | @instruction after names hlast hlength =>
    exact ((List.tail_suffix _).trans (List.dropWhile_suffix _)).trans
      (List.suffix_append ['<', '?'] after)
  | startTag hslash hbang hquestion hcut hlast =>
    exact (suffix_of_cut hcut).trans (List.suffix_cons '<' _)
  | emptyTag hslash hbang hquestion hcut hlast =>
    exact (suffix_of_cut hcut).trans (List.suffix_cons '<' _)

/-- **The misreading that ends a transcript** is put down to a place in the text. -/
theorem unread_suffix_of_ending {reader : Reader} {misread : Misread}
    (h : reader.transcript.ending = some misread) : misread.unread <:+ reader.unread := by
  induction reader using reading_induction with
  | misread reader cause hnext =>
    rw [transcript_of_error hnext] at h
    obtain rfl := Option.some.inj h
    obtain ⟨body, hunread, hsuffix⟩ := unread_suffix_of_fails (next_eq_error_iff.mp hnext)
    rw [hunread]
    exact hsuffix.trans (List.suffix_cons '<' body)
  | done reader hnext =>
    rw [transcript_of_none hnext] at h
    cases h
  | event reader event rest hstep ih =>
    rw [transcript_of_some (next_of_step hstep)] at h
    exact (ih h).trans (unread_suffix_of_step hstep)

end Reader
end Xml
end ServiceTypes
