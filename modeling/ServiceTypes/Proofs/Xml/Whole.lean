import ServiceTypes.Proofs.Xml.Misreading
import ServiceTypes.Proofs.Xml.Passage

/-!
# Texts that end outside of markup

A text can be cut at a place that lies inside a tag, a comment or another piece of markup, or at
one that does not.  In the second case the reading of what stands before the place does not depend
on what stands behind it, provided that this begins with markup: the same events come out, or the
same misreading is put down to the same place.

* `Whole`: a text that does not end inside a piece of markup.  Only the end of each piece counts;
  an end tag may close the wrong name, and a section may open in the wrong way.
* `foreseen_of_*`: one lemma for each kind of markup.
* `foreseen_of_whole`: such a text is read, or fails to be read, in the same way whatever markup
  follows.
-/

namespace ServiceTypes
namespace Xml

open Text

/-- A text that does not end inside a tag or another piece of markup.  Its pieces have an end of
their own; whether they make sense plays no part. -/
inductive Whole : List Char → Prop
  | nil : Whole []
  /-- A run of text goes on to the next `<`. -/
  | text {c : Char} {text : List Char} (hc : c ≠ '<')
    (h : Whole (text.dropWhile Reader.isText)) : Whole (c :: text)
  /-- End tags and processing instructions go on to the next `>`. -/
  | closed {mark : Char} {content rest : List Char} (hmark : mark = '/' ∨ mark = '?')
    (hcontent : '>' ∉ content) (h : Whole rest) : Whole ('<' :: mark :: (content ++ '>' :: rest))
  | comment {after content rest : List Char}
    (hcut : cut (afterRun '-') 0 (commentText after) = some (content, rest)) (h : Whole rest) :
    Whole ('<' :: '!' :: '-' :: after)
  | cdata {after content rest : List Char}
    (hcut : cut (afterRun ']') 0 after = some (content, rest)) (h : Whole rest) :
    Whole ('<' :: '!' :: '[' :: after)
  | doctype {d : Char} {after content rest : List Char} (hd : d = 'D' ∨ d = 'd')
    (hcut : cut balanced 0 after = some (content, rest)) (h : Whole rest) :
    Whole ('<' :: '!' :: d :: after)
  /-- What starts like no markup is not read on, so that nothing is open behind it. -/
  | refused {c : Char} {after : List Char} (hhyphen : c ≠ '-') (hbracket : c ≠ '[')
    (hd : ¬ (c = 'D' ∨ c = 'd')) : Whole ('<' :: '!' :: c :: after)
  /-- Start tags and empty tags go on to the first `>` outside quotes. -/
  | tag {c : Char} {after content rest : List Char} (hslash : c ≠ '/') (hbang : c ≠ '!')
    (hquestion : c ≠ '?') (hcut : cut unquoted none (c :: after) = some (content, rest))
    (h : Whole rest) : Whole ('<' :: c :: after)

/-- The rest of a run of text can be left out. -/
theorem whole_of_dropWhile {text : List Char} (h : Whole (text.dropWhile Reader.isText)) :
    Whole text := by
  rcases text with _ | ⟨c, text⟩
  · exact Whole.nil
  by_cases hc : c = '<'
  · rwa [List.dropWhile_cons_of_neg (by simp [Reader.isText, hc])] at h
  · rw [List.dropWhile_cons_of_pos (by simp [Reader.isText, hc])] at h
    exact Whole.text hc h

theorem whole_withoutMark {text : List Char} (h : Whole text) : Whole (withoutMark text) := by
  rcases text with _ | ⟨c, text⟩
  · exact Whole.nil
  rw [withoutMark]
  split
  · next hc =>
    subst hc
    cases h with
    | text _ h => exact whole_of_dropWhile h
  · exact h

namespace Reader

/-- A text is read to its end, or fails to be read, in the same way whatever markup follows.  The
events are those before the end or the failure. -/
def Foreseen (text : List Char) (names : List (List Char)) : Prop :=
  ∃ events, (∃ names', ∀ more, Reads ⟨text ++ '<' :: more, names⟩ events ⟨'<' :: more, names'⟩) ∨
    ∃ cause unread, ∀ more, (Reader.mk (text ++ '<' :: more) names).transcript =
      ⟨events, some ⟨cause, unread ++ '<' :: more⟩⟩

theorem foreseen_of_fails {text unread : List Char} {names : List (List Char)}
    {cause : Misreading}
    (h : ∀ more, Fails ⟨text ++ '<' :: more, names⟩ ⟨cause, unread ++ '<' :: more⟩) :
    Foreseen text names :=
  ⟨[], Or.inr ⟨cause, unread, fun more => transcript_of_error (next_of_fails (h more))⟩⟩

theorem foreseen_of_step {text rest : List Char} {names names' : List (List Char)} {event : Event}
    (hstep : ∀ more, Step ⟨text ++ '<' :: more, names⟩ event ⟨rest ++ '<' :: more, names'⟩)
    (hrest : Foreseen rest names') : Foreseen text names := by
  obtain ⟨events, ⟨last, hreads⟩ | ⟨cause, unread, hending⟩⟩ := hrest
  · exact ⟨event :: events, Or.inl ⟨last, fun more => Reads.step (hstep more) (hreads more)⟩⟩
  · refine ⟨event :: events, Or.inr ⟨cause, unread, fun more => ?_⟩⟩
    rw [transcript_of_some (next_of_step (hstep more)), hending]

theorem run_append_markup (text more : List Char) :
    (text ++ '<' :: more).takeWhile isText = text.takeWhile isText ∧
      (text ++ '<' :: more).dropWhile isText = text.dropWhile isText ++ '<' :: more := by
  by_cases hdrop : text.dropWhile isText = []
  · have hrun := List.dropWhile_eq_nil_iff.mp hdrop
    have hstop : isText '<' = false := by decide
    rw [takeWhile_append_stop hrun hstop, dropWhile_append_stop hrun hstop, hdrop,
      List.takeWhile_eq_self_iff.mpr hrun]
    exact ⟨rfl, rfl⟩
  · exact run_append hdrop _

/-- Markup that runs to a `>` and has one runs to it whatever comes behind. -/
theorem inner_run {content : List Char} (hcontent : '>' ∉ content) (rest more : List Char) :
    (content ++ '>' :: rest ++ more).takeWhile isInner = content ∧
      ((content ++ '>' :: rest ++ more).dropWhile isInner).tail = rest ++ more ∧
      ∀ body, blame body (content ++ '>' :: rest ++ more) = content ++ '>' :: rest ++ more := by
  have hrun : ∀ c ∈ content, isInner c = true := fun c hmem =>
    decide_eq_true fun heq => hcontent (heq ▸ hmem)
  have hstop : isInner '>' = false := by decide
  have hdrop := dropWhile_append_stop hrun hstop (rest ++ more)
  rw [List.append_assoc, List.cons_append]
  refine ⟨takeWhile_append_stop hrun hstop _, by rw [hdrop]; rfl, fun body => ?_⟩
  rw [blame, hdrop]
  rfl

/-- An end tag with its `>` closes an element or is a mismatch, whatever comes behind. -/
theorem foreseen_of_endTag {content rest : List Char} (hcontent : '>' ∉ content)
    (names : List (List Char)) (hrest : ∀ names, Foreseen rest names) :
    Foreseen ('<' :: '/' :: (content ++ '>' :: rest)) names := by
  rcases names with _ | ⟨name, outer⟩
  · have hfails : ∀ more, Fails ⟨'<' :: '/' :: (content ++ '>' :: rest) ++ '<' :: more, []⟩
        ⟨.mismatch [] content, content ++ '>' :: rest ++ '<' :: more⟩ := by
      intro more
      obtain ⟨htake, -, hblame⟩ := inner_run hcontent rest ('<' :: more)
      have h := @Fails.strayEnd (content ++ '>' :: rest ++ '<' :: more)
      rwa [htake, hblame] at h
    exact foreseen_of_fails hfails
  by_cases hname : endName content = name
  · have hstep : ∀ more, Step ⟨'<' :: '/' :: (content ++ '>' :: rest) ++ '<' :: more, name :: outer⟩
        (.endTag name) ⟨rest ++ '<' :: more, outer⟩ := by
      intro more
      obtain ⟨htake, htail, -⟩ := inner_run hcontent rest ('<' :: more)
      have h := @Step.endTag (content ++ '>' :: rest ++ '<' :: more) name outer
        (by rw [htake, hname])
      rwa [htail] at h
    exact foreseen_of_step hstep (hrest outer)
  · have hfails : ∀ more, Fails
        ⟨'<' :: '/' :: (content ++ '>' :: rest) ++ '<' :: more, name :: outer⟩
        ⟨.mismatch name (endName content), content ++ '>' :: rest ++ '<' :: more⟩ := by
      intro more
      obtain ⟨htake, -, hblame⟩ := inner_run hcontent rest ('<' :: more)
      have h := @Fails.otherEnd (content ++ '>' :: rest ++ '<' :: more) name outer
        (by rwa [htake])
      rwa [htake, hblame] at h
    exact foreseen_of_fails hfails

/-- An instruction with its `>` is read or refused, whatever comes behind. -/
theorem foreseen_of_instruction {content rest : List Char} (hcontent : '>' ∉ content)
    {names : List (List Char)} (hrest : Foreseen rest names) :
    Foreseen ('<' :: '?' :: (content ++ '>' :: rest)) names := by
  by_cases hgood : content.getLast? = some '?' ∧ 2 ≤ content.length
  · have hstep : ∀ more, Step ⟨'<' :: '?' :: (content ++ '>' :: rest) ++ '<' :: more, names⟩
        (.instruction content.dropLast) ⟨rest ++ '<' :: more, names⟩ := by
      intro more
      obtain ⟨htake, htail, -⟩ := inner_run hcontent rest ('<' :: more)
      have h := @Step.instruction (content ++ '>' :: rest ++ '<' :: more) names
        (by rw [htake]; exact hgood.1) (by rw [htake]; exact hgood.2)
      rwa [htake, htail] at h
    exact foreseen_of_step hstep hrest
  · have hfails : ∀ more, Fails ⟨'<' :: '?' :: (content ++ '>' :: rest) ++ '<' :: more, names⟩
        ⟨.cutOff .instruction, content ++ '>' :: rest ++ '<' :: more⟩ := by
      intro more
      obtain ⟨htake, -, hblame⟩ := inner_run hcontent rest ('<' :: more)
      have h := @Fails.instruction (content ++ '>' :: rest ++ '<' :: more) names
        (by rwa [htake])
      rwa [hblame] at h
    exact foreseen_of_fails hfails

/-- A comment with its end is read or refused, whatever comes behind. -/
theorem foreseen_of_comment {after content rest : List Char}
    (hcut : cut (afterRun '-') 0 (commentText after) = some (content, rest))
    {names : List (List Char)} (hrest : Foreseen rest names) :
    Foreseen ('<' :: '!' :: '-' :: after) names := by
  by_cases hhead : after.head? = some '-'
  · obtain ⟨inner, rfl⟩ := List.head?_eq_some_iff.mp hhead
    exact foreseen_of_step (fun more => Step.comment (cut_append hcut ('<' :: more))) hrest
  · rw [commentText_of_ne hhead] at hcut
    have hsome : after ≠ [] := fun hnil => by rw [hnil] at hcut; cases hcut
    have hmore : ∀ more, (after ++ '<' :: more).head? ≠ some '-' := by
      intro more
      rwa [List.head?_append_of_ne_nil _ hsome]
    exact foreseen_of_fails fun more =>
      Fails.badComment (hmore more) (cut_append hcut ('<' :: more))

/-- A character data section with its end is read or refused, whatever comes behind. -/
theorem foreseen_of_section {after content rest : List Char}
    (hcut : cut (afterRun ']') 0 after = some (content, rest)) {names : List (List Char)}
    (hrest : Foreseen rest names) : Foreseen ('<' :: '!' :: '[' :: after) names := by
  by_cases hword : startsWith "CDATA[".toList content = true
  · exact foreseen_of_step (fun more => Step.cdata (cut_append hcut ('<' :: more)) hword) hrest
  · exact foreseen_of_fails fun more =>
      Fails.badSection (cut_append hcut ('<' :: more)) (Bool.eq_false_iff.mpr hword)

/-- A document type with its end is read or refused, whatever comes behind. -/
theorem foreseen_of_doctype {d : Char} {after content rest : List Char} (hd : d = 'D' ∨ d = 'd')
    (hcut : cut balanced 0 after = some (content, rest)) {names : List (List Char)}
    (hrest : Foreseen rest names) : Foreseen ('<' :: '!' :: d :: after) names := by
  by_cases hword : startsWith "OCTYPE".toList content = true
  · by_cases hblank : (content.drop 6).all Char.isWhitespace = true
    · exact foreseen_of_fails fun more =>
        Fails.emptyDoctype hd (cut_append hcut ('<' :: more)) hword hblank
    · exact foreseen_of_step (fun more =>
        Step.doctype hd (cut_append hcut ('<' :: more)) hword (Bool.eq_false_iff.mpr hblank)) hrest
  · exact foreseen_of_fails fun more =>
      Fails.badDoctype hd (cut_append hcut ('<' :: more)) (Bool.eq_false_iff.mpr hword)

/-- **A text that ends outside of markup** is read, or fails to be read, in the same way whatever
markup follows. -/
theorem foreseen_of_whole {text : List Char} (h : Whole text) (names : List (List Char)) :
    Foreseen text names := by
  induction h generalizing names with
  | nil => exact ⟨[], Or.inl ⟨names, fun more => Reads.refl _⟩⟩
  | @text c text hc _ ih =>
    have hstep : ∀ more, Step ⟨c :: text ++ '<' :: more, names⟩ (.text (c :: text.takeWhile isText))
        ⟨text.dropWhile isText ++ '<' :: more, names⟩ := by
      intro more
      obtain ⟨htake, hdrop⟩ := run_append_markup text more
      have h := @Step.text c (text ++ '<' :: more) names hc
      rwa [htake, hdrop] at h
    exact foreseen_of_step hstep (ih names)
  | @closed mark content rest hmark hcontent _ ih =>
    rcases hmark with rfl | rfl
    · exact foreseen_of_endTag hcontent names ih
    · exact foreseen_of_instruction hcontent (ih names)
  | comment hcut _ ih => exact foreseen_of_comment hcut (ih names)
  | cdata hcut _ ih => exact foreseen_of_section hcut (ih names)
  | doctype hd hcut _ ih => exact foreseen_of_doctype hd hcut (ih names)
  | @refused c after hhyphen hbracket hd =>
    have hfails : ∀ more, Fails ⟨'<' :: '!' :: c :: after ++ '<' :: more, names⟩
        ⟨.unknownMark (leadingByte c), '!' :: c :: after ++ '<' :: more⟩ :=
      fun more => Fails.unknownMark hhyphen hbracket hd
    exact foreseen_of_fails hfails
  | @tag c after content rest hslash hbang hquestion hcut _ ih =>
    by_cases hlast : content.getLast? = some '/'
    · exact foreseen_of_step (fun more =>
        Step.emptyTag hslash hbang hquestion (cut_append hcut ('<' :: more)) hlast) (ih names)
    · exact foreseen_of_step (fun more =>
        Step.startTag hslash hbang hquestion (cut_append hcut ('<' :: more)) hlast) (ih _)

end Reader
end Xml
end ServiceTypes
