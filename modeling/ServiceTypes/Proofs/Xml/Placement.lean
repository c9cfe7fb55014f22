import ServiceTypes.Proofs.Xml.Loop
import ServiceTypes.Proofs.Xml.Misreading

/-!
# A misreading is placed in its markup

The place of a misreading is a count of bytes, and how it comes about depends on what went wrong.
Markup that has no end is put down to the place behind its `<`.  A comment, a section or a document
type that has an end and does not say the right thing is put down to the place behind that end.  An
end tag or an instruction is passed to its end first, which may be that of the text, and from there
the place is set back by the length of the content.  Each time the place comes out behind the `<`
of that piece of markup and no further on than its end.

* `Reader.behindMarkup`: where a piece of markup ends.  Only how it begins matters for that, not
  whether it can be read.
* `behindMarkup_of_step`: a piece that can be read ends there.
* `unread_of_fails`: a piece that cannot be read is put down to a place between its `<` and there.
* `byteCount_unread_of_fails`: the places that are set back.
* `StopsAt`: the piece of markup at which a reading of a text stops.
* `position_in_markup`: the place that a document is refused with.
-/

namespace ServiceTypes

namespace Text

variable {σ : Type} {next : σ → Char → Option σ} {memory : σ}

/-- What stands behind the first stop of a scan, which is nothing if there is none. -/
def behindCut (next : σ → Char → Option σ) (memory : σ) (text : List Char) : List Char :=
  match cut next memory text with
  | some (_, after) => after
  | none => []

theorem behindCut_of_some {text before after : List Char}
    (h : cut next memory text = some (before, after)) : behindCut next memory text = after := by
  rw [behindCut, h]

theorem behindCut_of_none {text : List Char} (h : cut next memory text = none) :
    behindCut next memory text = [] := by
  rw [behindCut, h]

end Text

namespace Xml

open Text

/-- The misreadings that are set back: those of a piece of markup which is passed to its end before
its content is looked at. -/
def Misreading.IsSetBack : Misreading → Prop
  | .mismatch _ _ => True
  | .cutOff .instruction => True
  | _ => False

namespace Reader

/-! ## Where a piece of markup ends -/

/-- What stands behind the piece of markup that starts with `<!`, given what follows.  If that is
none of the kinds there are, the piece ends behind the character that shows it. -/
def behindMarked : List Char → List Char
  | [] => []
  | c :: after =>
    if c = '-' then behindCut (afterRun '-') 0 (commentText after)
    else if c = '[' then behindCut (afterRun ']') 0 after
    else if c = 'D' ∨ c = 'd' then behindCut balanced 0 after
    else after

/-- What stands behind the piece of markup that starts with `<`, given what follows.  A piece ends
with the `>` that its kind asks for; without that it is cut off, and ends with the text. -/
def behindMarkup : List Char → List Char
  | [] => []
  | c :: after =>
    if c = '/' ∨ c = '?' then (after.dropWhile isInner).tail
    else if c = '!' then behindMarked after
    else behindCut unquoted none (c :: after)

theorem behindMarked_doctype {d : Char} (hd : d = 'D' ∨ d = 'd') (after : List Char) :
    behindMarked (d :: after) = behindCut balanced 0 after := by
  rcases hd with rfl | rfl <;> rfl

theorem behindMarkup_tag {c : Char} (hslash : c ≠ '/') (hbang : c ≠ '!') (hquestion : c ≠ '?')
    (after : List Char) :
    behindMarkup (c :: after) = behindCut unquoted none (c :: after) := by
  rw [behindMarkup, if_neg (not_or.mpr ⟨hslash, hquestion⟩), if_neg hbang]

variable {body : List Char} {names : List (List Char)} {misread : Misread}

/-- A piece of markup that can be read ends where it does for its kind. -/
theorem behindMarkup_of_step {event : Event} {rest : Reader}
    (h : Step ⟨'<' :: body, names⟩ event rest) : behindMarkup body = rest.unread := by
  cases h with
  | text hc => exact absurd rfl hc
  | endTag hname => rfl
  | comment hcut => exact behindCut_of_some hcut
  | cdata hcut hword => exact behindCut_of_some hcut
  | doctype hd hcut hword hsome =>
    exact (behindMarked_doctype hd _).trans (behindCut_of_some hcut)
  | instruction hlast hlength => rfl
  | startTag hslash hbang hquestion hcut hlast =>
    exact (behindMarkup_tag hslash hbang hquestion _).trans (behindCut_of_some hcut)
  | emptyTag hslash hbang hquestion hcut hlast =>
    exact (behindMarkup_tag hslash hbang hquestion _).trans (behindCut_of_some hcut)

/-! ## Where a misreading is put down to -/

/-- What is behind a piece up to the next `>` is behind the place that it is blamed on. -/
theorem tail_suffix_blame (c : Char) (after : List Char) :
    (after.dropWhile isInner).tail <:+ blame (c :: after) after := by
  have htail : (after.dropWhile isInner).tail <:+ after :=
    (List.tail_suffix _).trans (List.dropWhile_suffix _)
  rw [blame]
  split
  · exact htail.trans (List.suffix_cons c after)
  · exact htail

/-- **A misreading is put down to a place in its markup**, behind the `<` and not behind the end. -/
theorem unread_of_fails (h : Fails ⟨'<' :: body, names⟩ misread) :
    behindMarkup body <:+ misread.unread ∧ misread.unread <:+ body := by
  have hopen : ∀ {unread : List Char}, behindMarkup body = [] → unread = body →
      behindMarkup body <:+ unread ∧ unread <:+ body := by
    rintro unread hnil rfl
    rw [hnil]
    exact ⟨List.nil_suffix, List.suffix_refl _⟩
  have hclosed : ∀ {unread : List Char}, behindMarkup body = unread → unread <:+ body →
      behindMarkup body <:+ unread ∧ unread <:+ body := by
    rintro unread rfl hsuffix
    exact ⟨List.suffix_refl _, hsuffix⟩
  cases h with
  | @strayEnd after => exact ⟨tail_suffix_blame '/' after, blame_suffix '/' after⟩
  | @otherEnd after _ _ hname => exact ⟨tail_suffix_blame '/' after, blame_suffix '/' after⟩
  | @instruction after _ hbad => exact ⟨tail_suffix_blame '?' after, blame_suffix '?' after⟩
  | bang => exact hopen rfl rfl
  | @unknownMark c after _ hhyphen hbracket hd =>
    have hbehind : behindMarkup ('!' :: c :: after) = after := by
      show behindMarked (c :: after) = after
      rw [behindMarked, if_neg hhyphen, if_neg hbracket, if_neg hd]
    rw [hbehind]
    exact ⟨List.suffix_append ['!', c] after, List.suffix_refl _⟩
  | openComment hcut => exact hopen (behindCut_of_none hcut) rfl
  | openSection hcut => exact hopen (behindCut_of_none hcut) rfl
  | openDoctype hd hcut =>
    exact hopen ((behindMarked_doctype hd _).trans (behindCut_of_none hcut)) rfl
  | startTag hslash hbang hquestion hcut =>
    exact hopen ((behindMarkup_tag hslash hbang hquestion _).trans (behindCut_of_none hcut)) rfl
  | badComment hhyphen hcut =>
    refine hclosed ?_ ((suffix_of_cut hcut).trans (List.suffix_append ['!', '-'] _))
    rw [← commentText_of_ne hhyphen] at hcut
    exact behindCut_of_some hcut
  | badSection hcut hword =>
    exact hclosed (behindCut_of_some hcut)
      ((suffix_of_cut hcut).trans (List.suffix_append ['!', '['] _))
  | @badDoctype d _ _ _ _ hd hcut hword =>
    exact hclosed ((behindMarked_doctype hd _).trans (behindCut_of_some hcut))
      ((suffix_of_cut hcut).trans (List.suffix_append ['!', d] _))
  | @emptyDoctype d _ _ _ _ hd hcut hword hblank =>
    exact hclosed ((behindMarked_doctype hd _).trans (behindCut_of_some hcut))
      ((suffix_of_cut hcut).trans (List.suffix_append ['!', d] _))

/-- Of a piece that is passed to its end, the place to blame lies before that end by the length of
the content, the character that shows its kind included. -/
theorem byteCount_blame {c : Char} (hc : c.utf8Size = 1) (hinner : isInner c = true)
    (after : List Char) :
    byteCount (blame (c :: after) after) =
      byteCount ((after.dropWhile isInner).tail) + byteCount ((c :: after).takeWhile isInner) := by
  rw [List.takeWhile_cons_of_pos hinner, byteCount_cons, hc, blame]
  rcases inner_cases after with hrun | ⟨run, behind, rfl, hrun⟩
  · rw [dropWhile_eq_nil_of_inner hrun, List.takeWhile_eq_self_iff.mpr hrun]
    simp only [List.isEmpty_nil, if_true, List.tail_nil, byteCount_nil, byteCount_cons, hc,
      Nat.zero_add]
  · have hstop : isInner '>' = false := by decide
    have hangle : '>'.utf8Size = 1 := rfl
    rw [dropWhile_append_stop hrun hstop, takeWhile_append_stop hrun hstop]
    simp only [List.isEmpty_cons, Bool.false_eq_true, if_false, List.tail_cons, byteCount_append,
      byteCount_cons, hangle]
    omega

/-- **Where a misreading is set back from the end of its markup**, it is set back by the length of
the content. -/
theorem byteCount_unread_of_fails (h : Fails ⟨'<' :: body, names⟩ misread)
    (hcause : misread.cause.IsSetBack) :
    byteCount misread.unread =
      byteCount (behindMarkup body) + byteCount (body.takeWhile isInner) := by
  cases h with
  | strayEnd => exact byteCount_blame rfl (by decide) _
  | otherEnd hname => exact byteCount_blame rfl (by decide) _
  | instruction hbad => exact byteCount_blame rfl (by decide) _
  | _ => exact absurd hcause id

/-! ## The place that a document is refused with -/

/-- A text is read up to a piece of markup that cannot be read: what stands before it, what it says
behind its `<`, and what stands behind it. -/
structure StopsAt (text before content rest : List Char) (cause : Misreading) : Prop where
  text_eq : text = before ++ '<' :: (content ++ rest)
  ends : behindMarkup (content ++ rest) = rest
  stops : ∃ events names unread,
    Reads ⟨text, []⟩ events ⟨'<' :: (content ++ rest), names⟩ ∧
      (Reader.mk ('<' :: (content ++ rest)) names).next = .error ⟨cause, unread⟩

/-- A reader that comes to a misreading stops at a piece of markup, and the misreading is put down
to a place in it. -/
theorem stopsAt_of_fails {text : List Char} {events : List Event}
    (hreads : Reads ⟨text, []⟩ events ⟨'<' :: body, names⟩)
    (hfails : Fails ⟨'<' :: body, names⟩ misread) :
    ∃ before content, StopsAt text before content (behindMarkup body) misread.cause ∧
      body = content ++ behindMarkup body := by
  obtain ⟨hbehind, hplace⟩ := unread_of_fails hfails
  obtain ⟨content, hcontent⟩ := hbehind.trans hplace
  obtain ⟨before, hbefore, -⟩ := hreads.exists_passage
  refine ⟨before, content, ⟨?_, ?_, events, names, misread.unread, ?_, ?_⟩, hcontent.symm⟩
  · rw [hcontent]
    exact hbefore
  · rw [hcontent]
  · rwa [hcontent]
  · rw [hcontent]
    exact next_of_fails hfails

end Reader

/-- What is open at the end, or missing there, has no place. -/
theorem Builder.finish_ne_misread (builder : Builder) {position : Nat} {cause : Misreading} :
    builder.finish ≠ .error (.xml (.misread position cause)) := by
  rw [finish]
  rcases builder.stack with _ | ⟨element, outer⟩
  · rcases builder.root with _ | root <;> simp
  · simp

open Reader in
/-- **The place that a document is refused with lies in the markup that cannot be read.**  It is
counted in bytes from the start of the text, less its mark.  It is behind the `<` of that piece of
markup and no further on than its end, which is the end of the text if the piece is cut off; so it
is a place of the text, and never the very first.  Where it is set back, it is set back from the end
of the piece by the length of the content, and there is always enough to set it back from. -/
theorem position_in_markup {limits : Limits} {text : String} {position : Nat} {cause : Misreading}
    (h : Element.parse limits text = .error (.xml (.misread position cause))) :
    ∃ before content rest, StopsAt (withoutMark text.toList) before content rest cause ∧
      byteCount before < position ∧ position ≤ byteCount before + byteCount ('<' :: content) ∧
      1 ≤ position ∧ position ≤ byteCount (withoutMark text.toList) ∧
      (cause.IsSetBack → position + byteCount ((content ++ rest).takeWhile isInner) =
        byteCount before + byteCount ('<' :: content)) := by
  obtain ⟨-, last, hlast, ⟨misread, hnext, hdefect⟩ | ⟨-, hfinish⟩⟩ :=
    exists_last_of_atEnd (show (Defect.misread position cause).AtEnd from trivial) h
  · obtain ⟨rfl, rfl⟩ := Defect.misread.inj hdefect
    have hfails := next_eq_error_iff.mp hnext
    obtain ⟨events, hreads⟩ := Loop.exists_reads hlast
    obtain ⟨⟨unread, names⟩, builder⟩ := last
    obtain ⟨body, rfl, -⟩ : ∃ body, unread = '<' :: body ∧ misread.unread <:+ body :=
      unread_suffix_of_fails hfails
    obtain ⟨before, content, hstops, hbody⟩ := stopsAt_of_fails hreads hfails
    obtain ⟨⟨taken, htaken⟩, ⟨back, hback⟩⟩ := unread_of_fails hfails
    have hangle : '<'.utf8Size = 1 := rfl
    have htext := congrArg byteCount hstops.text_eq
    have hsplit := congrArg byteCount hbody
    have htakencount := congrArg byteCount htaken
    have hbackcount := congrArg byteCount hback
    simp only [byteCount_append, byteCount_cons, hangle] at htext hsplit htakencount hbackcount
    have hposition : misread.position (withoutMark text.toList) =
        byteCount (withoutMark text.toList) - byteCount misread.unread := rfl
    refine ⟨before, content, behindMarkup body, hstops, ?_⟩
    rw [hposition, byteCount_cons, hangle]
    refine ⟨by omega, by omega, by omega, by omega, fun hcause => ?_⟩
    have hset := byteCount_unread_of_fails hfails hcause
    rw [← hbody]
    omega
  · exact absurd hfinish last.builder.finish_ne_misread

open Reader in
/-- An end tag of another name that runs to the end of the text, behind a mark and with characters
of more than one byte. -/
theorem position_in_markup_cut_off :
    Element.parse ⟨1, 20, 0, 0⟩ "\uFEFF<é>…</ß" =
      .error (.xml (.misread 8 (.mismatch ['é'] ['ß']))) ∧
    ∃ before content rest,
      StopsAt "<é>…</ß".toList before content rest (.mismatch ['é'] ['ß']) ∧
      byteCount before < 8 ∧ 8 ≤ byteCount before + byteCount ('<' :: content) := by
  have hparse : (Element.parse ⟨1, 20, 0, 0⟩ "\uFEFF<é>…</ß").map (fun _ => ()) =
      .error (.xml (.misread 8 (.mismatch ['é'] ['ß']))) := by decide +kernel
  have hfault := map_eq_error_iff.mp hparse
  obtain ⟨before, content, rest, hstops, hbehind, hends, -⟩ := position_in_markup hfault
  exact ⟨hfault, before, content, rest, hstops, hbehind, hends⟩

end Xml
end ServiceTypes
