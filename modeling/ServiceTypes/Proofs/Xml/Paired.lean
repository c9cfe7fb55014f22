import ServiceTypes.Proofs.Xml.Whole

/-!
# An element without content, written in two ways

An element without content is written as an empty tag, or as a start tag and an end tag with
nothing between them.  The two are read by different steps and taken in by different operations,
yet a document in which one is put in place of the other comes to the same tree or has the same
fault.  Only the place of a misreading behind the tags is moved, by as much as the second form is
longer.

* `IsTagContent`, `emptyForm`, `pairForm`: what can stand in a tag, and the two ways to write it.
* `reads_emptyForm`, `reads_pairForm`: the events of the two.
* `Builder.foldlM_take_pair`: what the events do to a tree under construction.
* `Fault.moved`: a fault with the place of a misreading moved.  No other fault has a place
  (`moved_of_*`).
* `parse_pairForm`: what the exchange does to a document.
-/

namespace ServiceTypes

/-- A fault in a text into which `by` bytes were put at some place, behind the first `place` bytes:
what is behind the place is moved. -/
def Fault.moved (place shift : Nat) : Fault → Fault
  | .xml (.misread position cause) =>
    .xml (.misread (if position ≤ place then position else position + shift) cause)
  | fault => fault

namespace Xml

open Text

/-! ## The two forms -/

/-- What can stand in a tag that is neither an end tag nor other markup nor an empty tag: its
quotes are balanced, and `>` stands only inside them. -/
structure IsTagContent (content : List Char) : Prop where
  start : ∃ c more, content = c :: more ∧ c ≠ '/' ∧ c ≠ '!' ∧ c ≠ '?'
  balanced : content.foldlM unquoted none = some none
  last : content.getLast? ≠ some '/'

/-- The name in the content of a tag, which ends before the first white space. -/
def tagName (content : List Char) : List Char :=
  (Tag.ofContent content).name

/-- An element without content as an empty tag. -/
def emptyForm (content : List Char) : List Char :=
  '<' :: (content ++ ['/', '>'])

/-- An element without content as a start tag and an end tag. -/
def pairForm (content : List Char) : List Char :=
  '<' :: (content ++ '>' :: '<' :: '/' :: (tagName content ++ ['>']))

theorem emptyForm_append (content after : List Char) :
    emptyForm content ++ after = '<' :: (content ++ '/' :: '>' :: after) := by
  simp [emptyForm]

theorem pairForm_append (content after : List Char) :
    pairForm content ++ after =
      '<' :: (content ++ '>' :: '<' :: '/' :: (tagName content ++ '>' :: after)) := by
  simp [pairForm]

theorem byteCount_pairForm (content : List Char) :
    byteCount (pairForm content) =
      byteCount (emptyForm content) + (byteCount (tagName content) + 2) := by
  have hless : ('<' : Char).utf8Size = 1 := rfl
  have hgreater : ('>' : Char).utf8Size = 1 := rfl
  have hslash : ('/' : Char).utf8Size = 1 := rfl
  simp only [pairForm, emptyForm, byteCount_cons, byteCount_append, byteCount_nil, hless, hgreater,
    hslash]
  omega

namespace Reader

variable {content : List Char}

theorem reads_emptyForm (h : IsTagContent content) (after : List Char) (names : List (List Char)) :
    Reads ⟨emptyForm content ++ after, names⟩ [.emptyTag (Tag.ofContent content)]
      ⟨after, names⟩ := by
  obtain ⟨c, more, rfl, hslash, hbang, hquestion⟩ := h.start
  have hpass : (c :: more ++ ['/']).foldlM unquoted none = some none := by
    rw [List.foldlM_append, h.balanced]
    rfl
  have hcut := cut_append_of_foldlM hpass (show unquoted none '>' = none from rfl) after
  have hstep := @Step.emptyTag c (more ++ ['/'] ++ '>' :: after) _ _ names hslash hbang hquestion
    hcut List.getLast?_concat
  rw [List.dropLast_concat] at hstep
  have hsplit : emptyForm (c :: more) ++ after = '<' :: c :: (more ++ ['/'] ++ '>' :: after) := by
    simp [emptyForm]
  rw [hsplit]
  exact Reads.step hstep (Reads.refl _)

theorem reads_pairForm (h : IsTagContent content) (hname : '>' ∉ tagName content)
    (after : List Char) (names : List (List Char)) :
    Reads ⟨pairForm content ++ after, names⟩
      [.startTag (Tag.ofContent content), .endTag (tagName content)] ⟨after, names⟩ := by
  obtain ⟨c, more, rfl, hslash, hbang, hquestion⟩ := h.start
  have hcut := cut_append_of_foldlM h.balanced (show unquoted none '>' = none from rfl)
    ('<' :: '/' :: (tagName (c :: more) ++ '>' :: after))
  have hopen := @Step.startTag c _ _ _ names hslash hbang hquestion hcut h.last
  have hplain : ∀ d ∈ tagName (c :: more), d.isWhitespace = false := by
    intro d hmem
    simpa using List.mem_takeWhile_imp hmem
  obtain ⟨htake, htail, -⟩ := inner_run hname [] after
  have hclose := @Step.endTag (tagName (c :: more) ++ '>' :: [] ++ after) (tagName (c :: more))
    names (by rw [htake, endName_of_not_isWhitespace hplain])
  rw [htail] at hclose
  rw [List.append_assoc] at hclose
  rw [pairForm_append]
  exact Reads.step hopen (Reads.step hclose (Reads.refl _))

end Reader

/-! ## What the two forms do to a tree -/

/-- A start tag and the end tag behind it do what an empty tag does. -/
theorem Builder.take_pair (limits : Limits) (builder : Builder) (tag : Tag) (name : List Char) :
    (builder.take limits (.startTag tag) >>= fun between => between.take limits (.endTag name)) =
      builder.take limits (.emptyTag tag) := by
  show ((builder.openElement limits tag >>= fun element => pure (builder.push element)) >>=
    fun between => between.closeElement) =
      builder.openElement limits tag >>= fun element => builder.attach element.close
  cases builder.openElement limits tag <;> rfl

theorem Builder.foldlM_take_pair (limits : Limits) (builder : Builder) (tag : Tag)
    (name : List Char) (before after : List Event) :
    (before ++ ([Event.startTag tag, Event.endTag name] ++ after)).foldlM (take limits) builder =
      (before ++ ([Event.emptyTag tag] ++ after)).foldlM (take limits) builder := by
  rw [List.foldlM_append, List.foldlM_append]
  congr 1
  funext between
  rw [List.foldlM_append, List.foldlM_append]
  congr 1
  have h := take_pair limits between tag name
  simpa only [List.foldlM_cons, List.foldlM_nil, bind_pure] using h

/-! ## Only misreadings have a place -/

section Places

variable {limits : Limits} {place shift : Nat} {fault : Fault}

theorem Tag.moved_of_attributes {tag : Tag} (h : tag.attributes = .error fault) :
    fault.moved place shift = fault := by
  rcases Tag.attributes_eq_error_iff.mp h with ⟨_, _, _, _, _, _, _, rfl⟩ | ⟨_, _, _, rfl⟩
  · rfl
  · rfl

theorem moved_of_require {limit : Limit} {count : Nat}
    (h : limits.require limit count = .error fault) : fault.moved place shift = fault := by
  obtain ⟨excess, rfl⟩ := Limits.limit_of_require_eq_error h
  rfl

namespace Builder

variable {builder : Builder}

theorem moved_of_openElement {tag : Tag} (h : builder.openElement limits tag = .error fault) :
    fault.moved place shift = fault := by
  rcases openElement_eq_error_iff.mp h with hdepth | ⟨-, hattributes | ⟨attributes, -, hsize⟩⟩
  · exact moved_of_require hdepth
  · exact Tag.moved_of_attributes hattributes
  · exact moved_of_require hsize

/-- No event is a misreading. -/
theorem moved_of_take {event : Event} (h : builder.take limits event = .error fault) :
    fault.moved place shift = fault := by
  rcases take_eq_error_cases h with ⟨_, _, _, _, _, rfl⟩ | ⟨tag, -, hopen⟩ | ⟨_, rfl⟩
  · rfl
  · exact moved_of_openElement hopen
  · rfl

theorem moved_of_foldlM_take {events : List Event}
    (h : events.foldlM (take limits) builder = .error fault) :
    fault.moved place shift = fault := by
  induction events generalizing builder with
  | nil => cases h
  | cons event events ih =>
    rw [List.foldlM_cons] at h
    rcases bind_eq_error_iff.mp h with hevent | ⟨between, -, hrest⟩
    · exact moved_of_take hevent
    · exact ih hrest

theorem moved_of_finish (h : builder.finish = .error fault) :
    fault.moved place shift = fault := by
  rw [finish] at h
  split at h
  · obtain rfl := Except.error.inj h
    rfl
  · split at h
    · cases h
    · obtain rfl := Except.error.inj h
      rfl

end Builder
end Places

/-- Transcripts whose events do the same, and whose misreadings differ only in that they are moved,
come to outcomes that do so too. -/
theorem Transcript.root_moved {limits : Limits} {place shift : Nat} {text text' : List Char}
    {transcript transcript' : Transcript}
    (hevents : transcript'.events.foldlM (Builder.take limits) {} =
      transcript.events.foldlM (Builder.take limits) {})
    (hending : transcript'.ending.map (fun misread =>
        Fault.xml (.misread (misread.position text') misread.cause)) =
      transcript.ending.map fun misread =>
        (Fault.xml (.misread (misread.position text) misread.cause)).moved place shift) :
    transcript'.root limits text' =
      (transcript.root limits text).mapError (Fault.moved place shift) := by
  rw [Transcript.root, Transcript.root, hevents]
  rcases hfold : transcript.events.foldlM (Builder.take limits) {} with fault | builder
  · exact congrArg Except.error (Builder.moved_of_foldlM_take hfold).symm
  · rcases hfirst : transcript.ending with _ | misread
    · rw [hfirst] at hending
      rw [Option.map_eq_none_iff.mp hending]
      show builder.finish = builder.finish.mapError (Fault.moved place shift)
      rcases hfinish : builder.finish with fault | root
      · exact congrArg Except.error (Builder.moved_of_finish hfinish).symm
      · rfl
    · rw [hfirst] at hending
      obtain ⟨misread', hsecond, hmoved⟩ := Option.map_eq_some_iff.mp hending
      rw [hsecond]
      exact congrArg Except.error hmoved

/-! ## The exchange in a document -/

theorem withoutMark_append_markup (text more : List Char) :
    withoutMark (text ++ '<' :: more) = withoutMark text ++ '<' :: more := by
  rcases text with _ | ⟨c, text⟩
  · rfl
  · exact withoutMark_append (List.cons_ne_nil c text) _

/-- The place of a misreading in front of a piece of markup does not depend on what follows. -/
theorem position_append_markup (before unread more : List Char) (cause : Misreading) :
    (Misread.mk cause (unread ++ '<' :: more)).position (before ++ '<' :: more) =
      byteCount before - byteCount unread := by
  simp only [Misread.position, byteCount_append]
  omega

/-- The place of a misreading in the second half of a text. -/
theorem position_append {after : List Char} {misread : Misread}
    (h : misread.unread <:+ after) (before : List Char) :
    misread.position (before ++ after) = byteCount before + misread.position after := by
  obtain ⟨passage, rfl⟩ := h
  simp only [Misread.position, byteCount_append]
  omega

section Exchange

variable {content : List Char}

/-- The exchange, where the text before the element is read to its end. -/
theorem root_pairForm_of_reads (h : IsTagContent content) (hname : '>' ∉ tagName content)
    (limits : Limits) {before after : List Char} {events : List Event} {names : List (List Char)}
    (hreads : ∀ more, Reader.Reads ⟨before ++ '<' :: more, []⟩ events ⟨'<' :: more, names⟩) :
    (Reader.mk (before ++ (pairForm content ++ after)) []).transcript.root limits
        (before ++ (pairForm content ++ after)) =
      ((Reader.mk (before ++ (emptyForm content ++ after)) []).transcript.root limits
        (before ++ (emptyForm content ++ after))).mapError
          (Fault.moved (byteCount before) (byteCount (tagName content) + 2)) := by
  have hempty : (Reader.mk (before ++ (emptyForm content ++ after)) []).transcript =
      ⟨events ++ ([.emptyTag (Tag.ofContent content)] ++
        (Reader.mk after names).transcript.events), (Reader.mk after names).transcript.ending⟩ := by
    rw [emptyForm_append, (hreads _).transcript, ← emptyForm_append,
      (Reader.reads_emptyForm h after names).transcript]
  have hpair : (Reader.mk (before ++ (pairForm content ++ after)) []).transcript =
      ⟨events ++ ([.startTag (Tag.ofContent content), .endTag (tagName content)] ++
        (Reader.mk after names).transcript.events), (Reader.mk after names).transcript.ending⟩ := by
    rw [pairForm_append, (hreads _).transcript, ← pairForm_append,
      (Reader.reads_pairForm h hname after names).transcript]
  rw [hempty, hpair]
  refine Transcript.root_moved (Builder.foldlM_take_pair ..) ?_
  rcases hending : (Reader.mk after names).transcript.ending with _ | misread
  · rfl
  · -- the place of the misreading is behind the element, so that the longer form moves it
    have hsuffix := Reader.unread_suffix_of_ending hending
    have hplace : ∀ form, misread.position (before ++ (form ++ after)) =
        byteCount before + byteCount form + misread.position after := by
      intro form
      rw [← List.append_assoc, position_append hsuffix, byteCount_append]
    have hbehind : ¬ byteCount before + byteCount (emptyForm content) + misread.position after ≤
        byteCount before := by
      have hless : ('<' : Char).utf8Size = 1 := rfl
      rw [emptyForm, byteCount_cons, hless]
      omega
    simp only [Option.map_some, Fault.moved, hplace, byteCount_pairForm, if_neg hbehind]
    congr 3
    omega

/-- The exchange, whatever the text before the element comes to. -/
theorem root_pairForm (h : IsTagContent content) (hname : '>' ∉ tagName content)
    (limits : Limits) {before : List Char} (hbefore : Reader.Foreseen before [])
    (after : List Char) :
    (Reader.mk (before ++ (pairForm content ++ after)) []).transcript.root limits
        (before ++ (pairForm content ++ after)) =
      ((Reader.mk (before ++ (emptyForm content ++ after)) []).transcript.root limits
        (before ++ (emptyForm content ++ after))).mapError
          (Fault.moved (byteCount before) (byteCount (tagName content) + 2)) := by
  obtain ⟨events, ⟨names, hreads⟩ | ⟨cause, unread, hending⟩⟩ := hbefore
  · exact root_pairForm_of_reads h hname limits hreads
  · -- the reading ends in front of the element, at a place that does not move
    rw [pairForm_append, emptyForm_append, hending, hending]
    refine Transcript.root_moved rfl ?_
    have hbefore : byteCount before - byteCount unread ≤ byteCount before := Nat.sub_le ..
    simp only [Option.map_some, Fault.moved, position_append_markup, if_pos hbefore]

/-- **An element without content may be written in either form.**  Put behind a text that does not
end inside of markup, both forms come to the same tree or have the same fault, whatever stands
around them and as long as the longer text is not too long.  Only the place of a misreading that
is behind the tag is further on, by the two marks and the name of the end tag. -/
theorem parse_pairForm (limits : Limits) {before content : List Char} (after : List Char)
    (hbefore : Whole before) (hcontent : IsTagContent content) (hname : '>' ∉ tagName content)
    (hsize : byteCount (before ++ (pairForm content ++ after)) ≤ limits.size) :
    Element.parse limits (String.ofList (before ++ (pairForm content ++ after))) =
      (Element.parse limits (String.ofList (before ++ (emptyForm content ++ after)))).mapError
        (Fault.moved (byteCount (withoutMark before)) (byteCount (tagName content) + 2)) := by
  have hrequire : ∀ {text : List Char}, byteCount text ≤ limits.size →
      limits.require .size (String.ofList text).utf8ByteSize = .ok () := by
    intro text htext
    rw [← byteCount_toList, String.toList_ofList]
    exact Limits.require_eq_ok_iff.mpr htext
  have hshorter : byteCount (before ++ (emptyForm content ++ after)) ≤ limits.size := by
    rw [byteCount_append, byteCount_append, byteCount_pairForm] at hsize
    rw [byteCount_append, byteCount_append]
    omega
  have hroot := root_pairForm hcontent hname limits
    (Reader.foreseen_of_whole (whole_withoutMark hbefore) []) after
  have hmark : ∀ more, withoutMark (before ++ '<' :: more) = withoutMark before ++ '<' :: more :=
    withoutMark_append_markup before
  rw [Element.parse_eq, Element.parse_eq, hrequire hsize, hrequire hshorter, Transcript.ofText,
    Transcript.ofText, String.toList_ofList, String.toList_ofList, pairForm_append,
    emptyForm_append, hmark, hmark, ← pairForm_append, ← emptyForm_append]
  exact hroot

/-- Behind an element without content an end tag closes nothing.  The second form puts it three
bytes further on, and it stays the same misreading. -/
theorem parse_pairForm_mismatch :
    Element.parse .strict "<r> <a k='>'/></q>" =
        .error (.xml (.misread 16 (.mismatch ['r'] ['q']))) ∧
      Element.parse .strict "<r> <a k='>'></a></q>" =
        .error (.xml (.misread 19 (.mismatch ['r'] ['q']))) := by
  have hcut : cut unquoted none ['r', '>', ' '] = some (['r'], [' ']) := by decide
  have hbefore : Whole ['<', 'r', '>', ' '] :=
    Whole.tag (by decide) (by decide) (by decide) hcut (Whole.text (by decide) Whole.nil)
  have hcontent : IsTagContent "a k='>'".toList :=
    ⟨⟨'a', " k='>'".toList, by decide, by decide, by decide, by decide⟩, by decide, by decide⟩
  have hempty : Element.parse .strict "<r> <a k='>'/></q>" =
      .error (.xml (.misread 16 (.mismatch ['r'] ['q']))) := by
    have hfault : (Element.parse .strict "<r> <a k='>'/></q>").map (fun _ => ()) =
        .error (.xml (.misread 16 (.mismatch ['r'] ['q']))) := by
      decide +kernel
    exact map_eq_error_iff.mp hfault
  have hexchange := parse_pairForm .strict "</q>".toList hbefore hcontent (by decide) (by decide)
  exact ⟨hempty, hexchange.trans (congrArg (Except.mapError _) hempty)⟩

end Exchange

end Xml
end ServiceTypes
