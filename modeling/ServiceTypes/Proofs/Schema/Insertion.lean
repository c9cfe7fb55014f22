import ServiceTypes.Proofs.Refusal
import ServiceTypes.Proofs.Schema.Insensitivity
import ServiceTypes.Proofs.Xml.Bare
import ServiceTypes.Proofs.Xml.Passage
import ServiceTypes.Proofs.Xml.RoundTrip

/-!
# What is not an element has no part in the definitions

A comment, a processing instruction, a character data section or a run of plain text may be put
into a description directly behind any piece of its markup, within any element or outside the root,
and its definitions stay as they are.  Neither the comment nor the others need to make sense: a
comment may begin with `>` or `->`, and a text that is put before another one is joined to it.

The two texts are read alike up to the place, and then again behind what was put in, or behind the
run of text that it is joined to.  In between there are no tags, so that the two have the same tags
in all; and a tree is the same without its text when the tags are.

* `Inert`: what can be put in.
* `resolve_append`: a text before another one leaves the references in it alone.
* `SameTags`: events that have the tokens of others up to text.
* `exists_transcript_of_inert`: how a text is read before which something is put.
* `definitions_bare`: the definitions of a description are those of it without its text.
* `definitionsOfText_insert`: the definitions stay as they are, and the fault if there is one.
-/

namespace ServiceTypes
namespace Xml

open Text

/-! ## What can be put in -/

/-- What can be put into a text. -/
inductive Inert : List Char → Prop
  | comment {content : List Char} (h : ¬ ['-', '-', '>'] <:+: content) :
    Inert ("<!--".toList ++ content ++ "-->".toList)
  | instruction {content : List Char} (hsome : content ≠ []) (h : '>' ∉ content) :
    Inert ("<?".toList ++ content ++ "?>".toList)
  | cdata {content : List Char} (h : ¬ [']', ']', '>'] <:+: content) :
    Inert ("<![CDATA[".toList ++ content ++ "]]>".toList)
  | text {content : List Char} (hmarkup : '<' ∉ content) (hreference : '&' ∉ content) :
    Inert content

namespace Reader

/-- A comment runs to its own end when its content has none. -/
theorem step_of_comment {content : List Char} (h : ¬ ['-', '-', '>'] <:+: content)
    (names : List (List Char)) (rest : List Char) :
    Step ⟨"<!--".toList ++ (content ++ '-' :: '-' :: '>' :: rest), names⟩ (.comment content)
      ⟨rest, names⟩ := by
  have hcut := @cut_afterRun '-' [] content (by decide) rfl h rest
  have hlast : (content ++ ['-', '-']).dropLast.dropLast = content := by
    simp
  rw [List.nil_append, List.nil_append] at hcut
  have hstep := @Step.comment _ _ rest names hcut
  rw [hlast] at hstep
  exact hstep

/-- An instruction runs to its own end when it says something without one. -/
theorem step_of_instruction {content : List Char} (hsome : content ≠ []) (h : '>' ∉ content)
    (names : List (List Char)) (rest : List Char) :
    Step ⟨"<?".toList ++ (content ++ '?' :: '>' :: rest), names⟩ (.instruction content)
      ⟨rest, names⟩ := by
  have hrun : ∀ c ∈ content ++ ['?'], isInner c = true := by
    intro c hmem
    refine decide_eq_true fun heq => ?_
    subst heq
    rcases List.mem_append.mp hmem with hmem | hmem
    · exact h hmem
    · exact absurd (List.mem_singleton.mp hmem) (by decide)
  have hstop : isInner '>' = false := by decide
  have htake := takeWhile_append_stop hrun hstop rest
  have hdrop := dropWhile_append_stop hrun hstop rest
  have hlength : 2 ≤ (content ++ ['?']).length := by
    have hpos := List.length_pos_iff.mpr hsome
    rw [List.length_append, List.length_singleton]
    omega
  have hstep := @Step.instruction (content ++ ['?'] ++ '>' :: rest) names
    (by rw [htake, List.getLast?_concat]) (by rw [htake]; exact hlength)
  rw [htake, hdrop, List.dropLast_concat] at hstep
  have hsplit : "<?".toList ++ (content ++ '?' :: '>' :: rest) =
      '<' :: '?' :: (content ++ ['?'] ++ '>' :: rest) := by
    simp
  rw [hsplit]
  exact hstep

/-- A text is joined to the run of text behind it. -/
theorem step_of_text_append {content : List Char} (hsome : content ≠ []) (h : '<' ∉ content)
    (names : List (List Char)) (tail : List Char) :
    Step ⟨content ++ tail, names⟩ (.text (content ++ tail.takeWhile isText))
      ⟨tail.dropWhile isText, names⟩ := by
  obtain ⟨first, more, rfl⟩ := List.exists_cons_of_ne_nil hsome
  rw [List.mem_cons, not_or] at h
  have hmore : ∀ c ∈ more, isText c = true := by
    intro c hmem
    exact decide_eq_true fun heq => h.2 (heq ▸ hmem)
  have hstep := @Step.text first (more ++ tail) names (Ne.symm h.1)
  rwa [List.takeWhile_append_of_pos hmore, List.dropWhile_append_of_pos hmore] at hstep

end Reader

/-- **A text before another one leaves the references in it alone.** -/
theorem resolve_append {before raw content : List Char} (hbefore : '&' ∉ before)
    (h : resolve raw = .ok content) : resolve (before ++ raw) = .ok (before ++ content) := by
  rw [resolve_eq_ok_iff] at h ⊢
  induction before with
  | nil => exact h
  | cons c before ih =>
    rw [List.mem_cons, not_or] at hbefore
    exact Resolves.plain (Ne.symm hbefore.1) (ih hbefore.2)

/-! ## Events with the same tags -/

/-- Events that have the tokens of others up to text. -/
def SameTags (events events' : List Event) : Prop :=
  ∀ depth tokens, eventTokens depth events = .ok tokens →
    ∃ tokens', eventTokens depth events' = .ok tokens' ∧ Token.tags tokens' = Token.tags tokens

theorem SameTags.refl (events : List Event) : SameTags events events :=
  fun _ tokens h => ⟨tokens, h, rfl⟩

/-- An event that stays at its depth and has no tags may come before others. -/
theorem SameTags.cons_quiet {event : Event} (hdepth : ∀ depth, event.depthAfter depth = depth)
    (htokens : ∀ depth, ∃ tokens, event.tokens depth = .ok tokens ∧ Token.tags tokens = [])
    (events : List Event) : SameTags events (event :: events) := by
  intro depth tokens h
  obtain ⟨first, hfirst, htags⟩ := htokens depth
  refine ⟨first ++ tokens, eventTokens_cons_eq_ok_iff.mpr ⟨first, tokens, hfirst, ?_, rfl⟩, ?_⟩
  · rwa [hdepth]
  · rw [Token.tags_append, htags, List.nil_append]

/-- Text has no tags. -/
theorem tags_of_text {raw : List Char} {depth : Nat} {tokens : List Token}
    (h : (Event.text raw).tokens depth = .ok tokens) : Token.tags tokens = [] := by
  rcases Event.tokens_cases h with ⟨tag, attributes, heq, -⟩ | ⟨tag, attributes, heq, -⟩ |
    ⟨name, heq, -⟩ | ⟨-, -, rfl | ⟨-, content, rfl⟩⟩
  · cases heq
  · cases heq
  · cases heq
  · rfl
  · rfl

/-- Where a text is resolved, so is the text with another one before it. -/
theorem exists_tokens_text_append {before raw : List Char} {depth : Nat} {tokens : List Token}
    (hbefore : '&' ∉ before) (h : (Event.text raw).tokens depth = .ok tokens) :
    ∃ tokens', (Event.text (before ++ raw)).tokens depth = .ok tokens' := by
  rw [Event.tokens] at h ⊢
  split
  · exact ⟨[], rfl⟩
  · next hdepth =>
    rw [if_neg hdepth] at h
    rcases hraw : resolve raw with fault | content
    · rw [hraw] at h
      cases h
    · rw [resolve_append hbefore hraw]
      exact ⟨_, rfl⟩

/-- A text may be joined to another one that comes before the events. -/
theorem SameTags.text_append {before : List Char} (hbefore : '&' ∉ before) (raw : List Char)
    (events : List Event) : SameTags (.text raw :: events) (.text (before ++ raw) :: events) := by
  intro depth tokens h
  obtain ⟨first, rest, hfirst, hrest, rfl⟩ := eventTokens_cons_eq_ok_iff.mp h
  obtain ⟨first', hfirst'⟩ := exists_tokens_text_append hbefore hfirst
  refine ⟨first' ++ rest, eventTokens_cons_eq_ok_iff.mpr ⟨first', rest, hfirst', hrest, rfl⟩, ?_⟩
  rw [Token.tags_append, Token.tags_append, tags_of_text hfirst,
    tags_of_text hfirst']

/-- A text without references may come before the events. -/
theorem SameTags.text {content : List Char} (hcontent : '&' ∉ content) (events : List Event) :
    SameTags events (.text content :: events) := by
  refine SameTags.cons_quiet (fun _ => rfl) (fun depth => ?_) events
  have hnil : (Event.text []).tokens depth = .ok [] := by
    have hresolve : resolve [] = .ok [] := resolve_eq_ok_iff.mpr Resolves.nil
    rw [Event.tokens, hresolve]
    split <;> rfl
  obtain ⟨tokens, htokens⟩ := exists_tokens_text_append hcontent hnil
  rw [List.append_nil] at htokens
  exact ⟨tokens, htokens, tags_of_text htokens⟩

/-! ## How a text is read before which something is put -/

theorem exists_transcript_of_step {reader rest : Reader} {event : Event}
    (hstep : Reader.Step reader event rest) (hsame : ∀ events, SameTags events (event :: events)) :
    ∃ events, reader.transcript = ⟨events, rest.transcript.ending⟩ ∧
      SameTags rest.transcript.events events :=
  ⟨_, Reader.transcript_of_some (Reader.next_of_step hstep), hsame _⟩

/-- Text is read by itself before markup, and together with text. -/
theorem exists_transcript_of_text {content : List Char} (hmarkup : '<' ∉ content)
    (hreference : '&' ∉ content) (names : List (List Char)) (tail : List Char) :
    ∃ events, (Reader.mk (content ++ tail) names).transcript =
        ⟨events, (Reader.mk tail names).transcript.ending⟩ ∧
      SameTags (Reader.mk tail names).transcript.events events := by
  by_cases hsome : content = []
  · subst hsome
    exact ⟨_, rfl, SameTags.refl _⟩
  have hstep := Reader.step_of_text_append hsome hmarkup names tail
  by_cases htail : ∃ c more, tail = c :: more ∧ c ≠ '<'
  · obtain ⟨c, more, rfl, hc⟩ := htail
    have hafter := Reader.transcript_of_some (Reader.next_text hc more names)
    have hinner : Reader.isText c = true := decide_eq_true hc
    rw [List.takeWhile_cons_of_pos hinner, List.dropWhile_cons_of_pos hinner] at hstep
    refine ⟨.text (content ++ c :: more.takeWhile Reader.isText) ::
      (Reader.mk (more.dropWhile Reader.isText) names).transcript.events, ?_, ?_⟩
    · rw [Reader.transcript_of_some (Reader.next_of_step hstep), hafter]
    · rw [hafter]
      exact SameTags.text_append hreference _ _
  · have hstop : tail.takeWhile Reader.isText = [] ∧ tail.dropWhile Reader.isText = tail := by
      rcases tail with _ | ⟨c, more⟩
      · exact ⟨rfl, rfl⟩
      · have hc : c = '<' := by
          by_contra hne
          exact htail ⟨c, more, rfl, hne⟩
        subst hc
        exact ⟨rfl, rfl⟩
    rw [hstop.1, hstop.2, List.append_nil] at hstep
    exact exists_transcript_of_step hstep fun events => SameTags.text hreference events

/-- **What is put before a text is read by itself or as text, and the rest as it is read.** -/
theorem exists_transcript_of_inert {inserted : List Char} (h : Inert inserted)
    (names : List (List Char)) (tail : List Char) :
    ∃ events, (Reader.mk (inserted ++ tail) names).transcript =
        ⟨events, (Reader.mk tail names).transcript.ending⟩ ∧
      SameTags (Reader.mk tail names).transcript.events events := by
  cases h with
  | comment h =>
    rw [List.append_assoc, List.append_assoc]
    refine exists_transcript_of_step (Reader.step_of_comment h names tail) fun events => ?_
    exact SameTags.cons_quiet (fun _ => rfl) (fun _ => ⟨[], rfl, rfl⟩) events
  | instruction hsome h =>
    rw [List.append_assoc, List.append_assoc]
    refine exists_transcript_of_step (Reader.step_of_instruction hsome h names tail)
      fun events => ?_
    exact SameTags.cons_quiet (fun _ => rfl) (fun _ => ⟨[], rfl, rfl⟩) events
  | cdata h =>
    rw [List.append_assoc, List.append_assoc]
    refine exists_transcript_of_step (Reader.step_of_cdata h names tail) fun events => ?_
    refine SameTags.cons_quiet (fun _ => rfl) (fun depth => ⟨_, rfl, ?_⟩) events
    split <;> rfl
  | text hmarkup hreference => exact exists_transcript_of_text hmarkup hreference names tail

/-- **Where something is put into a document, the tree is the same without its text.** -/
theorem exists_parse_of_inert {limits : Limits} {before inserted after : String} {root : Element}
    (hplace : BehindMarkup before.toList after.toList) (hinert : Inert inserted.toList)
    (hsize : (before ++ inserted ++ after).utf8ByteSize ≤ limits.size)
    (h : Element.parse limits (before ++ after) = .ok root) :
    ∃ root', Element.parse limits (before ++ inserted ++ after) = .ok root' ∧
      root'.bare = root.bare := by
  obtain ⟨events, names, hreads⟩ := reads_of_behindMarkup hplace
  obtain ⟨rest, hrest, hsame⟩ := exists_transcript_of_inert hinert names after.toList
  have hwithout : Transcript.ofText (before ++ after) =
      ⟨events ++ (Reader.mk after.toList names).transcript.events,
        (Reader.mk after.toList names).transcript.ending⟩ := by
    rw [Transcript.ofText, String.toList_append, (hreads after.toList).transcript]
  have hwith : Transcript.ofText (before ++ inserted ++ after) =
      ⟨events ++ rest, (Reader.mk after.toList names).transcript.ending⟩ := by
    rw [Transcript.ofText, String.toList_append, String.toList_append, List.append_assoc,
      (hreads (inserted.toList ++ after.toList)).transcript, hrest]
  obtain ⟨-, hending, htokens, -⟩ := Element.parse_eq_ok_iff.mp h
  rw [hwithout] at hending
  rw [Transcript.tokens, hwithout] at htokens
  obtain ⟨passed, left, hpassed, hleft, htags⟩ := eventTokens_append_eq_ok_iff.mp htokens
  obtain ⟨left', hleft', hsametags⟩ := hsame _ _ hleft
  have hending' : (Transcript.ofText (before ++ inserted ++ after)).ending = none := by
    rw [hwith]
    exact hending
  have htokens' : (Transcript.ofText (before ++ inserted ++ after)).tokens =
      .ok (passed ++ left') := by
    rw [Transcript.tokens, hwith]
    exact eventTokens_append_eq_ok_iff.mpr ⟨passed, left', hpassed, hleft', rfl⟩
  refine exists_parse_of_tags h hsize hending' htokens' ?_
  rw [htags, Token.tags_append, Token.tags_append, hsametags]

end Xml

namespace Schema

open Xml

namespace Settings

variable {settings : Settings}

/-! ## The definitions -/

/-- The sketch of a tree has no text. -/
theorem sketch_bare (depth : Nat) (element : Element) :
    settings.sketch depth element.bare = settings.sketch depth element := by
  induction hleft : 8 - depth generalizing depth element with
  | zero =>
    refine sketch_congr rfl rfl fun hread => absurd (Or.inl ?_) hread
    omega
  | succ left ih =>
    refine sketch_congr rfl rfl fun _ => ?_
    rw [Element.elements_bare, List.filter_map, List.map_map]
    refine List.map_congr_left fun child _ => ?_
    exact ih (depth + 1) child (by omega)

/-- **The definitions of a description are those of it without its text.** -/
theorem definitions_bare (root : Element) :
    settings.definitions root.bare = settings.definitions root :=
  definitions_eq_of_sketch (sketch_bare 1 root)

/-- **What is not an element has no part in the definitions.**  A comment, a processing instruction,
a character data section or a text without markup and references is put into a text, directly
behind the `>` of any piece of its markup.  If the text has definitions, or its schema is malformed,
or a type in it is unknown, then the same holds of the longer text, with the same definitions or the
same fault, provided that it is not too long. -/
theorem definitionsOfText_insert (settings : Settings) (before inserted after : String)
    (hplace : BehindMarkup before.toList after.toList) (hinert : Inert inserted.toList)
    (hfault : ∀ fault, settings.definitionsOfText (before ++ after) = .error fault →
      fault.diagnostic.isMalformedSchema = true ∨ fault.diagnostic.isUnknownType = true)
    (hsize : (before ++ inserted ++ after).utf8ByteSize ≤ settings.limits.size) :
    settings.definitionsOfText (before ++ inserted ++ after) =
      settings.definitionsOfText (before ++ after) := by
  rcases hparse : Element.parse settings.limits (before ++ after) with fault | root
  · -- the text is a document, as its only faults are those of a schema
    exfalso
    have houtcome : settings.definitionsOfText (before ++ after) = .error fault := by
      rw [definitionsOfText, hparse]
      rfl
    rcases xml_or_limit_of_parse_eq_error hparse with ⟨defect, rfl⟩ | ⟨excess, rfl⟩
    · rcases hfault _ houtcome with h | h <;> cases h
    · rcases hfault _ houtcome with h | h <;> cases h
  · obtain ⟨root', hparse', hbare⟩ := exists_parse_of_inert hplace hinert hsize hparse
    rw [definitionsOfText, definitionsOfText, hparse, hparse']
    show settings.definitions root' = settings.definitions root
    rw [← definitions_bare root', hbare, definitions_bare]

/-- A comment that begins with `>` is put before types without a schema. -/
theorem definitionsOfText_insert_comment :
    ({} : Settings).definitionsOfText ("<d>" ++ "<!-->->-->" ++ "<types/></d>") =
      .error (.missingElement "xsd:schema" ⟨[⟨"d", none⟩, ⟨"types", none⟩]⟩) := by
  have hplace : BehindMarkup "<d>".toList "<types/></d>".toList := by
    refine ⟨by decide, [], .startTag ⟨['d'], []⟩, [['d']], rfl, ?_⟩
    have hstep : Reader.Step ⟨"<d><types/></d>".toList, []⟩ (.startTag ⟨['d'], []⟩)
        ⟨"<types/></d>".toList, [['d']]⟩ := Reader.next_eq_some_iff.mp (by decide)
    exact Reader.Reads.step hstep (Reader.Reads.refl _)
  have hinert : Inert "<!-->->-->".toList := @Inert.comment ['>', '-', '>'] (by decide)
  have hwithout : ({} : Settings).definitionsOfText ("<d>" ++ "<types/></d>") =
      .error (.missingElement "xsd:schema" ⟨[⟨"d", none⟩, ⟨"types", none⟩]⟩) := by
    have hparse : Element.parse .standard ("<d>" ++ "<types/></d>") =
        .ok ⟨"d", ∅, [.element "types" ∅ []]⟩ := by
      rw [Element.parse_eq_ok_iff]
      refine ⟨by decide, by decide +kernel, by decide +kernel, ?_⟩
      exact ⟨by decide, by decide, ⟨by decide, by decide, trivial⟩, trivial⟩
    rw [definitionsOfText, show ({} : Settings).limits = .standard from rfl, hparse]
    rfl
  have hfault : ∀ fault, ({} : Settings).definitionsOfText ("<d>" ++ "<types/></d>") =
      .error fault →
        fault.diagnostic.isMalformedSchema = true ∨ fault.diagnostic.isUnknownType = true := by
    intro fault h
    obtain rfl := Except.error.inj (hwithout.symm.trans h)
    exact Or.inl rfl
  rw [definitionsOfText_insert {} _ _ _ hplace hinert hfault (by decide), hwithout]

end Settings
end Schema
end ServiceTypes
