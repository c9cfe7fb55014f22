import ServiceTypes.Proofs.Xml.Acceptance
import ServiceTypes.Proofs.Xml.TagReading

/-!
# Reading what was written

A document that was written as some tree, in whatever of the many ways there are, is read as that
tree.  The proof follows the writing: `Yields` says that a reader gets from one place to another
and what tokens it meets on the way, every way to write a node has its step, and the steps for a
list of nodes and for what is inside an element are put together by an induction on `Spells`.

* `Reader.Yields`: the tokens between two places of a reading.
* `step_of_*`: the step that is taken over one written piece.
* `yields_of_spells`: nodes that are written inside an element yield their tokens.
* `parse_of_spelledBy`: a written document is read as its tree, exactly when the limits allow it.

An element is entered at any depth, so the steps over a whole element serve both for the root and
inside it; text counts only inside, which is why the induction asks for an open element.
-/

namespace ServiceTypes
namespace Xml

open Text

namespace Reader

/-! ## From one place to another -/

/-- A reader gets from one place to another, and what it reads on the way has these tokens. -/
inductive Yields : Reader → List Token → Reader → Prop
  | refl (reader : Reader) : Yields reader [] reader
  | step {reader between rest : Reader} {event : Event} {first more : List Token}
    (hstep : Step reader event between)
    (hfirst : event.tokens reader.openNames.length = .ok first)
    (hmore : Yields between more rest) : Yields reader (first ++ more) rest

theorem Yields.single {reader rest : Reader} {event : Event} {tokens : List Token}
    (hstep : Step reader event rest)
    (htokens : event.tokens reader.openNames.length = .ok tokens) : Yields reader tokens rest := by
  have h := Yields.step hstep htokens (Yields.refl rest)
  rwa [List.append_nil] at h

theorem Yields.trans {reader between rest : Reader} {first more : List Token}
    (hfirst : Yields reader first between) (hmore : Yields between more rest) :
    Yields reader (first ++ more) rest := by
  induction hfirst with
  | refl => exact hmore
  | step hstep htokens _ ih =>
    rw [List.append_assoc]
    exact Yields.step hstep htokens (ih hmore)

/-- A reader that gets to the end of the text has read it all, and its tokens are those on the
way. -/
theorem Yields.transcript {reader rest : Reader} {tokens : List Token}
    (h : Yields reader tokens rest) (hrest : rest.next = .ok none) :
    reader.transcript.ending = none ∧
      eventTokens reader.openNames.length reader.transcript.events = .ok tokens := by
  induction h with
  | refl reader =>
    rw [transcript_of_none hrest]
    exact ⟨rfl, rfl⟩
  | step hstep hfirst _ ih =>
    obtain ⟨hending, htokens⟩ := ih hrest
    rw [transcript_of_some (next_of_step hstep)]
    rw [length_openNames_of_step hstep] at htokens
    exact ⟨hending, eventTokens_cons_eq_ok_iff.mpr ⟨_, _, hfirst, htokens, rfl⟩⟩

/-! ## The steps over written pieces -/

section Pieces

variable {name : String} {attributes : Attributes} {tail : List Char}

/-- A tag is scanned to the `>` that ends it. -/
theorem foldlM_unquoted_content (hname : IsName name)
    (hattributes : AttributesSpelling attributes.entries tail) :
    (name.toList ++ tail).foldlM unquoted none = some none := by
  rw [List.foldlM_append, foldlM_unquoted_name hname]
  exact foldlM_unquoted_of_spelling hattributes

/-- A name does not end in a slash, and attributes do not either. -/
theorem getLast?_content (hname : IsName name)
    (hattributes : AttributesSpelling attributes.entries tail) :
    (name.toList ++ tail).getLast? ≠ some '/' := by
  intro hlast
  have hmem := List.mem_of_getLast? (getLast?_of_spelling hattributes _ hlast)
  obtain ⟨-, -, -, hslash, -⟩ := isNameChar_spec (hname.2 _ hmem)
  exact hslash rfl

theorem step_of_startTag (hname : IsName name)
    (hattributes : AttributesSpelling attributes.entries tail) (names : List (List Char))
    (rest : List Char) :
    Step ⟨'<' :: (name.toList ++ (tail ++ '>' :: rest)), names⟩ (.startTag ⟨name.toList, tail⟩)
      ⟨rest, name.toList :: names⟩ := by
  obtain ⟨first, more, hcons, hfirst, -⟩ := hname.cases
  obtain ⟨-, -, -, hslash, hbang, hquestion, -⟩ := isNameChar_spec hfirst
  have hcut := cut_append_of_foldlM (foldlM_unquoted_content hname hattributes)
    (show unquoted none '>' = none by decide) rest
  have hlast := getLast?_content hname hattributes
  have htag := Tag.ofContent_of_spelling hname hattributes
  rw [← List.append_assoc]
  rw [hcons, List.cons_append] at hcut hlast htag ⊢
  have hstep := @Step.startTag first _ _ rest names hslash hbang hquestion hcut hlast
  rwa [htag] at hstep

theorem step_of_emptyTag (hname : IsName name)
    (hattributes : AttributesSpelling attributes.entries tail) (names : List (List Char))
    (rest : List Char) :
    Step ⟨'<' :: (name.toList ++ (tail ++ '/' :: '>' :: rest)), names⟩
      (.emptyTag ⟨name.toList, tail⟩) ⟨rest, names⟩ := by
  obtain ⟨first, more, hcons, hfirst, -⟩ := hname.cases
  obtain ⟨-, -, -, hslash, hbang, hquestion, -⟩ := isNameChar_spec hfirst
  have hpass : (name.toList ++ tail ++ ['/']).foldlM unquoted none = some none := by
    rw [List.foldlM_append, foldlM_unquoted_content hname hattributes]
    rfl
  have hcut := cut_append_of_foldlM hpass (show unquoted none '>' = none by decide) rest
  have htag := Tag.ofContent_of_spelling hname hattributes
  have hsplit : name.toList ++ (tail ++ '/' :: '>' :: rest) =
      name.toList ++ tail ++ ['/'] ++ '>' :: rest := by
    simp
  rw [hsplit]
  rw [hcons, List.cons_append] at hcut htag ⊢
  have hstep := @Step.emptyTag first _ _ rest names hslash hbang hquestion hcut
    List.getLast?_concat
  rwa [List.dropLast_concat, htag] at hstep

/-- A name has no white space at its end. -/
theorem endName_of_isName (hname : IsName name) : endName name.toList = name.toList :=
  endName_of_not_isWhitespace fun _ hmem => (isNameChar_spec (hname.2 _ hmem)).1

theorem step_of_endTag (hname : IsName name) (names : List (List Char)) (rest : List Char) :
    Step ⟨'<' :: '/' :: (name.toList ++ '>' :: rest), name.toList :: names⟩
      (.endTag name.toList) ⟨rest, names⟩ := by
  have hinner : ∀ c ∈ name.toList, isInner c = true := by
    intro c hmem
    obtain ⟨-, -, hend, -⟩ := isNameChar_spec (hname.2 c hmem)
    simp [isInner, hend]
  have hstop : isInner '>' = false := by decide
  have hname' : endName ((name.toList ++ '>' :: rest).takeWhile isInner) = name.toList := by
    rw [takeWhile_append_stop hinner hstop, endName_of_isName hname]
  have hstep := @Step.endTag (name.toList ++ '>' :: rest) _ names hname'
  rwa [dropWhile_append_stop hinner hstop] at hstep

end Pieces

/-- Text runs to the markup behind it. -/
theorem step_of_text {written : List Char} (hwritten : written ≠ []) (hout : '<' ∉ written)
    (names : List (List Char)) (rest : List Char) :
    Step ⟨written ++ '<' :: rest, names⟩ (.text written) ⟨'<' :: rest, names⟩ := by
  obtain ⟨first, more, rfl⟩ := List.exists_cons_of_ne_nil hwritten
  rw [List.mem_cons, not_or] at hout
  have hmore : ∀ c ∈ more, isText c = true := by
    intro c hmem
    exact decide_eq_true fun heq => hout.2 (heq ▸ hmem)
  have hstop : isText '<' = false := by decide
  have hstep := @Step.text first (more ++ '<' :: rest) names (Ne.symm hout.1)
  rwa [takeWhile_append_stop hmore hstop, dropWhile_append_stop hmore hstop] at hstep

/-- A section runs to its own end when its content has none. -/
theorem step_of_cdata {content : List Char} (hcontent : ¬ [']', ']', '>'] <:+: content)
    (names : List (List Char)) (rest : List Char) :
    Step ⟨"<![CDATA[".toList ++ (content ++ ']' :: ']' :: '>' :: rest), names⟩ (.cdata content)
      ⟨rest, names⟩ := by
  have hcut := @cut_afterRun ']' "CDATA[".toList content (by decide) (by decide) hcontent rest
  have hdrop : ("CDATA[".toList ++ (content ++ [']', ']'])).drop 6 = content ++ [']', ']'] := rfl
  have hlast : (content ++ [']', ']']).dropLast.dropLast = content := by
    simp
  have hstep := @Step.cdata _ _ rest names hcut rfl
  rw [hdrop, hlast] at hstep
  exact hstep

/-! ## The tokens of written nodes -/

theorem yields_startTag {name : String} {attributes : Attributes} {tail : List Char}
    (hname : IsName name) (hattributes : AttributesSpelling attributes.entries tail)
    (names : List (List Char)) (rest : List Char) :
    Yields ⟨'<' :: (name.toList ++ (tail ++ '>' :: rest)), names⟩ [.opening name attributes]
      ⟨rest, name.toList :: names⟩ := by
  refine Yields.single (step_of_startTag hname hattributes names rest) ?_
  rw [Event.tokens, Tag.attributes_of_spelling hattributes, String.ofList_toList]
  rfl

theorem yields_endTag {name : String} (hname : IsName name) (names : List (List Char))
    (rest : List Char) :
    Yields ⟨'<' :: '/' :: (name.toList ++ '>' :: rest), name.toList :: names⟩ [.closing name]
      ⟨rest, names⟩ := by
  refine Yields.single (step_of_endTag hname names rest) ?_
  rw [Event.tokens, String.ofList_toList]

/-- An element that is written as one tag. -/
theorem yields_empty {name : String} {attributes : Attributes} {tail : List Char}
    (hname : IsName name) (hattributes : AttributesSpelling attributes.entries tail)
    (names : List (List Char)) (rest : List Char) :
    Yields ⟨'<' :: (name.toList ++ (tail ++ '/' :: '>' :: rest)), names⟩
      (Node.tokens (.element name attributes [])) ⟨rest, names⟩ := by
  refine Yields.single (step_of_emptyTag hname hattributes names rest) ?_
  rw [Event.tokens, Tag.attributes_of_spelling hattributes, String.ofList_toList, Node.tokens,
    Node.forestTokens_nil]
  rfl

/-- An element that is written as two tags, when what stands between them yields the tokens of its
children. -/
theorem yields_paired {name : String} {attributes : Attributes} {children : List Node}
    {tail inner : List Char} (hname : IsName name)
    (hattributes : AttributesSpelling attributes.entries tail) {names : List (List Char)}
    {rest : List Char}
    (hchildren : Yields
      ⟨inner ++ '<' :: '/' :: (name.toList ++ '>' :: rest), name.toList :: names⟩
      (Node.forestTokens children)
      ⟨'<' :: '/' :: (name.toList ++ '>' :: rest), name.toList :: names⟩) :
    Yields ⟨'<' :: (name.toList ++ (tail ++ '>' :: (inner ++
        '<' :: '/' :: (name.toList ++ '>' :: rest)))), names⟩
      (Node.tokens (.element name attributes children)) ⟨rest, names⟩ := by
  have hopen := yields_startTag hname hattributes names
    (inner ++ '<' :: '/' :: (name.toList ++ '>' :: rest))
  rw [Node.tokens, ← List.singleton_append]
  exact hopen.trans (hchildren.trans (yields_endTag hname names rest))

/-- A character is written as something. -/
theorem ne_nil_of_spelling {reserved : List Char} {text written : List Char} (hsome : text ≠ [])
    (h : TextSpelling reserved text written) : written ≠ [] := by
  cases h with
  | nil => exact absurd rfl hsome
  | cons hc _ => cases hc <;> exact List.cons_ne_nil _ _

/-- Text inside an element, up to the markup behind it. -/
theorem yields_plain {content : String} {written : List Char}
    (hblank : allBlank content.toList = false)
    (hcontent : TextSpelling ['&', '<'] content.toList written) {names : List (List Char)}
    (hnames : names ≠ []) (rest : List Char) :
    Yields ⟨written ++ '<' :: rest, names⟩ [.text content] ⟨'<' :: rest, names⟩ := by
  have hsome : content.toList ≠ [] := by
    intro hnil
    rw [hnil] at hblank
    cases hblank
  have hout : '<' ∉ written := not_mem_of_spelling (by simp) (by simp) hcontent
  refine Yields.single (step_of_text (ne_nil_of_spelling hsome hcontent) hout names rest) ?_
  have hdepth : names.length ≠ 0 := fun hzero => hnames (List.eq_nil_of_length_eq_zero hzero)
  rw [Event.tokens, if_neg hdepth, resolve_of_spelling (by simp) hcontent]
  dsimp only
  rw [hblank, String.ofList_toList]
  rfl

/-- A section inside an element. -/
theorem yields_cdata {content : String} (hcontent : ¬ [']', ']', '>'] <:+: content.toList)
    {names : List (List Char)} (hnames : names ≠ []) (rest : List Char) :
    Yields ⟨"<![CDATA[".toList ++ (content.toList ++ ']' :: ']' :: '>' :: rest), names⟩
      [.text content] ⟨rest, names⟩ := by
  refine Yields.single (step_of_cdata hcontent names rest) ?_
  have hdepth : names.length ≠ 0 := fun hzero => hnames (List.eq_nil_of_length_eq_zero hzero)
  rw [Event.tokens, if_neg hdepth, String.ofList_toList]

/-- What is written directly behind plain text is markup, or nothing. -/
theorem head_of_spells {nodes : List Node} {text : List Char} (h : Spells true nodes text) :
    text = [] ∨ ∃ rest, text = '<' :: rest := by
  generalize hplain : true = plain at h
  cases h with
  | nil => exact Or.inl rfl
  | plain => cases hplain
  | cdata => exact Or.inr ⟨_, rfl⟩
  | _ => exact Or.inr ⟨_, rfl⟩

/-- **Nodes that are written inside an element yield their tokens**, up to the markup behind
them. -/
theorem yields_of_spells {plain : Bool} {nodes : List Node} {text : List Char}
    (h : Spells plain nodes text) {names : List (List Char)} (hnames : names ≠ [])
    (rest : List Char) :
    Yields ⟨text ++ '<' :: rest, names⟩ (Node.forestTokens nodes) ⟨'<' :: rest, names⟩ := by
  induction h generalizing names rest with
  | nil =>
    rw [Node.forestTokens_nil]
    exact Yields.refl _
  | @empty _ _ _ _ _ more hname hattributes _ ih =>
    have hfirst := yields_empty hname hattributes names (more ++ '<' :: rest)
    have hall := hfirst.trans (ih hnames rest)
    rw [Node.forestTokens_cons]
    simpa using hall
  | @paired _ name _ _ _ _ _ more hname hattributes _ _ ihchildren ihsiblings =>
    have hfirst := yields_paired hname hattributes
      (ihchildren (List.cons_ne_nil _ names)
        ('/' :: (name.toList ++ '>' :: (more ++ '<' :: rest))))
    have hall := hfirst.trans (ihsiblings hnames rest)
    rw [Node.forestTokens_cons]
    simpa using hall
  | @plain content siblings written more hblank hcontent hsiblings ih =>
    rw [Node.forestTokens_cons, Node.tokens, List.append_assoc]
    rcases head_of_spells hsiblings with rfl | ⟨after, rfl⟩
    · exact (yields_plain hblank hcontent hnames rest).trans (ih hnames rest)
    · exact (yields_plain hblank hcontent hnames (after ++ '<' :: rest)).trans (ih hnames rest)
  | @cdata _ _ _ more hcontent _ ih =>
    have hfirst := yields_cdata hcontent hnames (more ++ '<' :: rest)
    have hall := hfirst.trans (ih hnames rest)
    rw [Node.forestTokens_cons, Node.tokens]
    simpa using hall

/-- A written document yields the tokens of its root, and nothing is left of it. -/
theorem yields_of_spelledBy {root : Element} {text : List Char} (h : root.SpelledBy text) :
    Yields ⟨text, []⟩ root.tokens ⟨[], []⟩ := by
  obtain ⟨name, attributes, children⟩ := root
  rw [Element.SpelledBy, Element.toNode] at h
  rw [Element.tokens, Element.toNode]
  cases h with
  | empty hname hattributes hsiblings =>
    cases hsiblings
    exact yields_empty hname hattributes [] []
  | paired hname hattributes hchildren hsiblings =>
    cases hsiblings
    exact yields_paired hname hattributes
      (yields_of_spells hchildren (List.cons_ne_nil _ []) _)

end Reader

/-! ## Documents -/

/-- A written document starts with its root, so nothing is taken off it. -/
theorem withoutMark_of_spelledBy {root : Element} {text : List Char} (h : root.SpelledBy text) :
    withoutMark text = text := by
  obtain ⟨name, attributes, children⟩ := root
  rw [Element.SpelledBy, Element.toNode] at h
  cases h <;> rfl

/-- **Reading undoes writing.**  However the document of a tree is written, it is read as that
tree, under all limits that the size of the text and the depth and the attributes of the tree keep
to, and under no others. -/
theorem parse_of_spelledBy {root : Element} {text : String} (h : root.SpelledBy text.toList)
    (limits : Limits) :
    Element.parse limits text = .ok root ↔
      text.utf8ByteSize ≤ limits.size ∧ root.Within limits := by
  obtain ⟨hending, htokens⟩ :=
    (Reader.yields_of_spelledBy h).transcript (show (Reader.mk [] []).next = .ok none from rfl)
  have htranscript : Transcript.ofText text = (Reader.mk text.toList []).transcript := by
    rw [Transcript.ofText, withoutMark_of_spelledBy h]
  rw [Element.parse_eq_ok_iff, htranscript]
  constructor
  · rintro ⟨hsize, -, -, hwithin⟩
    exact ⟨hsize, hwithin⟩
  · rintro ⟨hsize, hwithin⟩
    exact ⟨hsize, hending, htokens, hwithin⟩

/-- An attribute, text with a reference, an empty tag, and a section that ends in brackets. -/
theorem parse_of_spelledBy_mixed :
    Element.SpelledBy
        ⟨"a", ⟨[("k", ">")], by decide⟩, [.text "b?", .element "c" ∅ [], .text "]]"]⟩
        "<a k='&gt;'>b&#x3F;<c/><![CDATA[]]]]></a>".toList ∧
      Element.parse .strict "<a k='&gt;'>b&#x3F;<c/><![CDATA[]]]]></a>" =
        .ok ⟨"a", ⟨[("k", ">")], by decide⟩, [.text "b?", .element "c" ∅ [], .text "]]"]⟩ := by
  have hvalue : TextSpelling ['&', '\x27'] ">".toList "&gt;".toList :=
    @TextSpelling.cons _ '>' [] "&gt;".toList [] (@CharSpelling.named _ '>' ['g', 't'] rfl)
      TextSpelling.nil
  have hkey : AttributesSpelling [("k", ">")] " k='&gt;'".toList :=
    @AttributesSpelling.cons "k" ">" [] [' '] "&gt;".toList [] '\x27' (by decide) (by decide)
      (List.all_eq_true.mp (by decide)) (Or.inr rfl) hvalue AttributesSpelling.nil
  have htext : TextSpelling ['&', '<'] "b?".toList "b&#x3F;".toList :=
    TextSpelling.cons (CharSpelling.literal (by decide))
      (TextSpelling.cons
        (@CharSpelling.numbered _ '?' .hexadecimal ['3', 'F'] (by decide) (by rfl))
        TextSpelling.nil)
  have hchildren : Spells false [.text "b?", .element "c" ∅ [], .text "]]"]
      "b&#x3F;<c/><![CDATA[]]]]>".toList :=
    Spells.plain (by decide) htext
      (@Spells.empty true "c" ∅ _ [] "<![CDATA[]]]]>".toList (by decide)
        AttributesSpelling.nil (Spells.cdata (by decide) Spells.nil))
  have h : Element.SpelledBy
      ⟨"a", ⟨[("k", ">")], by decide⟩, [.text "b?", .element "c" ∅ [], .text "]]"]⟩
      "<a k='&gt;'>b&#x3F;<c/><![CDATA[]]]]></a>".toList :=
    @Spells.paired false "a" ⟨[("k", ">")], by decide⟩ _ [] " k='&gt;'".toList
      "b&#x3F;<c/><![CDATA[]]]]>".toList [] (by decide) hkey hchildren Spells.nil
  have hwithin : Element.Within .strict
      ⟨"a", ⟨[("k", ">")], by decide⟩, [.text "b?", .element "c" ∅ [], .text "]]"]⟩ :=
    ⟨by decide, by decide, trivial, ⟨by decide, by decide, trivial⟩, trivial, trivial⟩
  exact ⟨h, (parse_of_spelledBy h .strict).mpr ⟨by decide, hwithin⟩⟩
end Xml
end ServiceTypes
