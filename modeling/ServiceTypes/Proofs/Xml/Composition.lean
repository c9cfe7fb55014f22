import ServiceTypes.Proofs.Xml.Acceptance

/-!
# Which events make up an element

The tree of a document has its elements in the order of their tags, and each is made up of its tag
and of what stands between that and its end tag.  `Composes` says what a stretch of events makes
up, without a builder: markup without a part in the tree and layout make up nothing, text and
character data sections a run of text each, and tags an element.

* `composes_of_tokens`: events whose tokens are those of nodes, up to an end tag, make up these.
* `contentAt`, `tagged`: the tags of a sequence of events, each with its content.
* `Element.preorder`: the elements of a tree in document order.
* `makes_of_parse`: tag by tag, the elements of a document are made up of their tags and contents.
-/

namespace ServiceTypes
namespace Xml

open Text

/-- Whether an event has no part in the tree, wherever it stands. -/
def Event.isAside : Event → Bool
  | .comment _ => true
  | .instruction _ => true
  | .doctype _ => true
  | _ => false

/-- Whether an event is an end tag. -/
def Event.isEndTag : Event → Bool
  | .endTag _ => true
  | _ => false

/-- A stretch of events inside an element, and the nodes side by side that it makes up. -/
inductive Composes : List Event → List Node → Prop
  | nil : Composes [] []
  | aside {event : Event} {events : List Event} {nodes : List Node}
    (haside : event.isAside = true) (hevents : Composes events nodes) :
    Composes (event :: events) nodes
  /-- A run of text that is blank once resolved. -/
  | layout {raw content : List Char} {events : List Event} {nodes : List Node}
    (hresolve : resolve raw = .ok content) (hblank : allBlank content = true)
    (hevents : Composes events nodes) : Composes (.text raw :: events) nodes
  /-- Any other run of text. -/
  | text {raw content : List Char} {events : List Event} {nodes : List Node}
    (hresolve : resolve raw = .ok content) (hblank : allBlank content = false)
    (hevents : Composes events nodes) :
    Composes (.text raw :: events) (.text (String.ofList content) :: nodes)
  | cdata {content : List Char} {events : List Event} {nodes : List Node}
    (hevents : Composes events nodes) :
    Composes (.cdata content :: events) (.text (String.ofList content) :: nodes)
  /-- An element that is one tag. -/
  | empty {tag : Tag} {attributes : Attributes} {events : List Event} {nodes : List Node}
    (hattributes : tag.attributes = .ok attributes) (hevents : Composes events nodes) :
    Composes (.emptyTag tag :: events) (.element (String.ofList tag.name) attributes [] :: nodes)
  /-- An element that is two tags with its content between them. -/
  | paired {tag : Tag} {attributes : Attributes} {inner events : List Event}
    {children nodes : List Node} (hattributes : tag.attributes = .ok attributes)
    (hinner : Composes inner children) (hevents : Composes events nodes) :
    Composes (.startTag tag :: (inner ++ .endTag tag.name :: events))
      (.element (String.ofList tag.name) attributes children :: nodes)

/-! ## Nodes by their tokens -/

section Inversion

variable {nodes : List Node} {name found : String} {rest after : List Token}

theorem exists_of_forestTokens_opening {attributes : Attributes}
    (h : Node.forestTokens nodes ++ .closing name :: rest = .opening found attributes :: after) :
    ∃ children siblings, nodes = .element found attributes children :: siblings ∧
      after = Node.forestTokens children ++
        .closing found :: (Node.forestTokens siblings ++ .closing name :: rest) := by
  rcases nodes with _ | ⟨_ | _, siblings⟩
  · simp at h
  · next name' attributes' children =>
    rw [Node.forestTokens_cons, Node.tokens] at h
    injection h with hopening hrest
    obtain ⟨rfl, rfl⟩ := Token.opening.inj hopening
    refine ⟨children, siblings, rfl, ?_⟩
    rw [← hrest]
    simp
  · simp [Node.tokens] at h

theorem exists_of_forestTokens_text {content : String}
    (h : Node.forestTokens nodes ++ .closing name :: rest = .text content :: after) :
    ∃ siblings, nodes = .text content :: siblings ∧
      after = Node.forestTokens siblings ++ .closing name :: rest := by
  rcases nodes with _ | ⟨_ | _, siblings⟩
  · simp at h
  · simp [Node.tokens] at h
  · next content' =>
    rw [Node.forestTokens_cons, Node.tokens] at h
    injection h with htext hrest
    obtain rfl := Token.text.inj htext
    exact ⟨siblings, rfl, hrest.symm⟩

theorem eq_of_forestTokens_closing
    (h : Node.forestTokens nodes ++ .closing name :: rest = .closing found :: after) :
    nodes = [] ∧ found = name ∧ after = rest := by
  rcases nodes with _ | ⟨_ | _, siblings⟩
  · obtain ⟨hclosing, hrest⟩ := List.cons.inj h
    exact ⟨rfl, (Token.closing.inj hclosing).symm, hrest.symm⟩
  · simp [Node.tokens] at h
  · simp [Node.tokens] at h

end Inversion

/-- **Events whose tokens are those of nodes make up these nodes**, up to the end tag that closes
the element around them. -/
theorem composes_of_tokens {depth : Nat} (hdepth : depth ≠ 0) {events : List Event}
    {nodes : List Node} {name : String} {rest : List Token}
    (h : eventTokens depth events = .ok (Node.forestTokens nodes ++ .closing name :: rest)) :
    ∃ inner later, events = inner ++ .endTag name.toList :: later ∧ Composes inner nodes ∧
      eventTokens (depth - 1) later = .ok rest := by
  induction hlength : events.length using Nat.strongRecOn
    generalizing depth events nodes name rest with
  | ind length ih =>
  rcases events with _ | ⟨event, more⟩
  · have hnil := Except.ok.inj h
    simp at hnil
  obtain ⟨first, after, hfirst, hmore, hall⟩ := eventTokens_cons_eq_ok_iff.mp h
  rw [List.length_cons] at hlength
  -- an event that is no tag leaves the rest to the nodes that are left
  have hquiet : ∀ {left : List Node},
      (∀ inner, Composes inner left → Composes (event :: inner) nodes) →
      event.depthAfter depth = depth →
      after = Node.forestTokens left ++ .closing name :: rest →
      ∃ inner later, event :: more = inner ++ .endTag name.toList :: later ∧
        Composes inner nodes ∧ eventTokens (depth - 1) later = .ok rest := by
    intro left hstep hsame hafter
    rw [hsame, hafter] at hmore
    obtain ⟨inner, later, rfl, hinner, hlater⟩ := ih more.length (by omega) hdepth hmore rfl
    exact ⟨event :: inner, later, rfl, hstep inner hinner, hlater⟩
  cases event with
  | startTag tag =>
    obtain ⟨attributes, hattributes, rfl⟩ := map_eq_ok_iff.mp hfirst
    obtain ⟨children, siblings, rfl, rfl⟩ := exists_of_forestTokens_opening hall
    obtain ⟨inner, between, rfl, hinner, hbetween⟩ :=
      ih more.length (by omega) (Nat.succ_ne_zero depth) hmore rfl
    rw [List.length_append, List.length_cons] at hlength
    obtain ⟨outer, later, rfl, houter, hlater⟩ :=
      ih between.length (by omega) hdepth hbetween rfl
    refine ⟨.startTag tag :: (inner ++ .endTag tag.name :: outer), later, ?_,
      Composes.paired hattributes hinner houter, hlater⟩
    rw [String.toList_ofList]
    simp
  | emptyTag tag =>
    obtain ⟨attributes, hattributes, rfl⟩ := map_eq_ok_iff.mp hfirst
    obtain ⟨children, siblings, rfl, hafter⟩ := exists_of_forestTokens_opening hall
    obtain ⟨rfl, -, rfl⟩ := eq_of_forestTokens_closing hafter.symm
    exact hquiet (fun _ hinner => Composes.empty hattributes hinner) rfl rfl
  | endTag closed =>
    obtain rfl := Except.ok.inj hfirst
    obtain ⟨rfl, rfl, rfl⟩ := eq_of_forestTokens_closing hall
    refine ⟨[], more, ?_, Composes.nil, hmore⟩
    rw [String.toList_ofList]
    rfl
  | text raw =>
    rw [Event.tokens, if_neg hdepth] at hfirst
    split at hfirst
    · cases hfirst
    · next content hcontent =>
      obtain rfl := Except.ok.inj hfirst
      by_cases hblank : allBlank content = true
      · rw [if_pos hblank] at hall
        exact hquiet (fun _ hinner => Composes.layout hcontent hblank hinner) rfl hall.symm
      · rw [if_neg hblank] at hall
        obtain ⟨siblings, rfl, hafter⟩ := exists_of_forestTokens_text hall
        exact hquiet (fun _ hinner => Composes.text hcontent (Bool.eq_false_iff.mpr hblank) hinner)
          rfl hafter
  | cdata content =>
    obtain rfl := Except.ok.inj hfirst
    rw [if_neg hdepth] at hall
    obtain ⟨siblings, rfl, hafter⟩ := exists_of_forestTokens_text hall
    exact hquiet (fun _ hinner => Composes.cdata hinner) rfl hafter
  | comment content =>
    obtain rfl := Except.ok.inj hfirst
    exact hquiet (fun _ hinner => Composes.aside rfl hinner) rfl hall.symm
  | instruction content =>
    obtain rfl := Except.ok.inj hfirst
    exact hquiet (fun _ hinner => Composes.aside rfl hinner) rfl hall.symm
  | doctype content =>
    obtain rfl := Except.ok.inj hfirst
    exact hquiet (fun _ hinner => Composes.aside rfl hinner) rfl hall.symm

/-! ## Tags with their contents -/

/-- The events up to the end tag of an element in which `depth` elements are open. -/
def contentAt (depth : Nat) : List Event → List Event
  | [] => []
  | event :: events =>
    if depth = 0 ∧ event.isEndTag = true then []
    else event :: contentAt (event.depthAfter depth) events

/-- The tag that an event is, with its content out of the events behind it. -/
def Event.part? (later : List Event) : Event → Option (Tag × List Event)
  | .startTag tag => some (tag, contentAt 0 later)
  | .emptyTag tag => some (tag, [])
  | _ => none

/-- The tags that bring an element, in order, each with its content. -/
def tagged : List Event → List (Tag × List Event)
  | [] => []
  | event :: events => (event.part? events).toList ++ tagged events

theorem tagged_cons {event : Event} (h : event.tag? = none) (events : List Event) :
    tagged (event :: events) = tagged events := by
  cases event <;> first | rfl | cases h

theorem map_fst_tagged (events : List Event) :
    (tagged events).map Prod.fst = events.filterMap Event.tag? := by
  induction events with
  | nil => rfl
  | cons event events ih =>
    rw [tagged, List.map_append, ih, List.filterMap_cons]
    cases event <;> rfl

theorem contentAt_cons {event : Event} (h : event.isEndTag = false) (depth : Nat)
    (events : List Event) :
    contentAt depth (event :: events) = event :: contentAt (event.depthAfter depth) events := by
  rw [contentAt, if_neg]
  rintro ⟨-, hend⟩
  rw [h] at hend
  cases hend

theorem contentAt_subset (depth : Nat) (events : List Event) :
    contentAt depth events ⊆ events := by
  induction events generalizing depth with
  | nil => exact List.Subset.refl _
  | cons event events ih =>
    rw [contentAt]
    split
    · exact List.nil_subset _
    · exact List.cons_subset_cons event (ih _)

/-- The content of a tag is part of the events that the tag is from. -/
theorem mem_of_mem_tagged {events : List Event} {part : Tag × List Event}
    (h : part ∈ tagged events) {event : Event} (hevent : event ∈ part.2) : event ∈ events := by
  induction events with
  | nil => cases h
  | cons first events ih =>
    rcases List.mem_append.mp h with h | h
    · refine List.mem_cons_of_mem _ ?_
      cases first with
      | startTag tag =>
        obtain rfl := Option.some.inj (Option.mem_toList.mp h)
        exact contentAt_subset 0 events hevent
      | emptyTag tag =>
        obtain rfl := Option.some.inj (Option.mem_toList.mp h)
        cases hevent
      | _ => cases h
    · exact List.mem_cons_of_mem _ (ih h)

/-- What makes up nodes closes all that it opens, and nothing else. -/
theorem contentAt_of_composes {events : List Event} {nodes : List Node} (h : Composes events nodes)
    (depth : Nat) (tail : List Event) :
    contentAt depth (events ++ tail) = events ++ contentAt depth tail := by
  induction h generalizing depth tail with
  | nil => rfl
  | @aside event events _ haside _ ih =>
    have hend : event.isEndTag = false ∧ event.depthAfter depth = depth := by
      cases event with
      | comment | instruction | doctype => exact ⟨rfl, rfl⟩
      | _ => cases haside
    rw [List.cons_append, contentAt_cons hend.1, hend.2, ih, List.cons_append]
  | layout _ _ _ ih => exact (contentAt_cons rfl ..).trans (congrArg _ (ih depth tail))
  | text _ _ _ ih => exact (contentAt_cons rfl ..).trans (congrArg _ (ih depth tail))
  | cdata _ ih => exact (contentAt_cons rfl ..).trans (congrArg _ (ih depth tail))
  | empty _ _ ih => exact (contentAt_cons rfl ..).trans (congrArg _ (ih depth tail))
  | @paired tag _ inner events _ _ _ _ _ ihinner ih =>
    -- the end tag is met with one element open, which it closes
    have hend : contentAt (depth + 1) (.endTag tag.name :: (events ++ tail)) =
        .endTag tag.name :: (events ++ contentAt depth tail) := by
      rw [contentAt, if_neg fun hclosed => Nat.succ_ne_zero depth hclosed.1]
      exact congrArg _ (ih depth tail)
    have hsplit : .startTag tag :: (inner ++ .endTag tag.name :: events) ++ tail =
        Event.startTag tag :: (inner ++ (.endTag tag.name :: (events ++ tail))) := by simp
    have hstart : Event.depthAfter depth (.startTag tag) = depth + 1 := rfl
    rw [hsplit, contentAt_cons rfl, hstart, ihinner, hend]
    simp

/-! ## The elements of a tree -/

mutual

/-- The elements of a tree in document order. -/
def Node.preorder : Node → List Element
  | .element name attributes children =>
    ⟨name, attributes, children⟩ :: Node.forestPreorder children
  | .text _ => []

/-- The elements of trees side by side, in document order. -/
def Node.forestPreorder : List Node → List Element
  | [] => []
  | child :: children => Node.preorder child ++ Node.forestPreorder children

end

theorem Node.forestPreorder_text (content : String) (nodes : List Node) :
    Node.forestPreorder (.text content :: nodes) = Node.forestPreorder nodes := by
  rw [Node.forestPreorder, Node.preorder, List.nil_append]

theorem Node.forestPreorder_element (name : String) (attributes : Attributes)
    (children nodes : List Node) :
    Node.forestPreorder (.element name attributes children :: nodes) =
      ⟨name, attributes, children⟩ ::
        (Node.forestPreorder children ++ Node.forestPreorder nodes) := by
  rw [Node.forestPreorder, Node.preorder, List.cons_append]

/-- An element and all within it, in document order. -/
def Element.preorder (root : Element) : List Element :=
  root.toNode.preorder

theorem Element.preorder_eq (root : Element) :
    root.preorder = root :: Node.forestPreorder root.children := by
  rw [Element.preorder, Element.toNode, Node.preorder]

/-- An element that is made up of a tag and its content. -/
structure Makes (part : Tag × List Event) (element : Element) : Prop where
  name : element.name = String.ofList part.1.name
  attributes : part.1.attributes = .ok element.attributes
  children : Composes part.2 element.children

/-- Tag by tag, the elements within nodes are made up of their tags and contents. -/
theorem makes_of_composes {events : List Event} {nodes : List Node} (h : Composes events nodes) :
    ∃ parts, (∀ tail, tagged (events ++ tail) = parts ++ tagged tail) ∧
      List.Forall₂ Makes parts (Node.forestPreorder nodes) := by
  induction h with
  | nil =>
    refine ⟨[], fun _ => rfl, ?_⟩
    rw [Node.forestPreorder]
    exact List.Forall₂.nil
  | @aside event _ _ haside _ ih =>
    obtain ⟨parts, hparts, hmakes⟩ := ih
    refine ⟨parts, fun tail => ?_, hmakes⟩
    rw [← hparts tail]
    cases event with
    | comment | instruction | doctype => rfl
    | _ => cases haside
  | layout _ _ _ ih =>
    obtain ⟨parts, hparts, hmakes⟩ := ih
    exact ⟨parts, hparts, hmakes⟩
  | text _ _ _ ih =>
    obtain ⟨parts, hparts, hmakes⟩ := ih
    refine ⟨parts, hparts, ?_⟩
    rw [Node.forestPreorder_text]
    exact hmakes
  | cdata _ ih =>
    obtain ⟨parts, hparts, hmakes⟩ := ih
    refine ⟨parts, hparts, ?_⟩
    rw [Node.forestPreorder_text]
    exact hmakes
  | @empty tag attributes _ _ hattributes _ ih =>
    obtain ⟨parts, hparts, hmakes⟩ := ih
    refine ⟨(tag, []) :: parts, fun tail => congrArg _ (hparts tail), ?_⟩
    rw [Node.forestPreorder_element, Node.forestPreorder, List.nil_append]
    exact List.Forall₂.cons ⟨rfl, hattributes, Composes.nil⟩ hmakes
  | @paired tag attributes inner events _ _ hattributes hinner _ ihinner ih =>
    obtain ⟨within, hwithin, hchildren⟩ := ihinner
    obtain ⟨parts, hparts, hmakes⟩ := ih
    refine ⟨(tag, inner) :: (within ++ parts), fun tail => ?_, ?_⟩
    · have hsplit : .startTag tag :: (inner ++ .endTag tag.name :: events) ++ tail =
          Event.startTag tag :: (inner ++ (.endTag tag.name :: (events ++ tail))) := by simp
      have hcontent : contentAt 0 (inner ++ (.endTag tag.name :: (events ++ tail))) = inner := by
        rw [contentAt_of_composes hinner, contentAt, if_pos ⟨rfl, rfl⟩, List.append_nil]
      rw [hsplit, tagged, Event.part?, hcontent, hwithin, tagged, hparts]
      simp [Event.part?]
    · rw [Node.forestPreorder_element]
      exact List.Forall₂.cons ⟨rfl, hattributes, hinner⟩ (List.rel_append hchildren hmakes)

/-! ## The elements of a document -/

/-- Events that come to nothing bring no element. -/
theorem tagged_of_tokens_nil {depth : Nat} {events : List Event}
    (h : eventTokens depth events = .ok []) : tagged events = [] := by
  induction events generalizing depth with
  | nil => rfl
  | cons event events ih =>
    obtain ⟨first, rest, hfirst, hrest, hnil⟩ := eventTokens_cons_eq_ok_iff.mp h
    obtain ⟨rfl, rfl⟩ := List.append_eq_nil_iff.mp hnil.symm
    rcases Event.tokens_cases hfirst with ⟨_, _, _, _, hone⟩ | ⟨_, _, _, _, htwo⟩ | ⟨_, _, hone⟩ |
      ⟨htag, -⟩
    · cases hone
    · cases htwo
    · cases hone
    · rw [tagged_cons htag, ih hrest]

theorem makes_of_tokens {events : List Event} {root : Element}
    (h : eventTokens 0 events = .ok root.tokens) :
    List.Forall₂ Makes (tagged events) root.preorder := by
  obtain ⟨name, attributes, children⟩ := root
  rw [Element.tokens_eq] at h
  rw [Element.preorder_eq]
  induction events with
  | nil => cases Except.ok.inj h
  | cons event events ih =>
    obtain ⟨first, rest, hfirst, hrest, hall⟩ := eventTokens_cons_eq_ok_iff.mp h
    rcases Event.tokens_cases hfirst with ⟨tag, attributes', rfl, hattributes, rfl⟩ |
      ⟨tag, attributes', rfl, hattributes, rfl⟩ | ⟨closed, rfl, rfl⟩ |
      ⟨htag, hdepth, rfl | ⟨hinside, -⟩⟩
    · -- the start tag of the root
      obtain ⟨hopening, rfl⟩ := List.cons.inj hall
      obtain ⟨rfl, rfl⟩ := Token.opening.inj hopening
      obtain ⟨inner, later, rfl, hinner, hlater⟩ := composes_of_tokens (Nat.succ_ne_zero 0) hrest
      obtain ⟨parts, hparts, hmakes⟩ := makes_of_composes hinner
      have hcontent : contentAt 0 (inner ++ .endTag (String.ofList tag.name).toList :: later) =
          inner := by
        rw [contentAt_of_composes hinner, contentAt, if_pos ⟨rfl, rfl⟩, List.append_nil]
      rw [tagged, Event.part?, hcontent, hparts, tagged, tagged_of_tokens_nil hlater]
      simpa [Event.part?] using List.Forall₂.cons ⟨rfl, hattributes, hinner⟩ hmakes
    · -- the root is one tag
      obtain ⟨hopening, hafter⟩ := List.cons.inj hall
      obtain ⟨rfl, rfl⟩ := Token.opening.inj hopening
      obtain ⟨rfl, -, rfl⟩ := eq_of_forestTokens_closing hafter
      rw [tagged, tagged_of_tokens_nil hrest, List.append_nil, Node.forestPreorder]
      exact List.Forall₂.cons ⟨rfl, hattributes, Composes.nil⟩ List.Forall₂.nil
    · cases (List.cons.inj hall).1
    · rw [hdepth] at hrest
      rw [List.nil_append] at hall
      rw [← hall] at hrest
      rw [tagged_cons htag]
      exact ih hrest
    · exact absurd rfl hinside

/-- **Tag by tag, the elements of a document are made up of their tags and contents.** -/
theorem makes_of_parse {limits : Limits} {text : String} {root : Element}
    (h : Element.parse limits text = .ok root) :
    List.Forall₂ Makes (tagged (Transcript.ofText text).events) root.preorder :=
  makes_of_tokens (Element.parse_eq_ok_iff.mp h).2.2.1

end Xml
end ServiceTypes
