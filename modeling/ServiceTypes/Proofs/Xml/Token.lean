import ServiceTypes.Proofs.Outcome
import ServiceTypes.Xml.Builder

/-!
# A tree in document order

A tree is flattened into the tokens that a walk through it meets: an element opens, has its
children, and closes, and a run of text is met once.  The events of a document are flattened into
tokens as well, without any tree: a tag that is an element by itself counts as two tokens, text
outside the root and layout count as none, and neither does markup that has no part in the tree.
That the two sequences are the same is what it means that an event sequence describes a tree.

* `Node.tokens`, `Node.forestTokens`: the tokens of a tree and of a list of trees.
* `Event.tokens`, `eventTokens`: the tokens of an event that comes at some depth, and of a
  sequence of events.  They do not exist when the attributes of a tag cannot be read, or when a
  reference in a text inside the root cannot be resolved.
* `Nested`: tokens that are well nested where some elements are already open, which are given by
  name.
* `Node.Within`, `TokensWithin`: a tree, and a sequence of tokens, in which no element is too deep
  and none has too many attributes; `tokensWithin_tokens` ties the two together.
-/

namespace ServiceTypes
namespace Xml

open Text

/-- What a walk through a tree meets. -/
inductive Token where
  /-- An element opens. -/
  | opening (name : String) (attributes : Attributes)
  /-- A run of text. -/
  | text (content : String)
  /-- The element of that name closes. -/
  | closing (name : String)
  deriving DecidableEq

/-! ## The tokens of a tree -/

mutual

/-- The tokens of a node. -/
def Node.tokens : Node → List Token
  | .element name attributes children =>
    .opening name attributes :: (Node.forestTokens children ++ [.closing name])
  | .text content => [.text content]

/-- The tokens of a list of nodes. -/
def Node.forestTokens : List Node → List Token
  | [] => []
  | child :: children => Node.tokens child ++ Node.forestTokens children

end

@[simp] theorem Node.forestTokens_nil : Node.forestTokens [] = [] := by
  rw [Node.forestTokens]

@[simp] theorem Node.forestTokens_cons (child : Node) (children : List Node) :
    Node.forestTokens (child :: children) = child.tokens ++ Node.forestTokens children := by
  rw [Node.forestTokens]

@[simp] theorem Node.forestTokens_append (first second : List Node) :
    Node.forestTokens (first ++ second) =
      Node.forestTokens first ++ Node.forestTokens second := by
  induction first with
  | nil => simp
  | cons child first ih => simp [ih]

/-- The tokens of an element. -/
def Element.tokens (element : Element) : List Token :=
  element.toNode.tokens

theorem Element.tokens_eq (element : Element) :
    element.tokens = .opening element.name element.attributes ::
      (Node.forestTokens element.children ++ [.closing element.name]) := by
  rw [Element.tokens, Element.toNode, Node.tokens]

/-! ## The tokens of events -/

/-- The tag that an event is, if it is one that brings an element. -/
def Event.tag? : Event → Option Tag
  | .startTag tag => some tag
  | .emptyTag tag => some tag
  | _ => none

/-- How many elements are open after an event. -/
def Event.depthAfter (depth : Nat) : Event → Nat
  | .startTag _ => depth + 1
  | .endTag _ => depth - 1
  | _ => depth

/-- The tokens of an event that comes when `depth` elements are open. -/
def Event.tokens (depth : Nat) : Event → Except Fault (List Token)
  | .startTag tag =>
    tag.attributes.map fun attributes => [.opening (String.ofList tag.name) attributes]
  | .emptyTag tag =>
    tag.attributes.map fun attributes =>
      [.opening (String.ofList tag.name) attributes, .closing (String.ofList tag.name)]
  | .endTag name => .ok [.closing (String.ofList name)]
  | .text raw =>
    if depth = 0 then .ok []
    else
      match resolve raw with
      | .error fault => .error (.xml (.text fault))
      | .ok content => .ok (if allBlank content then [] else [.text (String.ofList content)])
  | .cdata content => .ok (if depth = 0 then [] else [.text (String.ofList content)])
  | .comment _ => .ok []
  | .instruction _ => .ok []
  | .doctype _ => .ok []

/-- What the tokens of an event can be.  An event that is no tag stays at its depth, and comes to
one run of text inside the root or to nothing. -/
theorem Event.tokens_cases {depth : Nat} {event : Event} {tokens : List Token}
    (h : event.tokens depth = .ok tokens) :
    (∃ tag attributes, event = .startTag tag ∧ tag.attributes = .ok attributes ∧
      tokens = [.opening (String.ofList tag.name) attributes]) ∨
    (∃ tag attributes, event = .emptyTag tag ∧ tag.attributes = .ok attributes ∧
      tokens = [.opening (String.ofList tag.name) attributes, .closing (String.ofList tag.name)]) ∨
    (∃ name, event = .endTag name ∧ tokens = [.closing (String.ofList name)]) ∨
    (event.tag? = none ∧ event.depthAfter depth = depth ∧
      (tokens = [] ∨ depth ≠ 0 ∧ ∃ content, tokens = [.text content])) := by
  cases event with
  | startTag tag =>
    obtain ⟨attributes, hattributes, rfl⟩ := map_eq_ok_iff.mp h
    exact Or.inl ⟨tag, attributes, rfl, hattributes, rfl⟩
  | emptyTag tag =>
    obtain ⟨attributes, hattributes, rfl⟩ := map_eq_ok_iff.mp h
    exact Or.inr (Or.inl ⟨tag, attributes, rfl, hattributes, rfl⟩)
  | endTag name =>
    obtain rfl := Except.ok.inj h
    exact Or.inr (Or.inr (Or.inl ⟨name, rfl, rfl⟩))
  | text raw =>
    refine Or.inr (Or.inr (Or.inr ⟨rfl, rfl, ?_⟩))
    rw [Event.tokens] at h
    split at h
    · obtain rfl := Except.ok.inj h
      exact Or.inl rfl
    · next hdepth =>
      split at h
      · cases h
      · obtain rfl := Except.ok.inj h
        split
        · exact Or.inl rfl
        · exact Or.inr ⟨hdepth, _, rfl⟩
  | cdata content =>
    refine Or.inr (Or.inr (Or.inr ⟨rfl, rfl, ?_⟩))
    obtain rfl := Except.ok.inj h
    split
    · exact Or.inl rfl
    · next hdepth => exact Or.inr ⟨hdepth, _, rfl⟩
  | _ => exact Or.inr (Or.inr (Or.inr ⟨rfl, rfl, Or.inl (Except.ok.inj h).symm⟩))

/-- The tokens of a sequence of events, of which the first comes when `depth` elements are open. -/
def eventTokens (depth : Nat) : List Event → Except Fault (List Token)
  | [] => .ok []
  | event :: events =>
    match event.tokens depth with
    | .error fault => .error fault
    | .ok first => (eventTokens (event.depthAfter depth) events).map (first ++ ·)

@[simp] theorem eventTokens_nil (depth : Nat) : eventTokens depth [] = .ok [] := rfl

theorem eventTokens_cons_eq_ok_iff {depth : Nat} {event : Event} {events : List Event}
    {tokens : List Token} :
    eventTokens depth (event :: events) = .ok tokens ↔
      ∃ first rest, event.tokens depth = .ok first ∧
        eventTokens (event.depthAfter depth) events = .ok rest ∧ tokens = first ++ rest := by
  rw [eventTokens]
  cases event.tokens depth with
  | error fault => simp
  | ok first =>
    cases eventTokens (event.depthAfter depth) events with
    | error fault => simp [Except.map]
    | ok rest => simp [Except.map, eq_comm]

/-- How many elements are open behind a sequence of events. -/
def depthAfterEvents (depth : Nat) (events : List Event) : Nat :=
  events.foldl Event.depthAfter depth

theorem eventTokens_append_eq_ok_iff {depth : Nat} {first second : List Event}
    {tokens : List Token} :
    eventTokens depth (first ++ second) = .ok tokens ↔
      ∃ before after, eventTokens depth first = .ok before ∧
        eventTokens (depthAfterEvents depth first) second = .ok after ∧
        tokens = before ++ after := by
  induction first generalizing depth tokens with
  | nil =>
    constructor
    · intro h
      exact ⟨[], tokens, rfl, h, rfl⟩
    · rintro ⟨before, after, hbefore, hafter, rfl⟩
      obtain rfl := Except.ok.inj hbefore
      exact hafter
  | cons event first ih =>
    rw [List.cons_append, eventTokens_cons_eq_ok_iff]
    constructor
    · rintro ⟨found, rest, hfound, hrest, rfl⟩
      obtain ⟨before, after, hbefore, hafter, rfl⟩ := ih.mp hrest
      exact ⟨found ++ before, after,
        eventTokens_cons_eq_ok_iff.mpr ⟨found, before, hfound, hbefore, rfl⟩, hafter,
        (List.append_assoc ..).symm⟩
    · rintro ⟨before, after, hbefore, hafter, rfl⟩
      obtain ⟨found, rest, hfound, hrest, rfl⟩ := eventTokens_cons_eq_ok_iff.mp hbefore
      exact ⟨found, rest ++ after, hfound, ih.mpr ⟨rest, after, hrest, hafter, rfl⟩,
        List.append_assoc ..⟩

/-! ## Nesting -/

/-- Tokens that are well nested where the elements `names` are open, innermost first: text stands
inside an element, and what closes is the innermost open element. -/
def Nested (names : List String) : List Token → Prop
  | [] => True
  | .opening name _ :: tokens => Nested (name :: names) tokens
  | .text _ :: tokens => names ≠ [] ∧ Nested names tokens
  | .closing name :: tokens => names.head? = some name ∧ Nested names.tail tokens

/-! ## Keeping within limits -/

/-- How many elements are open after a token. -/
def Token.depthAfter (depth : Nat) : Token → Nat
  | .opening _ _ => depth + 1
  | .text _ => depth
  | .closing _ => depth - 1

/-- Tokens that open no element too deep and none with too many attributes, where `depth` elements
are open already. -/
def TokensWithin (limits : Limits) (depth : Nat) : List Token → Prop
  | [] => True
  | token :: tokens =>
    (∀ name attributes, token = .opening name attributes →
      depth + 1 ≤ limits.depth ∧ attributes.size ≤ limits.attributes) ∧
    TokensWithin limits (token.depthAfter depth) tokens

mutual

/-- A node at some depth, the root being at depth one, in which no element is too deep and none
has too many attributes. -/
def Node.Within (limits : Limits) (depth : Nat) : Node → Prop
  | .element _ attributes children =>
    depth ≤ limits.depth ∧ attributes.size ≤ limits.attributes ∧
      Node.ForestWithin limits (depth + 1) children
  | .text _ => True

/-- Nodes side by side at some depth that are all within limits. -/
def Node.ForestWithin (limits : Limits) (depth : Nat) : List Node → Prop
  | [] => True
  | child :: children => Node.Within limits depth child ∧ Node.ForestWithin limits depth children

end

/-- A tree in which no element is too deep and none has too many attributes. -/
def Element.Within (limits : Limits) (root : Element) : Prop :=
  root.toNode.Within limits 1

/-- How deep the walk is after some tokens. -/
def depthAfterTokens (depth : Nat) (tokens : List Token) : Nat :=
  tokens.foldl (fun depth token => token.depthAfter depth) depth

/-- The tokens of a tag keep within the limits when what the tag opens does. -/
theorem tokensWithin_of_opening {limits : Limits} {depth : Nat} {name : String}
    {attributes : Attributes} {rest : List Token}
    (hrest : TokensWithin limits (depth + 1) rest) :
    TokensWithin limits depth (.opening name attributes :: rest) ↔
      depth + 1 ≤ limits.depth ∧ attributes.size ≤ limits.attributes := by
  rw [TokensWithin]
  constructor
  · rintro ⟨h, -⟩
    exact h name attributes rfl
  · intro h
    refine ⟨?_, hrest⟩
    rintro name' attributes' heq
    obtain ⟨-, rfl⟩ := Token.opening.inj heq
    exact h

theorem tokensWithin_nil (limits : Limits) (depth : Nat) : TokensWithin limits depth [] :=
  trivial

theorem tokensWithin_closing (limits : Limits) (depth : Nat) (name : String) :
    TokensWithin limits depth [.closing name] := by
  refine ⟨?_, trivial⟩
  intro name attributes heq
  cases heq

theorem tokensWithin_text (limits : Limits) (depth : Nat) (content : String) :
    TokensWithin limits depth [.text content] := by
  refine ⟨?_, trivial⟩
  intro name attributes heq
  cases heq

theorem tokensWithin_append {limits : Limits} {depth : Nat} {first second : List Token} :
    TokensWithin limits depth (first ++ second) ↔
      TokensWithin limits depth first ∧
        TokensWithin limits (depthAfterTokens depth first) second := by
  induction first generalizing depth with
  | nil => simp [TokensWithin, depthAfterTokens]
  | cons token first ih =>
    rw [List.cons_append, TokensWithin, TokensWithin, ih, and_assoc]
    rfl

theorem depthAfterTokens_append (depth : Nat) (first second : List Token) :
    depthAfterTokens depth (first ++ second) =
      depthAfterTokens (depthAfterTokens depth first) second :=
  List.foldl_append

mutual

/-- A walk through a node ends as deep as it began. -/
theorem depthAfterTokens_tokens (depth : Nat) :
    ∀ node : Node, depthAfterTokens depth node.tokens = depth
  | .text content => by rw [Node.tokens]; rfl
  | .element name attributes children => by
    rw [Node.tokens, ← List.singleton_append, depthAfterTokens_append, depthAfterTokens_append]
    have hopen : depthAfterTokens depth [.opening name attributes] = depth + 1 := rfl
    rw [hopen, depthAfterTokens_forestTokens (depth + 1) children]
    rfl

theorem depthAfterTokens_forestTokens (depth : Nat) :
    ∀ nodes : List Node, depthAfterTokens depth (Node.forestTokens nodes) = depth
  | [] => by rw [Node.forestTokens_nil]; rfl
  | child :: children => by
    rw [Node.forestTokens_cons, depthAfterTokens_append, depthAfterTokens_tokens depth child,
      depthAfterTokens_forestTokens depth children]

end

mutual

/-- The tokens of a node keep within the limits when the node does. -/
theorem tokensWithin_tokens {limits : Limits} (depth : Nat) :
    ∀ node : Node, TokensWithin limits depth node.tokens ↔ node.Within limits (depth + 1)
  | .text content => by
    rw [Node.tokens, Node.Within, TokensWithin, TokensWithin]
    simp
  | .element name attributes children => by
    rw [Node.tokens, Node.Within, TokensWithin, tokensWithin_append]
    have hforest : TokensWithin limits (depth + 1) (Node.forestTokens children) ↔
        Node.ForestWithin limits (depth + 2) children :=
      tokensWithin_forestTokens (depth + 1) children
    have hopen : (Token.opening name attributes).depthAfter depth = depth + 1 := rfl
    rw [hopen, hforest, TokensWithin, TokensWithin]
    simp [and_assoc]

theorem tokensWithin_forestTokens {limits : Limits} (depth : Nat) :
    ∀ nodes : List Node,
      TokensWithin limits depth (Node.forestTokens nodes) ↔
        Node.ForestWithin limits (depth + 1) nodes
  | [] => by
    rw [Node.forestTokens_nil, TokensWithin, Node.ForestWithin]
  | child :: children => by
    rw [Node.forestTokens_cons, tokensWithin_append, depthAfterTokens_tokens depth child,
      tokensWithin_tokens depth child, tokensWithin_forestTokens depth children, Node.ForestWithin]

end

end Xml
end ServiceTypes
