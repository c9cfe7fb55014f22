import ServiceTypes.Proofs.Xml.Acceptance

/-!
# A tree without its text

Text is a leaf, so a tree can be built up without it: where the runs of text are left out of the
tokens, the same elements come out with nothing else in them.  A builder that has taken in all
tokens and one that has taken in the tags alone go side by side, and what the second one holds is
always what the first one holds without its text.

* `Element.bare`: a tree without its text, and `Builder.bare`: the same of a half-built one.
* `Token.tags`: what is left of a sequence of tokens without its text.
* `map_bare_foldlM_accept`: the two builders go side by side.
* `exists_parse_of_tags`: a text that is read as the tags of a document, with whatever text between
  them, is a document with the same bare tree.
-/

namespace ServiceTypes
namespace Xml

/-! ## Trees and tokens -/

mutual

/-- A node without the text in it, which is nothing when the node is text itself. -/
def Node.bare : Node → List Node
  | .element name attributes children => [.element name attributes (Node.bareForest children)]
  | .text _ => []

/-- Nodes without the text among them and in them. -/
def Node.bareForest : List Node → List Node
  | [] => []
  | child :: children => Node.bare child ++ Node.bareForest children

end

@[simp] theorem Node.bareForest_nil : Node.bareForest [] = [] := by
  rw [Node.bareForest]

@[simp] theorem Node.bareForest_cons (child : Node) (children : List Node) :
    Node.bareForest (child :: children) = child.bare ++ Node.bareForest children := by
  rw [Node.bareForest]

@[simp] theorem Node.bare_text (content : String) : (Node.text content).bare = [] := by
  rw [Node.bare]

theorem Node.bareForest_append (first second : List Node) :
    Node.bareForest (first ++ second) = Node.bareForest first ++ Node.bareForest second := by
  induction first with
  | nil => simp
  | cons child first ih => simp [ih]

theorem Node.bareForest_reverse (nodes : List Node) :
    Node.bareForest nodes.reverse = (Node.bareForest nodes).reverse := by
  induction nodes with
  | nil => simp
  | cons child nodes ih =>
    have hone : child.bare.reverse = child.bare := by
      cases child <;> rw [Node.bare] <;> rfl
    rw [List.reverse_cons, Node.bareForest_append, ih, Node.bareForest_cons, Node.bareForest_nil,
      Node.bareForest_cons, List.append_nil, List.reverse_append, hone]

/-- An element without the text in it. -/
def Element.bare (element : Element) : Element :=
  ⟨element.name, element.attributes, Node.bareForest element.children⟩

theorem Element.bare_toNode (element : Element) : element.toNode.bare = [element.bare.toNode] := by
  rw [Element.toNode, Node.bare]
  rfl

/-- The elements in a bare tree are the bare elements of the tree. -/
theorem Element.elements_bare (element : Element) :
    element.bare.elements = element.elements.map Element.bare := by
  unfold Element.elements Element.bare
  dsimp only
  induction element.children with
  | nil => simp
  | cons child children ih =>
    cases child with
    | element name attributes inner =>
      rw [Node.bareForest_cons, Node.bare, List.singleton_append]
      exact congrArg (Element.mk name attributes (Node.bareForest inner) :: ·) ih
    | text content =>
      rw [Node.bareForest_cons, Node.bare_text, List.nil_append, ih]
      rfl

/-- Whether a token opens or closes an element. -/
def Token.isTag : Token → Bool
  | .opening _ _ => true
  | .text _ => false
  | .closing _ => true

/-- The tokens that open and close elements. -/
def Token.tags (tokens : List Token) : List Token :=
  tokens.filter Token.isTag

@[simp] theorem Token.tags_append (first second : List Token) :
    Token.tags (first ++ second) = Token.tags first ++ Token.tags second :=
  List.filter_append ..

/-- Text is never too deep, and has no attributes. -/
theorem tokensWithin_tags {limits : Limits} {depth : Nat} {tokens : List Token} :
    TokensWithin limits depth (Token.tags tokens) ↔ TokensWithin limits depth tokens := by
  induction tokens generalizing depth with
  | nil => exact Iff.rfl
  | cons token tokens ih =>
    cases token with
    | text content =>
      have htext := @tokensWithin_append limits depth [.text content] tokens
      rw [show Token.tags (.text content :: tokens) = Token.tags tokens from rfl, ih,
        ← List.singleton_append, htext]
      exact ⟨fun h => ⟨tokensWithin_text limits depth content, h⟩, fun h => h.2⟩
    | opening name attributes => exact and_congr_right fun _ => ih
    | closing name => exact and_congr_right fun _ => ih

/-! ## Builders -/

/-- An open element without the text in it. -/
def OpenElement.bare (element : OpenElement) : OpenElement :=
  ⟨element.name, element.attributes, Node.bareForest element.children⟩

theorem OpenElement.bare_close (element : OpenElement) :
    element.close.bare = element.bare.close := by
  rw [OpenElement.close, Element.bare, Node.bareForest_reverse]
  rfl

theorem OpenElement.bare_add_text (element : OpenElement) (content : String) :
    (element.add (.text content)).bare = element.bare := by
  rw [OpenElement.add, OpenElement.bare, Node.bareForest_cons, Node.bare_text]
  rfl

theorem OpenElement.bare_add (element : OpenElement) (child : Element) :
    (element.add child.toNode).bare = element.bare.add child.bare.toNode := by
  rw [OpenElement.add, OpenElement.bare, Node.bareForest_cons, Element.bare_toNode]
  rfl

namespace Builder

/-- A half-built tree without its text. -/
def bare (builder : Builder) : Builder where
  stack := builder.stack.map OpenElement.bare
  depth := builder.depth
  root := builder.root.map Element.bare
  depth_eq := by rw [List.length_map, builder.depth_eq]

theorem bare_push (builder : Builder) (element : OpenElement) :
    (builder.push element).bare = builder.bare.push element.bare := rfl

theorem bare_addChild_text (builder : Builder) (content : String) :
    (builder.addChild (.text content)).bare = builder.bare := by
  rcases hstack : builder.stack with _ | ⟨element, outer⟩
  · rw [addChild_of_nil hstack]
  · obtain ⟨before, rfl, -⟩ := eq_push_of_stack_eq_cons hstack
    rw [addChild_push, bare_push, bare_push, OpenElement.bare_add_text]

/-- A bare element is attached like the element. -/
theorem map_bare_attach (builder : Builder) (element : Element) :
    (builder.attach element).map bare = builder.bare.attach element.bare := by
  rcases hstack : builder.stack with _ | ⟨inner, outer⟩
  · obtain ⟨stack, depth, root, hdepth⟩ := builder
    obtain rfl : stack = [] := hstack
    cases root <;> rfl
  · obtain ⟨before, rfl, -⟩ := eq_push_of_stack_eq_cons hstack
    rw [attach_push, bare_push, attach_push, ← OpenElement.bare_add]
    rfl

theorem map_bare_closeElement (builder : Builder) :
    builder.closeElement.map bare = builder.bare.closeElement := by
  rcases hstack : builder.stack with _ | ⟨element, outer⟩
  · obtain ⟨stack, depth, root, hdepth⟩ := builder
    obtain rfl : stack = [] := hstack
    rfl
  · obtain ⟨before, rfl, -⟩ := eq_push_of_stack_eq_cons hstack
    rw [closeElement_push, bare_push, closeElement_push, map_bare_attach, OpenElement.bare_close]

/-- A tag does to a half-built tree without its text what it does to the tree. -/
theorem map_bare_accept (builder : Builder) {token : Token} (h : token.isTag = true) :
    (builder.accept token).map bare = builder.bare.accept token := by
  cases token with
  | opening name attributes => rfl
  | text content => cases h
  | closing name => exact map_bare_closeElement builder

/-- **Building goes on side by side with and without text.** -/
theorem map_bare_foldlM_accept (builder : Builder) (tokens : List Token) :
    (tokens.foldlM accept builder).map bare = (Token.tags tokens).foldlM accept builder.bare := by
  induction tokens generalizing builder with
  | nil => rfl
  | cons token tokens ih =>
    by_cases htag : token.isTag = true
    · have hfirst := map_bare_accept builder htag
      rw [Token.tags, List.filter_cons_of_pos htag, List.foldlM_cons, List.foldlM_cons, ← hfirst]
      rcases builder.accept token with fault | after
      · rfl
      · exact ih after
    · obtain ⟨content, rfl⟩ : ∃ content, token = .text content := by
        cases token with
        | text content => exact ⟨content, rfl⟩
        | _ => exact absurd rfl htag
      rw [Token.tags, List.filter_cons_of_neg htag, ← bare_addChild_text builder content]
      exact ih (builder.addChild (.text content))

end Builder

/-! ## Documents -/

/-- Well-nested tokens with the tags of a tree are those of a tree that is the same without text. -/
theorem exists_tokens_of_tags {tokens : List Token} {root : Element} (hnested : Nested [] tokens)
    (htags : Token.tags tokens = Token.tags root.tokens) :
    ∃ root' : Element, tokens = root'.tokens ∧ root'.bare = root.bare := by
  have hroot := Builder.map_bare_foldlM_accept {} root.tokens
  have hattach : ({} : Builder).attach root = .ok { root := some root } := rfl
  rw [Builder.foldlM_accept_tokens, hattach, ← htags, ← Builder.map_bare_foldlM_accept] at hroot
  obtain ⟨builder, hrun, hbare⟩ := map_eq_ok_iff.mp hroot.symm
  have hstack : builder.stack = [] := List.map_eq_nil_iff.mp (congrArg Builder.stack hbare)
  obtain ⟨root', hroot', hsame⟩ := Option.map_eq_some_iff.mp (congrArg Builder.root hbare)
  have hfinish := Builder.finish_eq_ok_iff.mpr ⟨hstack, hroot'⟩
  exact ⟨root', (Builder.assembled_iff hnested).mp ⟨builder, hrun, hfinish⟩, hsame⟩

/-- **A text with the tags of a document is a document that is the same without text.** -/
theorem exists_parse_of_tags {limits : Limits} {text text' : String} {root : Element}
    {tokens : List Token} (h : Element.parse limits text = .ok root)
    (hsize : text'.utf8ByteSize ≤ limits.size) (hending : (Transcript.ofText text').ending = none)
    (htokens : (Transcript.ofText text').tokens = .ok tokens)
    (htags : Token.tags tokens = Token.tags root.tokens) :
    ∃ root', Element.parse limits text' = .ok root' ∧ root'.bare = root.bare := by
  obtain ⟨-, -, -, hwithin⟩ := Element.parse_eq_ok_iff.mp h
  obtain ⟨root', rfl, hbare⟩ := exists_tokens_of_tags (Transcript.nested_ofText htokens) htags
  have hwithin' : TokensWithin limits 0 root'.tokens := by
    rw [← tokensWithin_tags, htags, tokensWithin_tags]
    exact (tokensWithin_tokens 0 root.toNode).mpr hwithin
  exact ⟨root', Element.parse_eq_ok_iff.mpr
    ⟨hsize, hending, htokens, (tokensWithin_tokens 0 root'.toNode).mp hwithin'⟩, hbare⟩

end Xml
end ServiceTypes
