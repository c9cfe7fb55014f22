import ServiceTypes.Proofs.Outcome
import ServiceTypes.Proofs.Xml.Token

/-!
# Putting a tree together from its tokens

The builder of a document does two things at once: it tests each event against the limits and
resolves what is written in it, and it puts what comes out in its place.  Here the second is taken
by itself, as a machine that takes tokens in.

The invariant of the machine is a view of it.  A builder stands for a walk that is half done, and
`Builder.emitted` is that walk: the tokens of the closed root, and those of every open element as
far as it has come, outermost first.  Taking a token in appends it to the view (`emitted_accept`),
so that nothing is lost, doubled or moved.  In the other direction the tokens of an element are
taken in like the element itself (`foldlM_accept_tokens`).

* `assembled_iff`: well-nested tokens come to a tree exactly when they are the tokens of that
  tree.
-/

namespace ServiceTypes
namespace Xml

open Text

namespace OpenElement

/-- The tokens of an open element as far as it has come. -/
def tokens (element : OpenElement) : List Token :=
  .opening element.name element.attributes :: Node.forestTokens element.close.children

theorem tokens_add (element : OpenElement) (child : Node) :
    (element.add child).tokens = element.tokens ++ child.tokens := by
  rw [tokens, children_close_add, Node.forestTokens_append, Node.forestTokens_cons,
    Node.forestTokens_nil, List.append_nil]
  rfl

theorem tokens_close (element : OpenElement) :
    element.close.tokens = element.tokens ++ [.closing element.name] := by
  rw [Element.tokens_eq]
  rfl

/-- An element that opened with nothing in it and got some children is the element with them. -/
theorem close_foldl_add (element : OpenElement) (children : List Node) :
    (children.foldl add element).close =
      ⟨element.name, element.attributes, element.close.children ++ children⟩ := by
  induction children generalizing element with
  | nil => rw [List.foldl_nil, List.append_nil]; rfl
  | cons child children ih =>
    rw [List.foldl_cons, ih, children_close_add, List.append_assoc, List.singleton_append]
    rfl

end OpenElement

namespace Builder

/-! ## The machine -/

/-- What one token does to a tree under construction. -/
def accept (builder : Builder) : Token → Except Fault Builder
  | .opening name attributes => .ok (builder.push ⟨name, attributes, []⟩)
  | .text content => .ok (builder.addChild (.text content))
  | .closing _ => builder.closeElement

/-- A builder with an open element is one into which that element was pushed. -/
theorem eq_push_of_stack_eq_cons {builder : Builder} {element : OpenElement}
    {outer : List OpenElement} (h : builder.stack = element :: outer) :
    ∃ before : Builder, builder = before.push element ∧ before.stack = outer ∧
      before.root = builder.root := by
  obtain ⟨stack, depth, root, hdepth⟩ := builder
  obtain rfl : stack = element :: outer := h
  obtain rfl : depth = outer.length + 1 := hdepth
  exact ⟨⟨outer, outer.length, root, rfl⟩, rfl, rfl, rfl⟩

theorem addChild_push (builder : Builder) (element : OpenElement) (child : Node) :
    (builder.push element).addChild child = builder.push (element.add child) := rfl

theorem closeElement_push (builder : Builder) (element : OpenElement) :
    (builder.push element).closeElement = builder.attach element.close := rfl

theorem attach_push (builder : Builder) (element : OpenElement) (child : Element) :
    (builder.push element).attach child = .ok (builder.push (element.add child.toNode)) := rfl

/-! ## The tokens of an element are taken in like the element -/

/-- An element is taken in like its children, between its opening and its closing. -/
theorem foldlM_accept_element (name : String) (attributes : Attributes) (children : List Node)
    (hforest : ∀ (builder : Builder) (element : OpenElement),
      (Node.forestTokens children).foldlM accept (builder.push element) =
        .ok (builder.push (children.foldl OpenElement.add element))) (builder : Builder) :
    (Node.element name attributes children).tokens.foldlM accept builder =
      builder.attach ⟨name, attributes, children⟩ := by
  have hopen : builder.accept (.opening name attributes) =
      .ok (builder.push ⟨name, attributes, []⟩) := rfl
  have hclose : (⟨name, attributes, []⟩ : OpenElement).close.children ++ children = children := rfl
  rw [Node.tokens, List.foldlM_cons, hopen]
  show (Node.forestTokens children ++ [Token.closing name]).foldlM accept _ = _
  rw [List.foldlM_append, hforest]
  show [Token.closing name].foldlM accept (builder.push _) = _
  rw [List.foldlM_cons]
  show (builder.push _).closeElement >>= _ = _
  rw [closeElement_push, OpenElement.close_foldl_add, hclose]
  cases builder.attach ⟨name, attributes, children⟩ <;> rfl

mutual

theorem foldlM_accept_node (builder : Builder) (element : OpenElement) :
    ∀ node : Node, node.tokens.foldlM accept (builder.push element) =
      .ok (builder.push (element.add node))
  | .text content => by rw [Node.tokens]; rfl
  | .element name attributes children => by
    rw [foldlM_accept_element name attributes children
      (fun builder element => foldlM_accept_forest builder element children)]
    exact attach_push builder element _

/-- Inside an open element nodes are taken in as its children. -/
theorem foldlM_accept_forest (builder : Builder) (element : OpenElement) :
    ∀ nodes : List Node, (Node.forestTokens nodes).foldlM accept (builder.push element) =
      .ok (builder.push (nodes.foldl OpenElement.add element))
  | [] => by rw [Node.forestTokens_nil]; rfl
  | node :: nodes => by
    rw [Node.forestTokens_cons, List.foldlM_append, foldlM_accept_node builder element node]
    exact foldlM_accept_forest builder (element.add node) nodes

end

/-- **The tokens of an element are taken in like the element.** -/
theorem foldlM_accept_tokens (builder : Builder) (element : Element) :
    element.tokens.foldlM accept builder = builder.attach element :=
  foldlM_accept_element element.name element.attributes element.children
    (fun builder outer => foldlM_accept_forest builder outer element.children) builder

/-! ## The walk that a builder stands for -/

/-- The tokens of the closed root, if there is one. -/
def rootTokens (builder : Builder) : List Token :=
  match builder.root with
  | none => []
  | some root => root.tokens

/-- The walk that a builder stands for: the closed root, and then the open elements, outermost
first. -/
def emitted (builder : Builder) : List Token :=
  builder.rootTokens ++ builder.stack.reverse.flatMap OpenElement.tokens

/-- The names of the open elements, innermost first. -/
def names (builder : Builder) : List String :=
  builder.stack.map OpenElement.name

theorem emitted_push (builder : Builder) (element : OpenElement) :
    (builder.push element).emitted = builder.emitted ++ element.tokens := by
  rw [emitted, emitted, stack_push, List.reverse_cons, List.flatMap_append, ← List.append_assoc]
  simp [rootTokens]

theorem emitted_addChild {builder : Builder} (h : builder.stack ≠ []) (child : Node) :
    (builder.addChild child).emitted = builder.emitted ++ child.tokens := by
  obtain ⟨element, outer, hstack⟩ := List.exists_cons_of_ne_nil h
  obtain ⟨before, rfl, -⟩ := eq_push_of_stack_eq_cons hstack
  rw [addChild_push, emitted_push, emitted_push, OpenElement.tokens_add, List.append_assoc]

/-- Attaching an element adds its tokens to the walk and changes no open name. -/
theorem emitted_attach {builder after : Builder} {element : Element}
    (h : builder.attach element = .ok after) :
    after.emitted = builder.emitted ++ element.tokens ∧ after.names = builder.names := by
  rw [attach] at h
  rcases hstack : builder.stack with _ | ⟨inner, outer⟩
  · rw [hstack] at h
    rcases hroot : builder.root with _ | root
    · rw [hroot] at h
      obtain rfl := Except.ok.inj h
      have hemitted : builder.emitted = [] := by simp [emitted, rootTokens, hroot, hstack]
      rw [hemitted]
      constructor
      · simp [emitted, rootTokens]
      · simp [names, hstack]
    · rw [hroot] at h
      cases h
  · rw [hstack] at h
    obtain rfl := Except.ok.inj h
    have hne : builder.stack ≠ [] := by rw [hstack]; exact List.cons_ne_nil _ _
    refine ⟨emitted_addChild hne element.toNode, ?_⟩
    rw [names, stack_addChild_of_cons hstack, names, hstack]
    rfl

/-- What closes is the innermost open element, and its closing is added to the walk. -/
theorem emitted_closeElement {builder after : Builder} {name : String}
    (hname : builder.names.head? = some name) (h : builder.closeElement = .ok after) :
    after.emitted = builder.emitted ++ [.closing name] ∧ after.names = builder.names.tail := by
  rcases hstack : builder.stack with _ | ⟨element, outer⟩
  · rw [names, hstack] at hname
    cases hname
  · obtain ⟨before, rfl, -⟩ := eq_push_of_stack_eq_cons hstack
    obtain rfl : element.name = name := Option.some.inj hname
    rw [closeElement_push] at h
    obtain ⟨hemitted, hnames⟩ := emitted_attach h
    constructor
    · rw [hemitted, emitted_push, OpenElement.tokens_close, List.append_assoc]
    · exact hnames

/-- **Nothing is lost, doubled or moved**: well-nested tokens are added to the walk as they are. -/
theorem emitted_foldlM_accept {builder after : Builder} {tokens : List Token}
    (hnested : Nested builder.names tokens) (h : tokens.foldlM accept builder = .ok after) :
    after.emitted = builder.emitted ++ tokens := by
  induction tokens generalizing builder with
  | nil =>
    obtain rfl := Except.ok.inj h
    rw [List.append_nil]
  | cons token tokens ih =>
    rw [List.foldlM_cons, bind_eq_ok_iff] at h
    obtain ⟨between, hfirst, hrest⟩ := h
    cases token with
    | opening name attributes =>
      obtain rfl := Except.ok.inj hfirst
      rw [ih hnested hrest, emitted_push, List.append_assoc]
      rfl
    | text content =>
      obtain ⟨hopen, hnested⟩ := hnested
      obtain rfl := Except.ok.inj hfirst
      have hstack : builder.stack ≠ [] := fun hnil => hopen (by rw [names, hnil]; rfl)
      obtain ⟨inner, outer, hcons⟩ := List.exists_cons_of_ne_nil hstack
      have hnames : (builder.addChild (.text content)).names = builder.names := by
        rw [names, stack_addChild_of_cons hcons, names, hcons]
        rfl
      rw [ih (by rwa [hnames]) hrest, emitted_addChild hstack, List.append_assoc, Node.tokens]
      rfl
    | closing name =>
      obtain ⟨hname, hnested⟩ := hnested
      obtain ⟨hemitted, hnames⟩ := emitted_closeElement hname hfirst
      rw [ih (by rwa [hnames]) hrest, hemitted, List.append_assoc]
      rfl

/-! ## The tree that tokens come to -/

theorem finish_eq_ok_iff {builder : Builder} {root : Element} :
    builder.finish = .ok root ↔ builder.stack = [] ∧ builder.root = some root := by
  rw [finish]
  rcases builder.stack with _ | ⟨element, outer⟩
  · rcases builder.root with _ | found <;> simp
  · simp

/-- **Well-nested tokens come to a tree exactly when they are its tokens.** -/
theorem assembled_iff {tokens : List Token} (hnested : Nested [] tokens) {root : Element} :
    (∃ builder, tokens.foldlM accept {} = .ok builder ∧ builder.finish = .ok root) ↔
      tokens = root.tokens := by
  constructor
  · rintro ⟨builder, hrun, hfinish⟩
    obtain ⟨hstack, hroot⟩ := finish_eq_ok_iff.mp hfinish
    have hemitted : builder.emitted = ({} : Builder).emitted ++ tokens :=
      emitted_foldlM_accept hnested hrun
    simpa [emitted, rootTokens, hstack, hroot] using hemitted.symm
  · rintro rfl
    exact ⟨{ root := some root }, foldlM_accept_tokens {} root, rfl⟩

end Builder
end Xml
end ServiceTypes
