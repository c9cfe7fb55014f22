import ServiceTypes.Proofs.Xml.Assembly

/-!
# Events are taken in like their tokens

What the builder does with an event is to resolve it into tokens, to test these against the
limits, and to take them in.  This is so for each kind of event, among them the tag that is an
element by itself, which the builder attaches without ever opening it.

* `take_eq_ok_iff`, `foldlM_take_eq_ok_iff`: an event, and a sequence of events, is taken in
  exactly when its tokens exist, keep within the limits and are taken in, with the same outcome.
* `openElement_eq_error_iff`, `take_eq_error_cases`: what can be at fault with a tag, and with an
  event.
-/

namespace ServiceTypes
namespace Xml

open Text

namespace Builder

/-! ## Depth -/

theorem depth_addChild (builder : Builder) (child : Node) :
    (builder.addChild child).depth = builder.depth := by
  obtain ⟨stack, depth, root, hdepth⟩ := builder
  cases stack <;> rfl

theorem depth_attach {builder after : Builder} {element : Element}
    (h : builder.attach element = .ok after) : after.depth = builder.depth := by
  rw [attach] at h
  rcases hstack : builder.stack with _ | ⟨inner, outer⟩
  · rw [hstack] at h
    have hdepth : builder.depth = 0 := by rw [builder.depth_eq, hstack]; rfl
    rcases hroot : builder.root with _ | root
    · rw [hroot] at h
      obtain rfl := Except.ok.inj h
      exact hdepth.symm
    · rw [hroot] at h
      cases h
  · rw [hstack] at h
    obtain rfl := Except.ok.inj h
    exact depth_addChild builder element.toNode

theorem depth_closeElement {builder after : Builder} (h : builder.closeElement = .ok after) :
    after.depth = builder.depth - 1 := by
  rcases hstack : builder.stack with _ | ⟨element, outer⟩
  · obtain ⟨stack, depth, root, hdepth⟩ := builder
    obtain rfl : stack = [] := hstack
    obtain rfl : depth = 0 := hdepth
    obtain rfl := Except.ok.inj h
    rfl
  · obtain ⟨before, rfl, -⟩ := eq_push_of_stack_eq_cons hstack
    rw [closeElement_push] at h
    exact depth_attach h

theorem depth_accept {builder after : Builder} {token : Token}
    (h : builder.accept token = .ok after) : after.depth = token.depthAfter builder.depth := by
  cases token with
  | opening name attributes =>
    obtain rfl := Except.ok.inj h
    rfl
  | text content =>
    obtain rfl := Except.ok.inj h
    exact depth_addChild builder (.text content)
  | closing name => exact depth_closeElement h

theorem depth_foldlM_accept {builder after : Builder} {tokens : List Token}
    (h : tokens.foldlM accept builder = .ok after) :
    after.depth = depthAfterTokens builder.depth tokens := by
  induction tokens generalizing builder with
  | nil =>
    obtain rfl := Except.ok.inj h
    rfl
  | cons token tokens ih =>
    rw [List.foldlM_cons, bind_eq_ok_iff] at h
    obtain ⟨between, hfirst, hrest⟩ := h
    rw [ih hrest, depth_accept hfirst]
    rfl

end Builder

/-- The tokens of an event lead as deep as the event. -/
theorem Event.depthAfter_of_tokens {depth : Nat} {event : Event} {tokens : List Token}
    (h : event.tokens depth = .ok tokens) :
    depthAfterTokens depth tokens = event.depthAfter depth := by
  rcases Event.tokens_cases h with ⟨tag, attributes, rfl, -, rfl⟩ | ⟨tag, attributes, rfl, -, rfl⟩ |
    ⟨name, rfl, rfl⟩ | ⟨-, hdepth, rfl | ⟨-, content, rfl⟩⟩
  · rfl
  · rfl
  · rfl
  · exact hdepth.symm
  · exact hdepth.symm

/-! ## One event -/

namespace Builder

theorem openElement_eq_ok_iff {limits : Limits} {builder : Builder} {tag : Tag}
    {element : OpenElement} :
    builder.openElement limits tag = .ok element ↔
      ∃ attributes, tag.attributes = .ok attributes ∧
        (builder.depth + 1 ≤ limits.depth ∧ attributes.size ≤ limits.attributes) ∧
        element = ⟨String.ofList tag.name, attributes, []⟩ := by
  rw [openElement, bind_eq_ok_iff]
  constructor
  · rintro ⟨⟨⟩, hdepth, h⟩
    obtain ⟨attributes, hattributes, h⟩ := bind_eq_ok_iff.mp h
    obtain ⟨⟨⟩, hsize, h⟩ := bind_eq_ok_iff.mp h
    exact ⟨attributes, hattributes,
      ⟨Limits.require_eq_ok_iff.mp hdepth, Limits.require_eq_ok_iff.mp hsize⟩,
      (Except.ok.inj h).symm⟩
  · rintro ⟨attributes, hattributes, ⟨hdepth, hsize⟩, rfl⟩
    refine ⟨(), Limits.require_eq_ok_iff.mpr hdepth, ?_⟩
    rw [hattributes]
    refine bind_eq_ok_iff.mpr ⟨attributes, rfl, ?_⟩
    exact bind_eq_ok_iff.mpr ⟨(), Limits.require_eq_ok_iff.mpr hsize, rfl⟩

theorem foldlM_accept_singleton (builder : Builder) (token : Token) :
    [token].foldlM accept builder = builder.accept token := by
  rw [List.foldlM_cons]
  cases builder.accept token <;> rfl

/-- A run of text is taken in like its tokens. -/
theorem takeText_eq_ok_iff {limits : Limits} {builder after : Builder} {raw : List Char} :
    builder.takeText raw = .ok after ↔
      ∃ tokens, (Event.text raw).tokens builder.depth = .ok tokens ∧
        TokensWithin limits builder.depth tokens ∧ tokens.foldlM accept builder = .ok after := by
  rw [takeText, Event.tokens, builder.depth_eq]
  rcases builder.stack with _ | ⟨element, outer⟩
  · simp [TokensWithin, pure, Except.pure]
  · simp only [List.length_cons, Nat.add_eq_zero_iff, Nat.succ_ne_self, and_false, if_false]
    rcases resolve raw with fault | content
    · simp
    · by_cases hblank : allBlank content = true
      · simp [hblank, TokensWithin, pure, Except.pure]
      · simp only [if_neg hblank, Except.ok.injEq, exists_eq_left', foldlM_accept_singleton]
        exact ⟨fun h => ⟨tokensWithin_text limits _ _, congrArg Except.ok h⟩,
          fun h => Except.ok.inj h.2⟩

/-- **An event is taken in like its tokens.** -/
theorem take_eq_ok_iff {limits : Limits} {builder after : Builder} {event : Event} :
    builder.take limits event = .ok after ↔
      ∃ tokens, event.tokens builder.depth = .ok tokens ∧
        TokensWithin limits builder.depth tokens ∧ tokens.foldlM accept builder = .ok after := by
  cases event with
  | startTag tag =>
    rw [take, bind_eq_ok_iff, Event.tokens]
    simp only [openElement_eq_ok_iff, map_eq_ok_iff]
    have hrest := tokensWithin_nil limits (builder.depth + 1)
    constructor
    · rintro ⟨-, ⟨attributes, hattributes, hwithin, rfl⟩, hafter⟩
      exact ⟨_, ⟨attributes, hattributes, rfl⟩, (tokensWithin_of_opening hrest).mpr hwithin, hafter⟩
    · rintro ⟨-, ⟨attributes, hattributes, rfl⟩, hwithin, hafter⟩
      exact ⟨_, ⟨attributes, hattributes, (tokensWithin_of_opening hrest).mp hwithin, rfl⟩, hafter⟩
  | emptyTag tag =>
    rw [take, bind_eq_ok_iff, Event.tokens]
    simp only [openElement_eq_ok_iff, map_eq_ok_iff]
    have hrest := tokensWithin_closing limits (builder.depth + 1) (String.ofList tag.name)
    have hrun : ∀ attributes,
        [Token.opening (String.ofList tag.name) attributes,
          Token.closing (String.ofList tag.name)].foldlM accept builder =
        builder.attach (⟨String.ofList tag.name, attributes, []⟩ : OpenElement).close := by
      intro attributes
      exact foldlM_accept_singleton (builder.push ⟨String.ofList tag.name, attributes, []⟩) _
    constructor
    · rintro ⟨-, ⟨attributes, hattributes, hwithin, rfl⟩, hafter⟩
      refine ⟨_, ⟨attributes, hattributes, rfl⟩, (tokensWithin_of_opening hrest).mpr hwithin, ?_⟩
      rw [hrun, hafter]
    · rintro ⟨-, ⟨attributes, hattributes, rfl⟩, hwithin, hafter⟩
      rw [hrun] at hafter
      exact ⟨_, ⟨attributes, hattributes, (tokensWithin_of_opening hrest).mp hwithin, rfl⟩, hafter⟩
  | endTag name =>
    rw [take, Event.tokens]
    simp only [Except.ok.injEq, exists_eq_left', foldlM_accept_singleton]
    exact ⟨fun h => ⟨tokensWithin_closing limits _ _, h⟩, fun h => h.2⟩
  | text raw => exact takeText_eq_ok_iff
  | cdata content =>
    rw [take, Event.tokens, builder.depth_eq]
    rcases hstack : builder.stack with _ | ⟨element, outer⟩
    · rw [addChild_of_nil hstack]
      simp [TokensWithin, pure, Except.pure]
    · simp only [List.length_cons, Nat.add_eq_zero_iff, Nat.succ_ne_self, and_false, if_false,
        Except.ok.injEq, exists_eq_left', foldlM_accept_singleton]
      exact ⟨fun h => ⟨tokensWithin_text limits _ _, congrArg Except.ok h⟩,
        fun h => Except.ok.inj h.2⟩
  | comment content => simp [take, Event.tokens, TokensWithin, pure, Except.pure]
  | instruction content => simp [take, Event.tokens, TokensWithin, pure, Except.pure]
  | doctype content => simp [take, Event.tokens, TokensWithin, pure, Except.pure]

/-- **A sequence of events is taken in like its tokens.** -/
theorem foldlM_take_eq_ok_iff {limits : Limits} {builder after : Builder} {events : List Event} :
    events.foldlM (take limits) builder = .ok after ↔
      ∃ tokens, eventTokens builder.depth events = .ok tokens ∧
        TokensWithin limits builder.depth tokens ∧ tokens.foldlM accept builder = .ok after := by
  induction events generalizing builder with
  | nil => simp [TokensWithin, pure, Except.pure]
  | cons event events ih =>
    rw [List.foldlM_cons, bind_eq_ok_iff]
    constructor
    · rintro ⟨between, hfirst, hrest⟩
      obtain ⟨first, htokens, hwithin, haccept⟩ := take_eq_ok_iff.mp hfirst
      obtain ⟨rest, hresttokens, hrestwithin, hrestaccept⟩ := ih.mp hrest
      have hdepth := depth_foldlM_accept haccept
      rw [hdepth] at hresttokens hrestwithin
      refine ⟨first ++ rest, ?_, tokensWithin_append.mpr ⟨hwithin, hrestwithin⟩, ?_⟩
      · rw [Event.depthAfter_of_tokens htokens] at hresttokens
        exact eventTokens_cons_eq_ok_iff.mpr ⟨first, rest, htokens, hresttokens, rfl⟩
      · rw [List.foldlM_append, haccept]
        exact hrestaccept
    · rintro ⟨tokens, htokens, hwithin, haccept⟩
      obtain ⟨first, rest, hfirst, hrest, rfl⟩ := eventTokens_cons_eq_ok_iff.mp htokens
      obtain ⟨hwithinfirst, hwithinrest⟩ := tokensWithin_append.mp hwithin
      rw [List.foldlM_append, bind_eq_ok_iff] at haccept
      obtain ⟨between, hbetween, hafter⟩ := haccept
      have hdepth := depth_foldlM_accept hbetween
      refine ⟨between, take_eq_ok_iff.mpr ⟨first, hfirst, hwithinfirst, hbetween⟩, ih.mpr ?_⟩
      rw [← Event.depthAfter_of_tokens hfirst, ← hdepth] at hrest
      rw [← hdepth] at hwithinrest
      exact ⟨rest, hrest, hwithinrest, hafter⟩

/-! ## What can be at fault with an event -/

variable {limits : Limits} {builder : Builder} {event : Event}

/-- What is attached can only be a second root too many. -/
theorem secondRoot_of_attach_eq_error {builder : Builder} {element : Element} {fault : Fault}
    (h : builder.attach element = .error fault) : fault = .xml (.secondRoot element.name) := by
  rw [attach] at h
  split at h
  · cases h
  · split at h
    · cases h
    · exact (Except.error.inj h).symm

theorem openElement_eq_error_iff {tag : Tag} {fault : Fault} :
    builder.openElement limits tag = .error fault ↔
      limits.require .depth (builder.depth + 1) = .error fault ∨
        builder.depth + 1 ≤ limits.depth ∧
          (tag.attributes = .error fault ∨
            ∃ attributes, tag.attributes = .ok attributes ∧
              limits.require .attributes attributes.size = .error fault) := by
  rw [openElement, bind_eq_error_iff]
  refine or_congr_right ?_
  constructor
  · rintro ⟨⟨⟩, hdepth, h⟩
    refine ⟨Limits.require_eq_ok_iff.mp hdepth, ?_⟩
    rcases bind_eq_error_iff.mp h with h | ⟨attributes, hattributes, h⟩
    · exact Or.inl h
    · rcases bind_eq_error_iff.mp h with h | ⟨⟨⟩, -, h⟩
      · exact Or.inr ⟨attributes, hattributes, h⟩
      · cases h
  · rintro ⟨hdepth, h⟩
    refine ⟨(), Limits.require_eq_ok_iff.mpr hdepth, bind_eq_error_iff.mpr ?_⟩
    rcases h with h | ⟨attributes, hattributes, h⟩
    · exact Or.inl h
    · exact Or.inr ⟨attributes, hattributes, bind_eq_error_iff.mpr (Or.inl h)⟩

/-- A tag that cannot be opened is not taken in. -/
theorem take_eq_error_of_openElement {tag : Tag} {fault : Fault} (htag : event.tag? = some tag)
    (h : builder.openElement limits tag = .error fault) :
    builder.take limits event = .error fault := by
  cases event with
  | startTag other =>
    obtain rfl := Option.some.inj htag
    exact bind_eq_error_iff.mpr (Or.inl h)
  | emptyTag other =>
    obtain rfl := Option.some.inj htag
    exact bind_eq_error_iff.mpr (Or.inl h)
  | _ => cases htag

/-- What can be at fault with an event: a run of text inside the root, a tag, or a second root. -/
theorem take_eq_error_cases {fault : Fault} (h : builder.take limits event = .error fault) :
    (∃ raw reference, event = .text raw ∧ builder.depth ≠ 0 ∧
      resolve raw = .error reference ∧ fault = .xml (.text reference)) ∨
    (∃ tag, event.tag? = some tag ∧ builder.openElement limits tag = .error fault) ∨
    ∃ name, fault = .xml (.secondRoot name) := by
  cases event with
  | startTag tag =>
    rcases bind_eq_error_iff.mp h with h | ⟨element, -, h⟩
    · exact Or.inr (Or.inl ⟨tag, rfl, h⟩)
    · cases h
  | emptyTag tag =>
    rcases bind_eq_error_iff.mp h with h | ⟨element, -, h⟩
    · exact Or.inr (Or.inl ⟨tag, rfl, h⟩)
    · exact Or.inr (Or.inr ⟨_, secondRoot_of_attach_eq_error h⟩)
  | endTag name =>
    rcases hstack : builder.stack with _ | ⟨element, outer⟩
    · obtain ⟨stack, depth, root, hdepth⟩ := builder
      obtain rfl : stack = [] := hstack
      cases h
    · obtain ⟨before, rfl, -⟩ := eq_push_of_stack_eq_cons hstack
      exact Or.inr (Or.inr ⟨_, secondRoot_of_attach_eq_error h⟩)
  | text raw =>
    rw [take, takeText] at h
    split at h
    · cases h
    · next element outer hstack =>
      split at h
      · next reference hreference =>
        refine Or.inl ⟨raw, reference, rfl, ?_, hreference, (Except.error.inj h).symm⟩
        rw [builder.depth_eq, hstack]
        exact Nat.succ_ne_zero _
      · split at h <;> cases h
  | cdata content => cases h
  | comment content => cases h
  | instruction content => cases h
  | doctype content => cases h

end Builder
end Xml
end ServiceTypes
