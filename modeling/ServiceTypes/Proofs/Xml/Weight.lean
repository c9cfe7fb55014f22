import Mathlib.Algebra.GroupWithZero.Nat
import ServiceTypes.Proofs.Text.Scan
import ServiceTypes.Proofs.Xml.Resolution
import ServiceTypes.Proofs.Xml.Room

/-!
# What is in a tree stands in the text

Each name, key, value and run of text in a tree was written at a place of its own in the text, with
at least as many bytes: a reference is longer than the character that it stands for, and a document
cannot give names to anything else.

What is counted is a `Weight`: that of an element without its children and that of a run of text.
There are two of them, bytes and things, and the account is kept in the same way for both, event by
event.  The events of a reading are written one behind the other, none within another.

* `Weight.node`, `Weight.tokens`: the weight of a tree, and of tokens.
* `byteCount_le_of_resolve`: resolving references makes no text longer.
* `Tag.bytes_le_of_attributes`: the attributes of a tag are written behind its name.
* `Event.written`: the part of an event that can come to something in the tree.
* `Weight.tokens_le_of_steps`: a weight that is paid for by every single event is paid for by the
  whole text.
-/

namespace ServiceTypes
namespace Xml

open Text

/-! ## What is counted -/

/-- A way to count what is in a tree. -/
structure Weight where
  /-- The weight of an element without its children. -/
  element : String → Attributes → Nat
  /-- The weight of a run of text. -/
  text : String → Nat

/-- The number of bytes of all keys and values. -/
def Attributes.bytes (attributes : Attributes) : Nat :=
  (attributes.entries.map fun entry => entry.1.utf8ByteSize + entry.2.utf8ByteSize).sum

namespace Weight

/-- The bytes of names, keys, values and texts. -/
def bytes : Weight where
  element name attributes := name.utf8ByteSize + attributes.bytes
  text content := content.utf8ByteSize

/-- The number of nodes and attributes. -/
def things : Weight where
  element _ attributes := 1 + attributes.size
  text _ := 1

variable (weight : Weight)

mutual

/-- The weight of a node with all that is in it. -/
def node : Node → Nat
  | .element name attributes children => weight.element name attributes + forest children
  | .text content => weight.text content

/-- The weight of nodes side by side. -/
def forest : List Node → Nat
  | [] => 0
  | child :: children => node child + forest children

end

/-- The weight of a token; what closes was counted when it opened. -/
def token : Token → Nat
  | .opening name attributes => weight.element name attributes
  | .text content => weight.text content
  | .closing _ => 0

/-- The weight of a sequence of tokens. -/
def tokens (tokens : List Token) : Nat :=
  (tokens.map weight.token).sum

@[simp] theorem tokens_nil : weight.tokens [] = 0 := rfl

@[simp] theorem tokens_cons (token : Token) (tokens : List Token) :
    weight.tokens (token :: tokens) = weight.token token + weight.tokens tokens := by
  rw [Weight.tokens, List.map_cons, List.sum_cons]
  rfl

@[simp] theorem tokens_append (first second : List Token) :
    weight.tokens (first ++ second) = weight.tokens first + weight.tokens second := by
  rw [Weight.tokens, List.map_append, List.sum_append]
  rfl

mutual

/-- A tree weighs what its tokens weigh. -/
theorem tokens_of_node : ∀ node : Node, weight.tokens node.tokens = weight.node node
  | .text content => by
    rw [Node.tokens, Weight.node, tokens_cons, tokens_nil]
    rfl
  | .element name attributes children => by
    rw [Node.tokens, Weight.node, tokens_cons, tokens_append, tokens_of_forest children,
      tokens_cons, tokens_nil]
    rfl

theorem tokens_of_forest :
    ∀ nodes : List Node, weight.tokens (Node.forestTokens nodes) = weight.forest nodes
  | [] => by
    rw [Node.forestTokens_nil, Weight.forest]
    rfl
  | child :: children => by
    rw [Node.forestTokens_cons, Weight.forest, tokens_append, tokens_of_node child,
      tokens_of_forest children]

end

end Weight

/-! ## References -/

/-- The body of a reference that stands for a character has at least two. -/
theorem two_le_length_of_referenced {start stop : Nat} {body : List Char} {c : Char}
    (h : referenced start stop body = .ok c) : 2 ≤ body.length := by
  rw [referenced.eq_def] at h
  split at h
  · next found hfound =>
    have hnames : ∀ entry ∈ predefined, 2 ≤ entry.1.length := by decide
    obtain ⟨before, after, hsplit, -⟩ := List.lookup_eq_some_iff.mp hfound
    exact hnames (body, found) (hsplit ▸ List.mem_append_right _ (List.mem_cons_self ..))
  · split at h
    · simp
    · next digits _ _ =>
      rcases digits with _ | ⟨digit, digits⟩
      · cases h
      · simp
    · cases h

/-- A reference is at least as long as the character that it stands for. -/
theorem utf8Size_le_of_referenced {start stop : Nat} {body : List Char} {c : Char}
    (h : referenced start stop body = .ok c) : c.utf8Size ≤ byteCount body + 2 := by
  have hbody := two_le_length_of_referenced h
  have hcount := length_le_byteCount body
  have hmax := c.utf8Size_le_four
  omega

/-- **Resolving references makes no text longer.** -/
theorem byteCount_le_of_resolve {raw content : List Char} (h : resolve raw = .ok content) :
    byteCount content ≤ byteCount raw := by
  have hresolves := resolve_eq_ok_iff.mp h
  clear h
  induction hresolves with
  | nil => exact Nat.le_refl _
  | plain _ _ ih =>
    rw [byteCount_cons, byteCount_cons]
    omega
  | @reference body raw content c _ hc _ ih =>
    have hsize := utf8Size_le_of_referenced (hc 0 0)
    have hamp : '&'.utf8Size = 1 := rfl
    have hsemicolon : ';'.utf8Size = 1 := rfl
    rw [byteCount_cons, byteCount_cons, byteCount_append, byteCount_cons]
    omega

/-! ## Attributes -/

theorem byteCount_le_of_keyAt {text key after : List Char} (h : KeyAt text key after) :
    byteCount key + byteCount after ≤ byteCount text := by
  cases h
  simp only [byteCount_append, byteCount_cons]
  omega

theorem byteCount_le_of_valueAt {text value after : List Char} (h : ValueAt text value after) :
    byteCount value + byteCount after ≤ byteCount text := by
  cases h
  simp only [byteCount_append, byteCount_cons]
  omega

/-- The bytes of keys and values as written. -/
def writtenBytes (written : List (List Char × List Char)) : Nat :=
  (written.map fun pair => byteCount pair.1 + byteCount pair.2).sum

theorem writtenBytes_cons (pair : List Char × List Char) (written : List (List Char × List Char)) :
    writtenBytes (pair :: written) =
      byteCount pair.1 + byteCount pair.2 + writtenBytes written := by
  rw [writtenBytes, List.map_cons, List.sum_cons]
  rfl

/-- Attributes are written side by side. -/
theorem writtenBytes_le_of_attributesAt {text after : List Char}
    {written : List (List Char × List Char)} (h : AttributesAt text written after) :
    writtenBytes written + byteCount after ≤ byteCount text := by
  induction h with
  | nil => exact Nat.le_of_eq (Nat.zero_add _)
  | cons hkey hvalue _ ih =>
    have hkeybytes := byteCount_le_of_keyAt hkey
    have hvaluebytes := byteCount_le_of_valueAt hvalue
    rw [writtenBytes_cons]
    dsimp only
    omega

/-- An attribute is no longer than it is written. -/
theorem bytes_le_of_keptAs {written : List (List Char × List Char)}
    {entries : List (String × String)} (h : List.Forall₂ KeptAs written entries) :
    (entries.map fun entry => entry.1.utf8ByteSize + entry.2.utf8ByteSize).sum ≤
      writtenBytes written := by
  induction h with
  | nil => exact Nat.le_refl _
  | cons hfirst _ ih =>
    obtain ⟨hkey, hvalue⟩ := hfirst
    have hresolved := byteCount_le_of_resolve hvalue
    have hsame := congrArg byteCount hkey
    rw [byteCount_toList] at hresolved hsame
    rw [writtenBytes_cons, List.map_cons, List.sum_cons]
    omega

/-- **The attributes of a tag are written behind its name.** -/
theorem Tag.bytes_le_of_attributes {tag : Tag} {attributes : Attributes}
    (h : tag.attributes = .ok attributes) : attributes.bytes ≤ byteCount tag.tail := by
  obtain ⟨written, ⟨blank, hwritten, -⟩, hkept⟩ := Tag.attributes_eq_ok_iff.mp h
  have hkeptbytes : attributes.bytes ≤ writtenBytes written := bytes_le_of_keptAs hkept
  have hbytes := writtenBytes_le_of_attributesAt hwritten
  omega

/-! ## Events -/

/-- The part of an event that can come to something in the tree, as written. -/
def Event.written : Event → List Char
  | .startTag tag => tag.content
  | .emptyTag tag => tag.content
  | .text raw => raw
  | .cdata content => content
  | _ => []

/-- The byte that shows that an event is markup. -/
def Event.mark : Event → Nat
  | .text _ => 0
  | _ => 1

/-- Events are written one behind the other. -/
theorem Reader.byteCount_of_step {reader rest : Reader} {event : Event}
    (h : Step reader event rest) :
    event.mark + byteCount event.written + byteCount rest.unread ≤ byteCount reader.unread := by
  have hangle : '<'.utf8Size = 1 := rfl
  cases h with
  | @text c text _ _ =>
    have hrun := byteCount_takeWhile_add_dropWhile isText text
    simp only [Event.mark, Event.written, byteCount_cons]
    omega
  | @endTag after _ _ _ =>
    have hrest := byteCount_le_of_sublist
      ((List.tail_sublist _).trans (List.dropWhile_sublist isInner (l := after)))
    simp only [Event.mark, Event.written, byteCount_cons, byteCount_nil]
    omega
  | comment hcut =>
    have hrest := byteCount_lt_of_cut hcut
    simp only [Event.mark, Event.written, byteCount_cons, byteCount_nil]
    omega
  | @cdata _ content _ _ hcut _ =>
    have hrest := byteCount_lt_of_cut hcut
    have hcontent := byteCount_le_of_sublist (((List.dropLast_sublist _).trans
      (List.dropLast_sublist _)).trans (List.drop_sublist 6 content))
    simp only [Event.mark, Event.written, byteCount_cons]
    omega
  | doctype _ hcut _ _ =>
    have hrest := byteCount_lt_of_cut hcut
    simp only [Event.mark, Event.written, byteCount_cons, byteCount_nil]
    omega
  | @instruction after _ _ _ =>
    have hrest := byteCount_le_of_sublist
      ((List.tail_sublist _).trans (List.dropWhile_sublist isInner (l := after)))
    simp only [Event.mark, Event.written, byteCount_cons, byteCount_nil]
    omega
  | startTag _ _ _ hcut _ =>
    have hrest := byteCount_lt_of_cut hcut
    rw [byteCount_cons] at hrest
    simp only [Event.mark, Event.written, Tag.content_ofContent, byteCount_cons]
    omega
  | @emptyTag _ _ content _ _ _ _ _ hcut _ =>
    have hrest := byteCount_lt_of_cut hcut
    have hcontent := byteCount_le_of_sublist (List.dropLast_sublist content)
    rw [byteCount_cons] at hrest
    simp only [Event.mark, Event.written, Tag.content_ofContent, byteCount_cons]
    omega

/-- A run of text is not empty. -/
theorem Reader.mark_add_written_pos {reader rest : Reader} {event : Event}
    (h : Step reader event rest) : 0 < event.mark + byteCount event.written := by
  cases h with
  | @text c text _ _ =>
    have hc := Char.utf8Size_pos c
    simp only [Event.mark, Event.written, byteCount_cons]
    omega
  | _ => exact Nat.add_pos_left Nat.one_pos _

namespace Weight

theorem bytes_le_of_tag {tag : Tag} {attributes : Attributes}
    (h : tag.attributes = .ok attributes) :
    bytes.element (String.ofList tag.name) attributes ≤ byteCount tag.content := by
  have hbytes := Tag.bytes_le_of_attributes h
  rw [Tag.content, byteCount_append]
  show (String.ofList tag.name).utf8ByteSize + attributes.bytes ≤ _
  rw [utf8ByteSize_ofList]
  omega

/-- The bytes of an event in the tree are bytes of its written part. -/
theorem bytes_le_of_event {depth : Nat} {event : Event} {tokens : List Token}
    (h : event.tokens depth = .ok tokens) : bytes.tokens tokens ≤ byteCount event.written := by
  cases event with
  | startTag tag =>
    obtain ⟨attributes, hattributes, rfl⟩ := map_eq_ok_iff.mp h
    exact bytes_le_of_tag hattributes
  | emptyTag tag =>
    obtain ⟨attributes, hattributes, rfl⟩ := map_eq_ok_iff.mp h
    exact bytes_le_of_tag hattributes
  | text raw =>
    rw [Event.tokens] at h
    split at h
    · obtain rfl := Except.ok.inj h
      exact Nat.zero_le _
    · split at h
      · cases h
      · next content hcontent =>
        have hle := byteCount_le_of_resolve hcontent
        obtain rfl := Except.ok.inj h
        split
        · exact Nat.zero_le _
        · exact Nat.le_trans (Nat.le_of_eq (utf8ByteSize_ofList content)) hle
  | cdata content =>
    obtain rfl := Except.ok.inj h
    split
    · exact Nat.zero_le _
    · exact Nat.le_of_eq (utf8ByteSize_ofList content)
  | _ =>
    obtain rfl := Except.ok.inj h
    exact Nat.zero_le _

theorem things_le_of_event {depth : Nat} {event : Event} {tokens : List Token}
    (h : event.tokens depth = .ok tokens) (hsome : 0 < event.mark + byteCount event.written) :
    things.tokens tokens ≤ event.mark + byteCount event.written := by
  rcases Event.tokens_cases h with ⟨tag, attributes, rfl, hattributes, rfl⟩ |
    ⟨tag, attributes, rfl, hattributes, rfl⟩ | ⟨name, rfl, rfl⟩ | ⟨-, -, rfl | ⟨-, content, rfl⟩⟩
  · have hsize := Tag.size_le_of_attributes hattributes
    have htail := length_le_byteCount tag.tail
    simp only [tokens_cons, tokens_nil, token, things, Event.mark, Event.written, Tag.content,
      byteCount_append]
    omega
  · have hsize := Tag.size_le_of_attributes hattributes
    have htail := length_le_byteCount tag.tail
    simp only [tokens_cons, tokens_nil, token, things, Event.mark, Event.written, Tag.content,
      byteCount_append]
    omega
  · exact Nat.zero_le _
  · exact Nat.zero_le _
  · exact hsome

/-- **A weight that is paid for by every event is paid for by the whole text.** -/
theorem tokens_le_of_steps {weight : Weight}
    (hstep : ∀ {reader rest : Reader} {event : Event} {tokens : List Token},
      Reader.Step reader event rest → event.tokens reader.openNames.length = .ok tokens →
        weight.tokens tokens ≤ event.mark + byteCount event.written)
    {reader : Reader} {tokens : List Token}
    (h : eventTokens reader.openNames.length reader.transcript.events = .ok tokens) :
    weight.tokens tokens ≤ byteCount reader.unread := by
  induction reader using Reader.reading_induction generalizing tokens with
  | misread reader cause hnext =>
    rw [Reader.transcript_of_error hnext] at h
    obtain rfl := Except.ok.inj h
    exact Nat.zero_le _
  | done reader hnext =>
    rw [Reader.transcript_of_none hnext] at h
    obtain rfl := Except.ok.inj h
    exact Nat.zero_le _
  | event reader event rest hread ih =>
    rw [Reader.transcript_of_some (Reader.next_of_step hread)] at h
    obtain ⟨first, more, hfirst, hmore, rfl⟩ := eventTokens_cons_eq_ok_iff.mp h
    rw [← Reader.length_openNames_of_step hread] at hmore
    have hpaid := Reader.byteCount_of_step hread
    have hfirstpaid := hstep hread hfirst
    have hmorepaid := ih hmore
    rw [tokens_append]
    omega

end Weight

end Xml
end ServiceTypes
