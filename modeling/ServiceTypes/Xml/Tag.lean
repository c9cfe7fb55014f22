import ServiceTypes.Text.Bytes

/-!
# Tags and the attributes written in them

The content of a start tag is what stands between its `<` and its `>`.  The name runs to the first
white space; after it come the attributes, each a key, an equals sign and a value in quotes, with
white space allowed around the sign and between attributes but nowhere required.  The reading is
tolerant: a name or a key may hold any characters but the ones that end it, and a key may even
start with an equals sign.

* `Tag`: the two parts of the content; `content_ofContent` says that nothing is lost.
* `readAttribute`: read the next attribute; `length_lt_of_readAttribute` says how far it moves on.
* `Tag.listing`: all attributes up to the end of the tag or to the first fault.

Offsets are counted in bytes from the start of the content, so the name counts.
-/

namespace ServiceTypes
namespace Xml

open Text

/-- The content of a tag: its name, and what follows the name. -/
structure Tag where
  name : List Char
  tail : List Char
  deriving DecidableEq, Repr

namespace Tag

/-- Divide the content of a tag at the first white space. -/
def ofContent (content : List Char) : Tag where
  name := content.takeWhile fun c => !c.isWhitespace
  tail := content.dropWhile fun c => !c.isWhitespace

/-- The content of a tag as written. -/
def content (tag : Tag) : List Char :=
  tag.name ++ tag.tail

@[simp] theorem content_ofContent (written : List Char) : (ofContent written).content = written :=
  List.takeWhile_append_dropWhile

end Tag

/-- An attribute as written in a tag: the offset of its key, the key, and the text in quotes. -/
structure WrittenAttribute where
  start : Nat
  key : List Char
  value : List Char
  deriving DecidableEq, Repr

/-- Why the attributes of a tag cannot be read, with the offset of the fault. -/
inductive AttributeFault where
  /-- A key is followed by something other than an equals sign. -/
  | noEquals (place : Nat)
  /-- The tag ends after an equals sign. -/
  | noValue (place : Nat)
  /-- A value does not start with a quote. -/
  | unquoted (place : Nat)
  /-- The tag ends inside the quotes of a value. -/
  | noClosingQuote (place : Nat) (quote : Char)
  /-- A key stands at two offsets, the later one given first. -/
  | duplicated (place earlier : Nat)
  deriving DecidableEq, Repr

/-- What is said of attributes that cannot be read. -/
def AttributeFault.message : AttributeFault → String
  | .noEquals place =>
    located place ++ "attribute key must be directly followed by `=` or space"
  | .noValue place => located place ++ "`=` must be followed by an attribute value"
  | .unquoted place => located place ++ "attribute value must be enclosed in `\"` or `'`"
  | .noClosingQuote place quote =>
    located place ++ "missing closing quote `" ++ String.singleton quote ++ "` in attribute value"
  | .duplicated place earlier =>
    located place ++ "duplicated attribute, previous declaration at position " ++ toString earlier
where
  /-- The words that give the place of a fault. -/
  located (place : Nat) : String :=
    "position " ++ toString place ++ ": "

/-- A place in the content of a tag: its offset, and the content from there on. -/
structure Cursor where
  offset : Nat
  text : List Char
  deriving DecidableEq, Repr

namespace Cursor

/-- Move past the characters of a class. -/
def skip (cursor : Cursor) (among : Char → Bool) : Cursor where
  offset := cursor.offset + byteCount (cursor.text.takeWhile among)
  text := cursor.text.dropWhile among

theorem length_skip_le (cursor : Cursor) (among : Char → Bool) :
    (cursor.skip among).text.length ≤ cursor.text.length :=
  (List.dropWhile_suffix among).length_le

end Cursor

/-- Whether a character may stand in a key after its first character. -/
def inKey (c : Char) : Bool :=
  c ≠ '=' && !c.isWhitespace

/-- Read the key that starts at or after a place, up to and including its equals sign.  The answer
is `none` at the end of the tag, and otherwise the offset of the key, the key, and the place after
the sign. -/
def readKey (cursor : Cursor) : Except AttributeFault (Option (Nat × List Char × Cursor)) :=
  match (cursor.skip Char.isWhitespace).text with
  | [] => .ok none
  | first :: more =>
    let start := (cursor.skip Char.isWhitespace).offset
    let sign := ((Cursor.mk (start + first.utf8Size) more).skip inKey).skip Char.isWhitespace
    match sign.text with
    | '=' :: rest => .ok (some (start, first :: more.takeWhile inKey, ⟨sign.offset + 1, rest⟩))
    | _ => .error (.noEquals sign.offset)

/-- Read the value in quotes that starts at or after a place.  The answer is the text in quotes and
the place after them. -/
def readValue (cursor : Cursor) : Except AttributeFault (List Char × Cursor) :=
  let opening := cursor.skip Char.isWhitespace
  match opening.text with
  | [] => .error (.noValue opening.offset)
  | quote :: body =>
    if quote = '\x22' ∨ quote = '\x27' then
      let closing := (Cursor.mk (opening.offset + 1) body).skip fun c => c ≠ quote
      match closing.text with
      | [] => .error (.noClosingQuote closing.offset quote)
      | _ :: rest => .ok (body.takeWhile fun c => c ≠ quote, ⟨closing.offset + 1, rest⟩)
    else .error (.unquoted opening.offset)

/-- Read the attribute that starts at or after a place, when those of `seen` stand before it.  The
answer is `none` at the end of the tag, and otherwise the attribute and the place after it. -/
def readAttribute (seen : List WrittenAttribute) (cursor : Cursor) :
    Except AttributeFault (Option (WrittenAttribute × Cursor)) :=
  match readKey cursor with
  | .error fault => .error fault
  | .ok none => .ok none
  | .ok (some (start, key, sign)) =>
    match seen.find? fun earlier => earlier.key == key with
    | some earlier => .error (.duplicated start earlier.start)
    | none =>
      match readValue sign with
      | .error fault => .error fault
      | .ok (value, rest) => .ok (some (⟨start, key, value⟩, rest))

/-- A key and its sign take at least two characters. -/
theorem length_lt_of_readKey {cursor sign : Cursor} {start : Nat} {key : List Char}
    (h : readKey cursor = .ok (some (start, key, sign))) :
    sign.text.length + 2 ≤ cursor.text.length := by
  have hstart := cursor.length_skip_le Char.isWhitespace
  rw [readKey] at h
  split at h
  · simp at h
  · next first more hfirst =>
    rw [hfirst, List.length_cons] at hstart
    dsimp only at h
    generalize hcursor : Cursor.mk ((cursor.skip Char.isWhitespace).offset + first.utf8Size) more
      = past at h
    have hkey := past.length_skip_le inKey
    have hsign := (past.skip inKey).length_skip_le Char.isWhitespace
    have hpast : past.text = more := by rw [← hcursor]
    split at h
    · next rest hrest =>
      obtain ⟨-, -, rfl⟩ := by simpa using h
      rw [hrest, List.length_cons] at hsign
      rw [hpast] at hkey
      dsimp only
      omega
    · simp at h

/-- A value takes at least its two quotes. -/
theorem length_lt_of_readValue {cursor rest : Cursor} {value : List Char}
    (h : readValue cursor = .ok (value, rest)) : rest.text.length + 2 ≤ cursor.text.length := by
  have hopening := cursor.length_skip_le Char.isWhitespace
  simp only [readValue] at h
  split at h
  · simp at h
  · next quote body hbody =>
    rw [hbody, List.length_cons] at hopening
    split at h
    · have hclosing := Cursor.length_skip_le
        (Cursor.mk ((cursor.skip Char.isWhitespace).offset + 1) body) fun c => decide (c ≠ quote)
      split at h
      · simp at h
      · next stop after hafter =>
        obtain ⟨-, rfl⟩ := by simpa using h
        rw [hafter, List.length_cons] at hclosing
        dsimp only at hclosing ⊢
        omega
    · simp at h

/-- An attribute takes at least four characters. -/
theorem length_lt_of_readAttribute {seen : List WrittenAttribute} {cursor rest : Cursor}
    {found : WrittenAttribute} (h : readAttribute seen cursor = .ok (some (found, rest))) :
    rest.text.length + 4 ≤ cursor.text.length := by
  rw [readAttribute] at h
  split at h
  · simp at h
  · simp at h
  · next start key sign hkey =>
    split at h
    · simp at h
    · split at h
      · simp at h
      · next value after hvalue =>
        obtain ⟨-, rfl⟩ := by simpa using h
        have := length_lt_of_readKey hkey
        have := length_lt_of_readValue hvalue
        omega

/-- The attributes of a tag in order, and the fault that ended the reading if one did. -/
structure AttributeListing where
  written : List WrittenAttribute
  fault : Option AttributeFault
  deriving DecidableEq, Repr

/-- Read on from a place, when the attributes of `seen` stand before it, latest first. -/
def listingFrom (seen : List WrittenAttribute) (cursor : Cursor) : AttributeListing :=
  match _h : readAttribute seen cursor with
  | .error fault => ⟨seen.reverse, some fault⟩
  | .ok none => ⟨seen.reverse, none⟩
  | .ok (some (found, rest)) => listingFrom (found :: seen) rest
termination_by cursor.text.length
decreasing_by
  have := length_lt_of_readAttribute _h
  omega

/-- The attributes written in a tag. -/
def Tag.listing (tag : Tag) : AttributeListing :=
  listingFrom [] ⟨byteCount tag.name, tag.tail⟩

end Xml
end ServiceTypes
