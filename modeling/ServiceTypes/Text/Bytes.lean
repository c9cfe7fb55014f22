/-!
# Texts counted in bytes

A document is written in UTF-8, and both its size and the places in it that a fault names are
counted in bytes of that encoding.  The library works on lists of characters, so the count is a
function on them: a character counts one to four, and the count of a text is the sum over its
characters.

* `byteCount`: the count, with its three equations `byteCount_nil`, `byteCount_cons` and
  `byteCount_append`; nothing else unfolds it.
* `byteCount_toList`: on the characters of a string it is the string's own size.
* `leadingByte`: the first byte of a character, read as a character of that code.
-/

namespace ServiceTypes
namespace Text

/-- The number of bytes of a text in UTF-8. -/
def byteCount (text : List Char) : Nat :=
  text.foldl (fun count c => count + c.utf8Size) 0

/-- A running count adds to what was counted before. -/
theorem foldl_utf8Size (text : List Char) (count : Nat) :
    text.foldl (fun count c => count + c.utf8Size) count = count + byteCount text := by
  induction text generalizing count with
  | nil => rfl
  | cons c text ih =>
    have h := ih (0 + c.utf8Size)
    simp only [List.foldl_cons, byteCount] at h ⊢
    rw [ih, h, byteCount]
    omega

@[simp] theorem byteCount_nil : byteCount [] = 0 := rfl

@[simp] theorem byteCount_cons (c : Char) (text : List Char) :
    byteCount (c :: text) = c.utf8Size + byteCount text := by
  have h := foldl_utf8Size text (0 + c.utf8Size)
  rw [Nat.zero_add] at h
  simpa only [byteCount, List.foldl_cons, Nat.zero_add] using h

@[simp] theorem byteCount_append (first second : List Char) :
    byteCount (first ++ second) = byteCount first + byteCount second := by
  induction first with
  | nil => simp
  | cons c first ih => simp [ih, Nat.add_assoc]

/-- The size of a string is the count of its characters. -/
theorem byteCount_toList (s : String) : byteCount s.toList = s.utf8ByteSize := by
  have encoded : ∀ text : List Char, text.utf8Encode.size = byteCount text := by
    intro text
    induction text with
    | nil => simp [List.utf8Encode_nil]
    | cons c text ih =>
      rw [List.utf8Encode_cons, ByteArray.size_append, ih, byteCount_cons,
        List.utf8Encode_singleton, List.size_toByteArray, String.length_utf8EncodeChar]
  rw [← encoded, String.utf8Encode_toList]
  rfl

/-- The character whose code is the first byte of `c` in UTF-8; it is `c` itself for ASCII. -/
def leadingByte (c : Char) : Char :=
  match String.utf8EncodeChar c with
  | [] => c
  | byte :: _ => Char.ofNat byte.toNat

end Text
end ServiceTypes
