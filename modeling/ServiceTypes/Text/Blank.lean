import ServiceTypes.Text.CodePoints

/-!
# Blank text

Text between the elements of a document is layout when every character of it is white space in the
sense of the Unicode property `White_Space`, which has twenty-five characters.  That is a wider
class than the four characters that separate the parts of a tag, which are those of
`Char.isWhitespace`: space, tab, carriage return and line feed.
-/

namespace ServiceTypes
namespace Text

/-- The code points with the property `White_Space`. -/
def whiteSpace : CodePoints :=
  [(0x0009, 0x000d), (0x0020, 0x0020), (0x0085, 0x0085), (0x00a0, 0x00a0), (0x1680, 0x1680),
    (0x2000, 0x200a), (0x2028, 0x2029), (0x202f, 0x202f), (0x205f, 0x205f), (0x3000, 0x3000)]

/-- Whether a character is white space. -/
def isBlank (c : Char) : Bool :=
  whiteSpace.holds c

/-- Whether a text is white space throughout; the empty text is. -/
def allBlank (text : List Char) : Bool :=
  text.all isBlank

end Text
end ServiceTypes
