import ServiceTypes.Proofs.Text.Radix
import ServiceTypes.Proofs.Xml.Token

/-!
# The ways to write a tree

One tree can be written in many ways.  A character stands for itself or is referred to by a name
or by number; a value stands in quotes of either kind; between attributes there is more or less
white space; an element without children is one tag or two; text is plain or stands in a section
in which nothing is markup.  `Spells` is the relation between nodes and the texts that write them,
with one constructor for each way to write the first node.

* `CharSpelling`, `TextSpelling`: how a character, and a text, can be written where some
  characters have a meaning of their own.
* `AttributesSpelling`: how the attributes of a tag can be written.
* `Spells`: how nodes side by side can be written.

White space alone is no plain text, and two plain texts never stand next to each other, since they
would be read as one.
-/

namespace ServiceTypes

/-- What stands before the digits of a number in a reference. -/
def Text.Radix.mark : Radix → List Char
  | .decimal => []
  | .hexadecimal => ['x']

namespace Xml

open Text

/-! ## Characters and texts -/

/-- The name by which a character can be referred to. -/
def entityName? : Char → Option (List Char)
  | '<' => some ['l', 't']
  | '>' => some ['g', 't']
  | '&' => some ['a', 'm', 'p']
  | '\x27' => some ['a', 'p', 'o', 's']
  | '\x22' => some ['q', 'u', 'o', 't']
  | _ => none

/-- A way to write one character where the characters of `reserved` do not stand for themselves. -/
inductive CharSpelling (reserved : List Char) (c : Char) : List Char → Prop
  /-- The character itself. -/
  | literal (hc : c ∉ reserved) : CharSpelling reserved c [c]
  /-- A reference by name. -/
  | named {name : List Char} (hname : entityName? c = some name) :
    CharSpelling reserved c ('&' :: (name ++ [';']))
  /-- A reference by number.  The null character has none. -/
  | numbered {radix : Radix} {digits : List Char} (hc : c ≠ '\x00')
    (hdigits : radix.Writes c.toNat digits) :
    CharSpelling reserved c ('&' :: ('#' :: (radix.mark ++ digits) ++ [';']))

/-- A way to write a text, character by character. -/
inductive TextSpelling (reserved : List Char) : List Char → List Char → Prop
  | nil : TextSpelling reserved [] []
  | cons {c : Char} {text written more : List Char} (hc : CharSpelling reserved c written)
    (htext : TextSpelling reserved text more) :
    TextSpelling reserved (c :: text) (written ++ more)

/-! ## Tags -/

/-- Whether a character may stand in the name of an element or in the key of an attribute. -/
def isNameChar (c : Char) : Bool :=
  !c.isWhitespace && c ∉ ['<', '>', '/', '!', '?', '=', '\x22', '\x27']

/-- The names of elements and the keys of attributes that can be written in a tag. -/
def IsName (name : String) : Prop :=
  name ≠ "" ∧ ∀ c ∈ name.toList, isNameChar c = true

instance (name : String) : Decidable (IsName name) :=
  decidable_of_iff (name ≠ "" ∧ name.toList.all isNameChar = true)
    (and_congr_right fun _ => List.all_eq_true)

/-- A way to write attributes in a tag, each after some white space. -/
inductive AttributesSpelling : List (String × String) → List Char → Prop
  | nil : AttributesSpelling [] []
  | cons {key value : String} {entries : List (String × String)} {blank written more : List Char}
    {quote : Char} (hkey : IsName key) (hblank : blank ≠ [])
    (hspace : ∀ c ∈ blank, c.isWhitespace = true) (hquote : quote = '\x22' ∨ quote = '\x27')
    (hvalue : TextSpelling ['&', quote] value.toList written)
    (hentries : AttributesSpelling entries more) :
    AttributesSpelling ((key, value) :: entries)
      (blank ++ (key.toList ++ '=' :: quote :: (written ++ quote :: more)))

/-! ## Nodes -/

/-- A way to write nodes side by side.  The first argument says whether plain text stands directly
before them. -/
inductive Spells : Bool → List Node → List Char → Prop
  | nil {plain : Bool} : Spells plain [] []
  /-- An element without children as one tag. -/
  | empty {plain : Bool} {name : String} {attributes : Attributes} {siblings : List Node}
    {tail more : List Char} (hname : IsName name)
    (hattributes : AttributesSpelling attributes.entries tail)
    (hsiblings : Spells false siblings more) :
    Spells plain (.element name attributes [] :: siblings)
      ('<' :: (name.toList ++ (tail ++ '/' :: '>' :: more)))
  /-- An element as two tags with its children between them. -/
  | paired {plain : Bool} {name : String} {attributes : Attributes} {children siblings : List Node}
    {tail inner more : List Char} (hname : IsName name)
    (hattributes : AttributesSpelling attributes.entries tail)
    (hchildren : Spells false children inner) (hsiblings : Spells false siblings more) :
    Spells plain (.element name attributes children :: siblings)
      ('<' :: (name.toList ++ (tail ++ '>' :: (inner ++
        '<' :: '/' :: (name.toList ++ '>' :: more)))))
  /-- Text, with references in it. -/
  | plain {content : String} {siblings : List Node} {written more : List Char}
    (hblank : Text.allBlank content.toList = false)
    (hcontent : TextSpelling ['&', '<'] content.toList written)
    (hsiblings : Spells true siblings more) :
    Spells false (.text content :: siblings) (written ++ more)
  /-- Text in a section in which nothing is markup. -/
  | cdata {plain : Bool} {content : String} {siblings : List Node} {more : List Char}
    (hcontent : ¬ [']', ']', '>'] <:+: content.toList) (hsiblings : Spells false siblings more) :
    Spells plain (.text content :: siblings)
      ("<![CDATA[".toList ++ (content.toList ++ (']' :: ']' :: '>' :: more)))

/-- A way to write the document that consists of an element. -/
def Element.SpelledBy (root : Element) (text : List Char) : Prop :=
  Spells false [root.toNode] text

end Xml
end ServiceTypes
