import ServiceTypes.Xml.Tag

/-!
# Events of a document, and misreadings

A document is read as a sequence of events, each a tag, a run of text or a piece of markup that
has no part in the tree.  Text and attribute values are kept as written, so that resolving the
references in them is left to whoever wants them.

A text that cannot be divided into events is misread at some point.  A `Misread` gives the cause
and the text that was still unread at the place to which the fault is put down; `Misread.position`
turns that into a count of the bytes before it.  The reading of the rest of a text never depends
on how much came before, and the misreading does not either.
-/

namespace ServiceTypes
namespace Xml

open Text

/-- One event of a document. -/
inductive Event where
  /-- A tag that opens an element. -/
  | startTag (tag : Tag)
  /-- A tag that is an element without content. -/
  | emptyTag (tag : Tag)
  /-- A tag that closes the element of that name. -/
  | endTag (name : List Char)
  /-- Text as written, up to the next tag or markup. -/
  | text (raw : List Char)
  /-- The content of a section in which nothing is markup. -/
  | cdata (content : List Char)
  /-- The content of a comment. -/
  | comment (content : List Char)
  /-- A processing instruction or the declaration of the document. -/
  | instruction (content : List Char)
  /-- The document type. -/
  | doctype (content : List Char)
  deriving DecidableEq, Repr

/-- The constructs in which a text may end too early. -/
inductive Construct where
  | bang
  | comment
  | cdata
  | doctype
  | instruction
  | element
  deriving DecidableEq, Repr

/-- The word for a construct in messages. -/
def Construct.name : Construct → String
  | .bang => "Bang"
  | .comment => "Comment"
  | .cdata => "CData"
  | .doctype => "DOCTYPE"
  | .instruction => "XmlDecl"
  | .element => "Element"

/-- Why a text cannot be read on. -/
inductive Misreading where
  /-- The construct has no proper end, or not its proper opening. -/
  | cutOff (construct : Construct)
  /-- No construct starts with an exclamation mark and this character, shown by its first byte. -/
  | unknownMark (symbol : Char)
  /-- A document type says nothing. -/
  | emptyDoctype
  /-- An end tag closes another name than the innermost open one. -/
  | mismatch (expected found : List Char)
  deriving DecidableEq, Repr

/-- What is said of a text that cannot be read on. -/
def Misreading.message : Misreading → String
  | .cutOff construct => "Unexpected EOF during reading " ++ construct.name
  | .unknownMark symbol =>
    "Only Comment (`--`), CDATA (`[CDATA[`) and DOCTYPE (`DOCTYPE`) nodes can start with a '!', " ++
      "but symbol `" ++ String.singleton symbol ++ "` found"
  | .emptyDoctype => "DOCTYPE declaration must not be empty"
  | .mismatch expected found =>
    "Expecting </" ++ String.ofList expected ++ "> found </" ++ String.ofList found ++ ">"

/-- A misreading, and the text that is unread at its place. -/
structure Misread where
  cause : Misreading
  unread : List Char
  deriving DecidableEq, Repr

/-- The number of bytes of a text before the place of a misreading of it. -/
def Misread.position (text : List Char) (misread : Misread) : Nat :=
  byteCount text - byteCount misread.unread

end Xml
end ServiceTypes
