import ServiceTypes.Text.Unprintable

/-!
# Quoted literals

A message that quotes text out of a document shows it as a literal in double quotes, so that the
reader of the message sees where the text ends and what stands in it.  A quote and a backslash are
preceded by a backslash, the null character and the three usual control characters have letters, and
every other character without a glyph is shown by its code point in lower-case hexadecimal.
-/

namespace ServiceTypes
namespace Text

/-- How one character is shown in a literal. -/
def literalChar (c : Char) : List Char :=
  if c = '\x22' ∨ c = '\x5c' then ['\x5c', c]
  else if c = '\x00' then ['\x5c', '0']
  else if c = '\x09' then ['\x5c', 't']
  else if c = '\x0a' then ['\x5c', 'n']
  else if c = '\x0d' then ['\x5c', 'r']
  else if isUnprintable c then ['\x5c', 'u', '\x7b'] ++ Nat.toDigits 16 c.toNat ++ ['\x7d']
  else [c]

/-- A text as a literal in double quotes. -/
def literal (text : List Char) : String :=
  String.ofList ('\x22' :: text.flatMap literalChar ++ ['\x22'])

end Text
end ServiceTypes
