import ServiceTypes.Text.Bytes
import ServiceTypes.Text.Literal
import ServiceTypes.Text.Radix

/-!
# Character references

In the text of an element and in the value of an attribute, `&` starts a reference: a body that
ends at the next `;` and stands for one character.  A body is one of the five predefined names, or
`#` with decimal digits, or `#x` with hexadecimal digits.  Nothing else is known; in particular a
document cannot declare names of its own, and a resolved character is never looked at again.

* `numbered`: the character with a code point that is given by its digits.
* `referenced`: the character that one body stands for.
* `resolve`: a text with every reference replaced by its character.

A fault names the place of the reference by byte offsets into the text that is resolved.
-/

namespace ServiceTypes

/-- The longest run of digits that is read in a reference, in bytes. -/
def Text.Radix.maxBytes : Radix → Nat
  | .decimal => 7
  | .hexadecimal => 6

namespace Xml

open Text

/-- Why a text cannot be resolved.  Offsets are counted in bytes. -/
inductive ReferenceFault where
  /-- No `;` follows the `&` at `start` before the next `&` or the end of the text at `stop`. -/
  | unterminated (start stop : Nat)
  /-- The body between the two offsets is none of the known forms. -/
  | unrecognized (start stop : Nat) (body : List Char)
  /-- The reference between the two offsets stands for the null character. -/
  | null (start stop : Nat)
  /-- There are more digits than are read. -/
  | tooLong (radix : Radix)
  /-- A character that is no digit, shown by its first byte. -/
  | badDigit (radix : Radix) (symbol : Char)
  /-- The number is not the code point of a character. -/
  | notACharacter (code : Nat)
  deriving DecidableEq, Repr

/-- What is said of a reference that cannot be resolved. -/
def ReferenceFault.message : ReferenceFault → String
  | .unterminated start stop => located start stop ++ "Cannot find ';' after '&'"
  | .unrecognized start stop body =>
    located start stop ++ "Unrecognized escape symbol: " ++ literal body
  | .null start stop => located start stop ++ "Null character entity not allowed"
  | .tooLong radix => "Cannot convert " ++ radix.name ++ " to utf8"
  | .badDigit radix symbol =>
    "'" ++ String.singleton symbol ++ "' is not a valid " ++ radix.name ++ " character"
  | .notACharacter code => "'" ++ toString code ++ "' is not a valid codepoint"
where
  /-- The words that give the place of a fault. -/
  located (start stop : Nat) : String :=
    "Error while escaping character at range " ++ toString start ++ ".." ++ toString stop ++ ": "

/-- The names that need no declaration. -/
def predefined : List (List Char × Char) :=
  [(['l', 't'], '<'), (['g', 't'], '>'), (['a', 'm', 'p'], '&'),
    (['a', 'p', 'o', 's'], '\x27'), (['q', 'u', 'o', 't'], '\x22')]

/-- The character with the code point that `digits` write, for the reference between two offsets. -/
def numbered (radix : Radix) (start stop : Nat) (digits : List Char) : Except ReferenceFault Char :=
  if radix.maxBytes < byteCount digits then .error (.tooLong radix)
  else match radix.value 0 digits with
    | .error c => .error (.badDigit radix (leadingByte c))
    | .ok code =>
      if code = 0 then .error (.null start stop)
      else if code.isValidChar then .ok (Char.ofNat code)
      else .error (.notACharacter code)

/-- The character that the body of a reference stands for.  The `&` is at `start` and the `;` at
`stop`. -/
def referenced (start stop : Nat) (body : List Char) : Except ReferenceFault Char :=
  match predefined.lookup body with
  | some c => .ok c
  | none =>
    match body with
    | '#' :: 'x' :: digits => numbered .hexadecimal start stop digits
    | '#' :: digits => numbered .decimal start stop digits
    | _ => .error (.unrecognized (start + 1) stop body)

/-- Whether a character may stand in the body of a reference. -/
def inBody (c : Char) : Bool :=
  c ≠ '&' && c ≠ ';'

/-- Resolve the rest of a text, which starts at the byte `offset`; `resolved` is what the text
before it came to, latest character first. -/
def resolveFrom (offset : Nat) (resolved : List Char) :
    List Char → Except ReferenceFault (List Char)
  | [] => .ok resolved.reverse
  | c :: text =>
    if c = '&' then
      let body := text.takeWhile inBody
      let stop := offset + 1 + byteCount body
      match h : text.dropWhile inBody with
      | ';' :: after =>
        match referenced offset stop body with
        | .ok c => resolveFrom (stop + 1) (c :: resolved) after
        | .error fault => .error fault
      | _ => .error (.unterminated offset (offset + 1 + byteCount text))
    else resolveFrom (offset + c.utf8Size) (c :: resolved) text
termination_by text => text.length
decreasing_by
  · have := (List.dropWhile_suffix inBody (l := text)).length_le
    rw [h] at this
    simp only [List.length_cons] at this ⊢
    omega
  · simp

/-- A text with every reference replaced by the character that it stands for. -/
def resolve (text : List Char) : Except ReferenceFault (List Char) :=
  resolveFrom 0 [] text

end Xml
end ServiceTypes
