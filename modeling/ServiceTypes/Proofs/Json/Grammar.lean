import ServiceTypes.Json
import ServiceTypes.Text.Radix

/-!
# The grammar of JSON

What a JSON reader takes a text for.  The grammar is the whole one, also in what is never written
here: numbers and `null`, blanks around every value and every mark, and all escapes.

* `Datum`: the values that a text can denote.
* `Body`: the inside of a string, up to its closing quote.
* `IsNumeral`: the writing of a number.
* `Reads`, `ReadsField`: a text begins with the writing of a value or a field, and the rest of the
  text is what stands behind it.
* `Denotes`: a text is the writing of a value, with nothing but blanks around it.
-/

namespace ServiceTypes
namespace Json

/-- A value that a JSON text can denote.  A number is kept as it is written. -/
inductive Datum where
  | null
  | bool (value : Bool)
  | number (literal : List Char)
  | string (value : String)
  | array (items : List Datum)
  | object (fields : List (String × Datum))

/-! ## Strings -/

/-- The character that a backslash and one more character stand for. -/
def marked? (mark : Char) : Option Char :=
  [('\x22', '\x22'), ('\x5c', '\x5c'), ('/', '/'), ('b', '\x08'), ('f', '\x0c'), ('n', '\x0a'),
    ('r', '\x0d'), ('t', '\x09')].lookup mark

/-- The number that four hexadecimal digits of either case write. -/
def codeUnit? (digits : List Char) : Option Nat :=
  if digits.length = 4 then (Text.Radix.hexadecimal.value 0 digits).toOption else none

/-- The character that two code units together stand for. -/
def Surrogates (high low : Nat) (c : Char) : Prop :=
  (0xd800 ≤ high ∧ high < 0xdc00) ∧ (0xdc00 ≤ low ∧ low < 0xe000) ∧
    c.toNat = 0x10000 + (high - 0xd800) * 0x400 + (low - 0xdc00)

/-- The inside of a string with its closing quote: the text, the value, and the rest of the text.
A single code unit that is half of a pair stands for no character. -/
inductive Body : List Char → List Char → List Char → Prop
  | close (rest : List Char) : Body ('\x22' :: rest) [] rest
  | plain {c : Char} {text value rest : List Char} (hquote : c ≠ '\x22') (hbackslash : c ≠ '\x5c')
    (hcontrol : 0x20 ≤ c.toNat) (h : Body text value rest) : Body (c :: text) (c :: value) rest
  | marked {mark c : Char} {text value rest : List Char} (hmark : marked? mark = some c)
    (h : Body text value rest) : Body ('\x5c' :: mark :: text) (c :: value) rest
  | coded {c : Char} {written digits text value rest : List Char} (htext : written = digits ++ text)
    (hcode : codeUnit? digits = some c.toNat) (h : Body text value rest) :
    Body ('\x5c' :: 'u' :: written) (c :: value) rest
  | paired {c : Char} {high low : Nat} {written first second text value rest : List Char}
    (htext : written = first ++ '\x5c' :: 'u' :: (second ++ text))
    (hfirst : codeUnit? first = some high) (hsecond : codeUnit? second = some low)
    (hc : Surrogates high low c) (h : Body text value rest) :
    Body ('\x5c' :: 'u' :: written) (c :: value) rest

/-! ## Numbers -/

/-- At least one decimal digit. -/
def IsDigits (digits : List Char) : Prop :=
  digits ≠ [] ∧ ∀ c ∈ digits, c.isDigit = true

/-- The writing of a number: a sign, digits without a leading zero, a fraction and an exponent, of
which only the digits have to be there. -/
structure IsNumeral (literal : List Char) : Prop where
  parts : ∃ sign whole fraction exponent, literal = sign ++ (whole ++ (fraction ++ exponent)) ∧
    (sign = [] ∨ sign = ['-']) ∧
    (IsDigits whole ∧ (whole.head? = some '0' → whole = ['0'])) ∧
    (fraction = [] ∨ ∃ digits, fraction = '.' :: digits ∧ IsDigits digits) ∧
    (exponent = [] ∨ ∃ mark power digits, exponent = mark :: (power ++ digits) ∧
      (mark = 'e' ∨ mark = 'E') ∧ (power = [] ∨ power = ['+'] ∨ power = ['-']) ∧ IsDigits digits)

/-! ## Values -/

/-- A text without the blanks at its beginning. -/
def skip (text : List Char) : List Char :=
  text.dropWhile Char.isWhitespace

section Series

variable {α : Type}

/-- At least one entry, with commas between the entries and a closing mark behind the last one. -/
inductive Listed (reads : List Char → α → List Char → Prop) (stop : Char) :
    List Char → List α → List Char → Prop
  | last {text between rest : List Char} {entry : α} (hentry : reads text entry between)
    (hstop : skip between = stop :: rest) : Listed reads stop text [entry] rest
  | more {text between after rest : List Char} {entry : α} {entries : List α}
    (hentry : reads text entry between) (hcomma : skip between = ',' :: after)
    (hmore : Listed reads stop (skip after) entries rest) :
    Listed reads stop text (entry :: entries) rest

/-- Any number of entries, with commas between them and a closing mark behind. -/
inductive Series (reads : List Char → α → List Char → Prop) (stop : Char) :
    List Char → List α → List Char → Prop
  | none (rest : List Char) : Series reads stop (stop :: rest) [] rest
  | some {text rest : List Char} {entries : List α} (h : Listed reads stop text entries rest) :
    Series reads stop text entries rest

end Series

mutual

/-- A text begins with the writing of a value: the text, the value, and the rest of the text. -/
inductive Reads : List Char → Datum → List Char → Prop
  | null (rest : List Char) : Reads ('n' :: 'u' :: 'l' :: 'l' :: rest) .null rest
  | true (rest : List Char) : Reads ('t' :: 'r' :: 'u' :: 'e' :: rest) (.bool true) rest
  | false (rest : List Char) : Reads ('f' :: 'a' :: 'l' :: 's' :: 'e' :: rest) (.bool false) rest
  | number {text literal rest : List Char} (htext : text = literal ++ rest)
    (hliteral : IsNumeral literal) : Reads text (.number literal) rest
  | string {text value rest : List Char} (h : Body text value rest) :
    Reads ('\x22' :: text) (.string (String.ofList value)) rest
  | array {text rest : List Char} {items : List Datum}
    (h : Series Reads ']' (skip text) items rest) : Reads ('[' :: text) (.array items) rest
  | object {text rest : List Char} {fields : List (String × Datum)}
    (h : Series ReadsField '\x7d' (skip text) fields rest) :
    Reads ('\x7b' :: text) (.object fields) rest

/-- A text begins with the writing of a field: a name in quotes, a colon and a value. -/
inductive ReadsField : List Char → String × Datum → List Char → Prop
  | mk {text name between after rest : List Char} {value : Datum} (hname : Body text name between)
    (hcolon : skip between = ':' :: after) (hvalue : Reads (skip after) value rest) :
    ReadsField ('\x22' :: text) (String.ofList name, value) rest

end

/-- A text denotes a value: it is the writing of that value and is used up by it, apart from
blanks. -/
def Denotes (text : String) (datum : Datum) : Prop :=
  ∃ rest, Reads (skip text.toList) datum rest ∧ skip rest = []

end Json
end ServiceTypes
