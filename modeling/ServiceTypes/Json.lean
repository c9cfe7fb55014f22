/-!
# JSON values and their compact text

The definitions that the library lists are handed to code generators as JSON.  A definition needs
four kinds of value: strings, truth values, arrays, and objects whose fields keep the order in
which they were written.  Numbers and `null` do not occur and are left out.

* `Json`: the values.
* `Json.compact`: the text of a value without any space.  A string is quoted; a quote, a backslash
  and the control characters below the space are escaped, and every other character stands for
  itself.  `chars_string`, `chars_array` and `chars_object` say how the text of a value is put
  together.
-/

namespace ServiceTypes

/-- A JSON value. -/
inductive Json where
  | string (value : String)
  | bool (value : Bool)
  | array (items : List Json)
  | object (fields : List (String × Json))

namespace Json

/-- How one character is written inside a string. -/
def escapeChar (c : Char) : List Char :=
  if c = '\x22' ∨ c = '\x5c' then ['\x5c', c]
  else if c = '\x08' then ['\x5c', 'b']
  else if c = '\x09' then ['\x5c', 't']
  else if c = '\x0a' then ['\x5c', 'n']
  else if c = '\x0c' then ['\x5c', 'f']
  else if c = '\x0d' then ['\x5c', 'r']
  else if c.toNat < 0x20 then
    ['\x5c', 'u', '0', '0', Nat.digitChar (c.toNat / 16), Nat.digitChar (c.toNat % 16)]
  else [c]

/-- A string in quotes. -/
def quote (s : String) : List Char :=
  '\x22' :: (s.toList.flatMap escapeChar ++ ['\x22'])

/-- Pieces one after the other, with a comma between neighbours. -/
def separate (pieces : List (List Char)) : List Char :=
  (pieces.intersperse [',']).flatten

mutual

/-- The compact text of a value, as a list of characters. -/
def chars : Json → List Char
  | .string value => quote value
  | .bool true => "true".toList
  | .bool false => "false".toList
  | .array items => '[' :: (separate (itemsFrom [] items) ++ [']'])
  | .object fields => '\x7b' :: (separate (fieldsFrom [] fields) ++ ['\x7d'])

/-- The texts of the items of an array, after the texts `done`, which are latest first. -/
def itemsFrom (done : List (List Char)) : List Json → List (List Char)
  | [] => done.reverse
  | item :: items => itemsFrom (chars item :: done) items

/-- The texts of the fields of an object, each a quoted name, a colon and a value, after the texts
`done`, which are latest first. -/
def fieldsFrom (done : List (List Char)) : List (String × Json) → List (List Char)
  | [] => done.reverse
  | (name, value) :: fields => fieldsFrom ((quote name ++ ':' :: chars value) :: done) fields

end

theorem itemsFrom_eq (done : List (List Char)) (items : List Json) :
    itemsFrom done items = done.reverse ++ items.map chars := by
  induction items generalizing done with
  | nil => simp [itemsFrom]
  | cons item items ih => simp [itemsFrom, ih]

theorem fieldsFrom_eq (done : List (List Char)) (fields : List (String × Json)) :
    fieldsFrom done fields =
      done.reverse ++ fields.map fun field => quote field.1 ++ ':' :: chars field.2 := by
  induction fields generalizing done with
  | nil => simp [fieldsFrom]
  | cons field fields ih => simp [fieldsFrom, ih]

@[simp] theorem chars_string (value : String) : chars (.string value) = quote value := by
  rw [chars]

@[simp] theorem chars_array (items : List Json) :
    chars (.array items) = '[' :: (separate (items.map chars) ++ [']']) := by
  rw [chars, itemsFrom_eq, List.reverse_nil, List.nil_append]

@[simp] theorem chars_object (fields : List (String × Json)) :
    chars (.object fields) =
      '\x7b' :: (separate (fields.map fun field => quote field.1 ++ ':' :: chars field.2)
        ++ ['\x7d']) := by
  rw [chars, fieldsFrom_eq, List.reverse_nil, List.nil_append]

/-- The compact text of a value. -/
def compact (value : Json) : String :=
  String.ofList value.chars

end Json
end ServiceTypes
