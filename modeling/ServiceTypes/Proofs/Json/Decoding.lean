import Mathlib.Tactic.SplitIfs
import ServiceTypes.Proofs.Json.Grammar

/-!
# The compact text of a JSON value can be read back

The compact text of a value is the writing of that value and of no other, and a reader knows where
it ends: whatever text is put behind it, what is read is the value, and what is left is that text.

* `body_escapeChar_iff`, `body_quote_iff`: what a character and a string are read as.
* `Settles`: a piece of text that is read in one way only, whatever stands behind it.
* `series_separate_iff`: pieces of that kind with commas between them.
* `inductionOn`: induction on values, with the items of an array and the values of an object at
  hand.
* `denotes_compact_iff`: what the compact text of a value denotes.
-/

namespace ServiceTypes
namespace Json

/-! ## Strings -/

section Escapes

variable {c mark : Char} {text digits value rest : List Char}

theorem body_plain_iff (hquote : c ≠ '\x22') (hbackslash : c ≠ '\x5c')
    (hcontrol : 0x20 ≤ c.toNat) :
    Body (c :: text) value rest ↔ ∃ tail, value = c :: tail ∧ Body text tail rest := by
  constructor
  · intro h
    cases h with
    | close => exact absurd rfl hquote
    | plain _ _ _ h => exact ⟨_, rfl, h⟩
    | marked => exact absurd rfl hbackslash
    | coded => exact absurd rfl hbackslash
    | paired => exact absurd rfl hbackslash
  · rintro ⟨tail, rfl, h⟩
    exact Body.plain hquote hbackslash hcontrol h

theorem body_marked_iff (hmark : marked? mark = some c) :
    Body ('\x5c' :: mark :: text) value rest ↔ ∃ tail, value = c :: tail ∧ Body text tail rest := by
  have hu : marked? 'u' = none := by decide
  constructor
  · intro h
    cases h with
    | plain _ hbackslash => exact absurd rfl hbackslash
    | marked hmark' h =>
      obtain rfl := Option.some.inj (hmark.symm.trans hmark')
      exact ⟨_, rfl, h⟩
    | coded =>
      rw [hu] at hmark
      cases hmark
    | paired =>
      rw [hu] at hmark
      cases hmark
  · rintro ⟨tail, rfl, h⟩
    exact Body.marked hmark h

theorem length_of_codeUnit? {unit : Nat} (h : codeUnit? digits = some unit) :
    digits.length = 4 := by
  rw [codeUnit?] at h
  split at h
  · assumption
  · cases h

/-- A character is not half of a pair of code units. -/
theorem not_surrogates_toNat {low : Nat} {c' : Char} : ¬ Surrogates c.toNat low c' := by
  rintro ⟨⟨hleast, hmost⟩, -, -⟩
  rcases c.valid with hlow | ⟨hhigh, -⟩
  · exact absurd hlow (Nat.not_lt.mpr hleast)
  · have hhigh : 0xdfff < c.toNat := hhigh
    omega

theorem body_coded_iff (hcode : codeUnit? digits = some c.toNat) :
    Body ('\x5c' :: 'u' :: (digits ++ text)) value rest ↔
      ∃ tail, value = c :: tail ∧ Body text tail rest := by
  have hu : marked? 'u' = none := by decide
  have hlength := length_of_codeUnit? hcode
  constructor
  · intro h
    cases h with
    | plain _ hbackslash => exact absurd rfl hbackslash
    | marked hmark =>
      rw [hu] at hmark
      cases hmark
    | coded htext hcode' h =>
      obtain ⟨rfl, rfl⟩ :=
        List.append_inj htext (hlength.trans (length_of_codeUnit? hcode').symm)
      obtain rfl := Char.toNat_inj.mp (Option.some.inj (hcode.symm.trans hcode'))
      exact ⟨_, rfl, h⟩
    | paired htext hfirst _ hc =>
      obtain ⟨rfl, -⟩ := List.append_inj htext (hlength.trans (length_of_codeUnit? hfirst).symm)
      obtain rfl := Option.some.inj (hcode.symm.trans hfirst)
      exact absurd hc not_surrogates_toNat
  · rintro ⟨tail, rfl, h⟩
    exact Body.coded rfl hcode h

end Escapes

/-- The four digits for a control character write its code. -/
theorem codeUnit?_digitChar {n : Nat} (h : n < 0x20) :
    codeUnit? ['0', '0', Nat.digitChar (n / 16), Nat.digitChar (n % 16)] = some n := by
  have hall : ∀ n : Fin 0x20,
      codeUnit? ['0', '0', Nat.digitChar (n / 16), Nat.digitChar (n % 16)] = some n.val := by
    decide
  exact hall ⟨n, h⟩

/-- A written character is read as itself, in whichever way it is written. -/
theorem body_escapeChar_iff (c : Char) {text value rest : List Char} :
    Body (escapeChar c ++ text) value rest ↔ ∃ tail, value = c :: tail ∧ Body text tail rest := by
  rw [escapeChar]
  split
  · next hself =>
    rcases hself with rfl | rfl
    · exact body_marked_iff rfl
    · exact body_marked_iff rfl
  · next hself =>
    rw [not_or] at hself
    split_ifs with hb ht hn hf hr hcontrol
    · subst hb; exact body_marked_iff rfl
    · subst ht; exact body_marked_iff rfl
    · subst hn; exact body_marked_iff rfl
    · subst hf; exact body_marked_iff rfl
    · subst hr; exact body_marked_iff rfl
    · exact body_coded_iff (codeUnit?_digitChar hcontrol)
    · exact body_plain_iff hself.1 hself.2 (Nat.not_lt.mp hcontrol)

/-- A written string is read as itself and ends at its quote. -/
theorem body_quote_iff (written : List Char) {text value rest : List Char} :
    Body (written.flatMap escapeChar ++ '\x22' :: text) value rest ↔
      value = written ∧ rest = text := by
  induction written generalizing value with
  | nil =>
    constructor
    · intro h
      cases h with
      | close => exact ⟨rfl, rfl⟩
      | plain hquote => exact absurd rfl hquote
    · rintro ⟨rfl, rfl⟩
      exact Body.close _
  | cons c written ih =>
    rw [List.flatMap_cons, List.append_assoc, body_escapeChar_iff]
    simp only [ih]
    constructor
    · rintro ⟨tail, rfl, rfl, rfl⟩
      exact ⟨rfl, rfl⟩
    · rintro ⟨rfl, rfl⟩
      exact ⟨written, rfl, rfl, rfl⟩

/-! ## Pieces with commas between them -/

theorem skip_cons {c : Char} (h : c.isWhitespace = false) (text : List Char) :
    skip (c :: text) = c :: text := by
  rw [skip, List.dropWhile_cons_of_neg (by simp [h])]

theorem separate_singleton (piece : List Char) : separate [piece] = piece := by
  simp [separate]

theorem separate_cons_cons (piece next : List Char) (pieces : List (List Char)) :
    separate (piece :: next :: pieces) = piece ++ ',' :: separate (next :: pieces) := by
  simp [separate, List.intersperse]

/-- Pieces put together begin with the first one. -/
theorem exists_separate_cons (piece : List Char) (pieces : List (List Char)) :
    ∃ more, separate (piece :: pieces) = piece ++ more := by
  rcases pieces with _ | ⟨next, pieces⟩
  · exact ⟨[], by rw [separate_singleton, List.append_nil]⟩
  · exact ⟨_, separate_cons_cons piece next pieces⟩

section Series

variable {α β : Type} {reads : List Char → α → List Char → Prop} {stop : Char}
  {pieces : β → List Char} {entries : β → α}

/-- A piece of text that is read as one entry and in no other way, whatever stands behind it, and
that starts without a blank. -/
structure Settles (reads : List Char → α → List Char → Prop) (piece : List Char) (entry : α) :
    Prop where
  start : ∃ c more, piece = c :: more ∧ c.isWhitespace = false
  reads_iff : ∀ text found rest, reads (piece ++ text) found rest ↔ found = entry ∧ rest = text

theorem Settles.skip_append {piece : List Char} {entry : α} (h : Settles reads piece entry)
    (text : List Char) : skip (piece ++ text) = piece ++ text := by
  obtain ⟨c, more, rfl, hc⟩ := h.start
  exact skip_cons hc _

theorem skip_separate {item : β} {items : List β} {entry : α}
    (h : Settles reads (pieces item) entry) (text : List Char) :
    skip (separate ((item :: items).map pieces) ++ text) =
      separate ((item :: items).map pieces) ++ text := by
  obtain ⟨more, hmore⟩ := exists_separate_cons (pieces item) (items.map pieces)
  rw [List.map_cons, hmore, List.append_assoc]
  exact h.skip_append _

/-- One piece or more are read one after the other, up to the closing mark. -/
theorem listed_separate_iff (hcomma : stop ≠ ',') (hstop : stop.isWhitespace = false) {item : β}
    {items : List β} (h : ∀ i ∈ item :: items, Settles reads (pieces i) (entries i))
    {text rest : List Char} {found : List α} :
    Listed reads stop (separate ((item :: items).map pieces) ++ stop :: text) found rest ↔
      found = (item :: items).map entries ∧ rest = text := by
  induction items generalizing item found with
  | nil =>
    have hitem := h item List.mem_cons_self
    rw [List.map_singleton, separate_singleton]
    constructor
    · intro hlisted
      cases hlisted with
      | last hentry hend =>
        obtain ⟨rfl, rfl⟩ := (hitem.reads_iff _ _ _).mp hentry
        rw [skip_cons hstop] at hend
        exact ⟨rfl, (List.cons.inj hend).2.symm⟩
      | more hentry hnext =>
        obtain ⟨-, rfl⟩ := (hitem.reads_iff _ _ _).mp hentry
        rw [skip_cons hstop] at hnext
        exact absurd (List.cons.inj hnext).1 hcomma
    · rintro ⟨rfl, rfl⟩
      exact Listed.last ((hitem.reads_iff _ _ _).mpr ⟨rfl, rfl⟩) (skip_cons hstop _)
  | cons next items ih =>
    have hitem := h item List.mem_cons_self
    have hrest : ∀ i ∈ next :: items, Settles reads (pieces i) (entries i) :=
      fun i hi => h i (List.mem_cons_of_mem _ hi)
    have hblank : Char.isWhitespace ',' = false := by decide
    -- behind the comma the next piece begins at once
    have hskip : skip (separate ((next :: items).map pieces) ++ stop :: text) =
        separate ((next :: items).map pieces) ++ stop :: text :=
      skip_separate (hrest next List.mem_cons_self) _
    rw [List.map_cons, List.map_cons, separate_cons_cons, ← List.map_cons, List.append_assoc,
      List.cons_append]
    constructor
    · intro hlisted
      cases hlisted with
      | last hentry hend =>
        obtain ⟨-, rfl⟩ := (hitem.reads_iff _ _ _).mp hentry
        rw [skip_cons hblank] at hend
        exact absurd (List.cons.inj hend).1.symm hcomma
      | more hentry hmark hmore =>
        obtain ⟨rfl, rfl⟩ := (hitem.reads_iff _ _ _).mp hentry
        rw [skip_cons hblank] at hmark
        obtain ⟨-, rfl⟩ := List.cons.inj hmark
        rw [hskip] at hmore
        obtain ⟨rfl, rfl⟩ := (ih hrest).mp hmore
        exact ⟨rfl, rfl⟩
    · rintro ⟨rfl, rfl⟩
      refine Listed.more ((hitem.reads_iff _ _ _).mpr ⟨rfl, rfl⟩) (skip_cons hblank _) ?_
      rw [hskip]
      exact (ih hrest).mpr ⟨rfl, rfl⟩

/-- **Pieces with commas between them** are read one after the other, up to the closing mark, which
starts no piece. -/
theorem series_separate_iff (hcomma : stop ≠ ',') (hstop : stop.isWhitespace = false)
    (hnone : ∀ text entry rest, ¬ reads (stop :: text) entry rest) {items : List β}
    (h : ∀ i ∈ items, Settles reads (pieces i) (entries i)) {text rest : List Char}
    {found : List α} :
    Series reads stop (skip (separate (items.map pieces) ++ stop :: text)) found rest ↔
      found = items.map entries ∧ rest = text := by
  rcases items with _ | ⟨item, items⟩
  · have hskip : skip (separate (([] : List β).map pieces) ++ stop :: text) = stop :: text :=
      skip_cons hstop text
    rw [hskip]
    constructor
    · intro hseries
      cases hseries with
      | none => exact ⟨rfl, rfl⟩
      | some hlisted =>
        cases hlisted with
        | last hentry => exact absurd hentry (hnone _ _ _)
        | more hentry => exact absurd hentry (hnone _ _ _)
    · rintro ⟨rfl, rfl⟩
      exact Series.none _
  · have hitem := h item List.mem_cons_self
    rw [skip_separate hitem]
    constructor
    · intro hseries
      generalize hwhole : separate ((item :: items).map pieces) ++ stop :: text = whole at hseries
      cases hseries with
      | none =>
        -- the first piece would start with the closing mark
        obtain ⟨more, hmore⟩ := exists_separate_cons (pieces item) (items.map pieces)
        rw [List.map_cons, hmore, List.append_assoc] at hwhole
        have hentry := (hitem.reads_iff (more ++ stop :: text) _ _).mpr ⟨rfl, rfl⟩
        rw [hwhole] at hentry
        exact absurd hentry (hnone _ _ _)
      | some hlisted =>
        rw [← hwhole] at hlisted
        exact (listed_separate_iff hcomma hstop h).mp hlisted
    · intro hfound
      exact Series.some ((listed_separate_iff hcomma hstop h).mpr hfound)

end Series

/-! ## Values -/

/-- Induction on values, with the items of an array and the values of an object at hand. -/
@[elab_as_elim]
theorem inductionOn {P : Json → Prop} (json : Json) (string : ∀ value, P (.string value))
    (bool : ∀ value, P (.bool value))
    (array : ∀ items : List Json, (∀ item ∈ items, P item) → P (.array items))
    (object : ∀ fields : List (String × Json), (∀ field ∈ fields, P field.2) → P (.object fields)) :
    P json := by
  refine @Json.rec P (fun items => ∀ item ∈ items, P item)
    (fun fields => ∀ field ∈ fields, P field.2) (fun field => P field.2)
    string bool array object ?_ ?_ ?_ ?_ ?_ json
  · simp
  · intro item items hitem hitems
    exact List.forall_mem_cons.mpr ⟨hitem, hitems⟩
  · simp
  · intro field fields hfield hfields
    exact List.forall_mem_cons.mpr ⟨hfield, hfields⟩
  · exact fun _ _ hvalue => hvalue

mutual

/-- A value as one that a text can denote. -/
def datum : Json → Datum
  | .string value => .string value
  | .bool value => .bool value
  | .array items => .array (itemData items)
  | .object fields => .object (fieldData fields)

/-- The items of an array as values that a text can denote. -/
def itemData : List Json → List Datum
  | [] => []
  | item :: items => datum item :: itemData items

/-- The fields of an object as values that a text can denote. -/
def fieldData : List (String × Json) → List (String × Datum)
  | [] => []
  | (name, value) :: fields => (name, datum value) :: fieldData fields

end

@[simp] theorem datum_string (value : String) : datum (.string value) = .string value := by
  rw [datum]

@[simp] theorem datum_bool (value : Bool) : datum (.bool value) = .bool value := by
  rw [datum]

@[simp] theorem datum_array (items : List Json) :
    datum (.array items) = .array (items.map datum) := by
  have hitems : itemData items = items.map datum := by
    induction items with
    | nil => rw [itemData, List.map_nil]
    | cons item items ih => rw [itemData, List.map_cons, ih]
  rw [datum, hitems]

@[simp] theorem datum_object (fields : List (String × Json)) :
    datum (.object fields) = .object (fields.map fun field => (field.1, field.2.datum)) := by
  have hfields : fieldData fields = fields.map fun field => (field.1, field.2.datum) := by
    induction fields with
    | nil => rw [fieldData, List.map_nil]
    | cons field fields ih => rw [fieldData, List.map_cons, ih]
  rw [datum, hfields]

/-! ## What a value is read as -/

theorem IsNumeral.start {literal : List Char} (h : IsNumeral literal) :
    ∃ c more, literal = c :: more ∧ (c = '-' ∨ c.isDigit = true) := by
  obtain ⟨sign, whole, fraction, exponent, rfl, hsign, ⟨⟨hsome, hdigits⟩, -⟩, -, -⟩ := h.parts
  rcases hsign with rfl | rfl
  · obtain ⟨c, more, rfl⟩ := List.exists_cons_of_ne_nil hsome
    exact ⟨c, _, rfl, Or.inr (hdigits c List.mem_cons_self)⟩
  · exact ⟨'-', _, rfl, Or.inl rfl⟩

section Heads

variable {text rest : List Char} {datum : Datum}

/-- What starts with another character is no number. -/
theorem not_isNumeral {c : Char} {literal : List Char} (hsign : c ≠ '-')
    (hdigit : c.isDigit = false) (htext : c :: text = literal ++ rest) : ¬ IsNumeral literal := by
  intro h
  obtain ⟨first, more, rfl, hfirst⟩ := h.start
  obtain ⟨rfl, -⟩ := List.cons.inj htext
  rcases hfirst with rfl | hfirst
  · exact hsign rfl
  · rw [hdigit] at hfirst
    cases hfirst

theorem reads_string_iff :
    Reads ('\x22' :: text) datum rest ↔
      ∃ value, datum = .string (String.ofList value) ∧ Body text value rest := by
  constructor
  · intro h
    cases h with
    | number htext hliteral => exact absurd hliteral (not_isNumeral (by decide) (by decide) htext)
    | string h => exact ⟨_, rfl, h⟩
  · rintro ⟨value, rfl, h⟩
    exact Reads.string h

theorem reads_array_iff :
    Reads ('[' :: text) datum rest ↔
      ∃ items, datum = .array items ∧ Series Reads ']' (skip text) items rest := by
  constructor
  · intro h
    cases h with
    | number htext hliteral => exact absurd hliteral (not_isNumeral (by decide) (by decide) htext)
    | array h => exact ⟨_, rfl, h⟩
  · rintro ⟨items, rfl, h⟩
    exact Reads.array h

theorem reads_object_iff :
    Reads ('\x7b' :: text) datum rest ↔
      ∃ fields, datum = .object fields ∧ Series ReadsField '\x7d' (skip text) fields rest := by
  constructor
  · intro h
    cases h with
    | number htext hliteral => exact absurd hliteral (not_isNumeral (by decide) (by decide) htext)
    | object h => exact ⟨_, rfl, h⟩
  · rintro ⟨fields, rfl, h⟩
    exact Reads.object h

theorem reads_true_iff :
    Reads ('t' :: 'r' :: 'u' :: 'e' :: text) datum rest ↔ datum = .bool true ∧ rest = text := by
  constructor
  · intro h
    cases h with
    | true => exact ⟨rfl, rfl⟩
    | number htext hliteral => exact absurd hliteral (not_isNumeral (by decide) (by decide) htext)
  · rintro ⟨rfl, rfl⟩
    exact Reads.true _

theorem reads_false_iff :
    Reads ('f' :: 'a' :: 'l' :: 's' :: 'e' :: text) datum rest ↔
      datum = .bool false ∧ rest = text := by
  constructor
  · intro h
    cases h with
    | false => exact ⟨rfl, rfl⟩
    | number htext hliteral => exact absurd hliteral (not_isNumeral (by decide) (by decide) htext)
  · rintro ⟨rfl, rfl⟩
    exact Reads.false _

/-- No item starts with the mark that closes an array. -/
theorem not_reads_close : ¬ Reads (']' :: text) datum rest := by
  intro h
  cases h with
  | number htext hliteral => exact absurd hliteral (not_isNumeral (by decide) (by decide) htext)

/-- No field starts with the mark that closes an object. -/
theorem not_readsField_close {field : String × Datum} :
    ¬ ReadsField ('\x7d' :: text) field rest := by
  intro h
  cases h

end Heads

theorem quote_append (value : String) (text : List Char) :
    quote value ++ text = '\x22' :: (value.toList.flatMap escapeChar ++ '\x22' :: text) := by
  rw [quote, List.cons_append, List.append_assoc, List.singleton_append]

theorem settles_quote (value : String) : Settles Reads (quote value) (.string value) := by
  refine ⟨⟨_, _, rfl, by decide⟩, fun text found rest => ?_⟩
  rw [quote_append, reads_string_iff]
  simp only [body_quote_iff]
  constructor
  · rintro ⟨written, rfl, rfl, rfl⟩
    exact ⟨by rw [String.ofList_toList], rfl⟩
  · rintro ⟨rfl, rfl⟩
    exact ⟨value.toList, by rw [String.ofList_toList], rfl, rfl⟩

/-- The text of a field is read as its name and its value. -/
theorem settles_field (name : String) {piece : List Char} {entry : Datum}
    (h : Settles Reads piece entry) :
    Settles ReadsField (quote name ++ ':' :: piece) (name, entry) := by
  have hblank : Char.isWhitespace ':' = false := by decide
  refine ⟨⟨_, _, rfl, by decide⟩, fun text found rest => ?_⟩
  rw [List.append_assoc, quote_append, List.cons_append]
  constructor
  · intro hfield
    cases hfield with
    | mk hname hcolon hvalue =>
      obtain ⟨rfl, rfl⟩ := (body_quote_iff _).mp hname
      rw [skip_cons hblank] at hcolon
      obtain ⟨-, rfl⟩ := List.cons.inj hcolon
      rw [h.skip_append] at hvalue
      obtain ⟨rfl, rfl⟩ := (h.reads_iff _ _ _).mp hvalue
      exact ⟨by rw [String.ofList_toList], rfl⟩
  · rintro ⟨rfl, rfl⟩
    have hvalue : Reads (skip (piece ++ rest)) entry rest := by
      rw [h.skip_append]
      exact (h.reads_iff _ _ _).mpr ⟨rfl, rfl⟩
    have hfield := ReadsField.mk ((body_quote_iff name.toList).mpr ⟨rfl, rfl⟩)
      (skip_cons hblank _) hvalue
    rwa [String.ofList_toList] at hfield

/-- **The text of a value is read as that value**, whatever stands behind it. -/
theorem settles_chars (json : Json) : Settles Reads json.chars json.datum := by
  induction json using inductionOn with
  | string value =>
    rw [chars_string, datum_string]
    exact settles_quote value
  | bool value =>
    cases value with
    | true =>
      refine ⟨⟨'t', ['r', 'u', 'e'], by rw [chars]; rfl, by decide⟩, fun text found rest => ?_⟩
      rw [chars, datum_bool]
      exact reads_true_iff
    | false =>
      refine ⟨⟨'f', ['a', 'l', 's', 'e'], by rw [chars]; rfl, by decide⟩,
        fun text found rest => ?_⟩
      rw [chars, datum_bool]
      exact reads_false_iff
  | array items ih =>
    rw [chars_array, datum_array]
    refine ⟨⟨_, _, rfl, by decide⟩, fun text found rest => ?_⟩
    rw [List.cons_append, List.append_assoc, List.singleton_append, reads_array_iff]
    have hseries : ∀ entries,
        Series Reads ']' (skip (separate (items.map chars) ++ ']' :: text)) entries rest ↔
          entries = items.map datum ∧ rest = text :=
      fun _ => series_separate_iff (by decide) (by decide) (fun _ _ _ => not_reads_close) ih
    simp only [hseries]
    constructor
    · rintro ⟨entries, rfl, rfl, rfl⟩
      exact ⟨rfl, rfl⟩
    · rintro ⟨rfl, rfl⟩
      exact ⟨_, rfl, rfl, rfl⟩
  | object fields ih =>
    rw [chars_object, datum_object]
    refine ⟨⟨_, _, rfl, by decide⟩, fun text found rest => ?_⟩
    rw [List.cons_append, List.append_assoc, List.singleton_append, reads_object_iff]
    have hseries : ∀ entries,
        Series ReadsField '\x7d'
            (skip (separate (fields.map fun field => quote field.1 ++ ':' :: chars field.2) ++
              '\x7d' :: text)) entries rest ↔
          entries = (fields.map fun field => (field.1, field.2.datum)) ∧ rest = text :=
      fun _ => series_separate_iff (by decide) (by decide) (fun _ _ _ => not_readsField_close)
        fun field hfield => settles_field field.1 (ih field hfield)
    simp only [hseries]
    constructor
    · rintro ⟨entries, rfl, rfl, rfl⟩
      exact ⟨rfl, rfl⟩
    · rintro ⟨rfl, rfl⟩
      exact ⟨_, rfl, rfl, rfl⟩

/-- **The compact text of a value denotes that value** and no other. -/
theorem denotes_compact_iff (json : Json) (datum : Datum) :
    Denotes json.compact datum ↔ datum = json.datum := by
  have h := settles_chars json
  have hskip := h.skip_append []
  rw [List.append_nil] at hskip
  have hreads := h.reads_iff [] datum
  rw [List.append_nil] at hreads
  rw [Denotes, compact, String.toList_ofList, hskip]
  simp only [hreads]
  constructor
  · rintro ⟨rest, ⟨rfl, -⟩, -⟩
    rfl
  · rintro rfl
    exact ⟨[], ⟨rfl, rfl⟩, rfl⟩

end Json
end ServiceTypes
