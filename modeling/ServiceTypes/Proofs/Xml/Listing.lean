import Mathlib.Data.List.Nodup
import Mathlib.Data.List.TakeWhile
import ServiceTypes.Proofs.Outcome
import ServiceTypes.Proofs.Text.Scan
import ServiceTypes.Xml.Builder

/-!
# The attributes written in a tag

The scan of a tag is tolerant, so which attributes a tag has is not obvious from the look of it.
The grammar is this: white space, a key, white space, `=`, white space, and a value in quotes of
either kind, again and again.  The white space may be missing everywhere.  A key is one character
of any sort, and then others up to `=` or white space; a value is anything without its own quote.

* `KeyAt`, `ValueAt`, `AttributesAt`: what a text starts with, and what comes after that.
* `Tag.Writes.unique`: a tag has only one reading.
* `attributesAt_listing`, `listingFrom_of_attributesAt`: the listing of a tag is what the grammar
  says, and what the grammar says is listed as long as no key comes twice.
* `nodup_listing`, `fault_of_repeat`: no key is listed twice, and a key that comes again is a
  fault, whatever stands behind its sign.
* `Tag.attributes_eq_ok_iff`: the attributes of a tag are those written in it, one for one.
* `Tag.attributes_eq_error_iff`: what can be at fault in a tag.
-/

namespace ServiceTypes
namespace Xml

open Text

/-! ## The grammar -/

/-- A text that starts with a key and its sign, the key, and what comes after the sign. -/
inductive KeyAt : List Char → List Char → List Char → Prop
  | intro {blank rest space after : List Char} {first : Char}
    (hblank : ∀ c ∈ blank, c.isWhitespace = true) (hfirst : first.isWhitespace = false)
    (hrest : ∀ c ∈ rest, inKey c = true) (hspace : ∀ c ∈ space, c.isWhitespace = true) :
    KeyAt (blank ++ first :: (rest ++ (space ++ '=' :: after))) (first :: rest) after

/-- A text that starts with a value in quotes, the value, and what comes after the quotes. -/
inductive ValueAt : List Char → List Char → List Char → Prop
  | intro {blank value after : List Char} {quote : Char}
    (hblank : ∀ c ∈ blank, c.isWhitespace = true) (hquote : quote = '\x22' ∨ quote = '\x27')
    (hvalue : quote ∉ value) :
    ValueAt (blank ++ quote :: (value ++ quote :: after)) value after

/-- A text that starts with attributes, their keys and values as written, and what comes after
them. -/
inductive AttributesAt : List Char → List (List Char × List Char) → List Char → Prop
  | nil {text : List Char} : AttributesAt text [] text
  | cons {text sign rest after key value : List Char} {written : List (List Char × List Char)}
    (hkey : KeyAt text key sign) (hvalue : ValueAt sign value rest)
    (hmore : AttributesAt rest written after) : AttributesAt text ((key, value) :: written) after

/-- The attributes written in a tag: after them there is nothing but white space. -/
def Tag.Writes (tag : Tag) (written : List (List Char × List Char)) : Prop :=
  ∃ blank, AttributesAt tag.tail written blank ∧ ∀ c ∈ blank, c.isWhitespace = true

/-- A tag in which a key with its sign stands behind attributes one of which has the same key. -/
def Tag.Repeats (tag : Tag) : Prop :=
  ∃ written middle key after, AttributesAt tag.tail written middle ∧ KeyAt middle key after ∧
    key ∈ written.map Prod.fst

/-- A written attribute without its place. -/
def WrittenAttribute.pair (written : WrittenAttribute) : List Char × List Char :=
  (written.key, written.value)

/-! ## Keys and values -/

namespace Cursor

/-- A skip passes a run of its class and stops behind it. -/
theorem skip_run {among : Char → Bool} {run : List Char} {stop : Char}
    (hrun : ∀ c ∈ run, among c = true) (hstop : among stop = false) (offset : Nat)
    (rest : List Char) :
    (Cursor.mk offset (run ++ stop :: rest)).skip among =
      ⟨offset + byteCount run, stop :: rest⟩ := by
  rw [skip]
  dsimp only
  rw [takeWhile_append_stop hrun hstop, dropWhile_append_stop hrun hstop]

end Cursor

/-- White space before a sign, or the sign itself, ends a key. -/
theorem exists_stop_of_space {space : List Char} (hspace : ∀ c ∈ space, c.isWhitespace = true)
    (after : List Char) :
    ∃ stop rest, space ++ '=' :: after = stop :: rest ∧ inKey stop = false := by
  rcases space with _ | ⟨c, space⟩
  · exact ⟨'=', after, rfl, by decide⟩
  · exact ⟨c, space ++ '=' :: after, rfl, by simp [inKey, hspace c List.mem_cons_self]⟩

/-- A key is found where it is written. -/
theorem exists_readKey_of_keyAt {text key after : List Char} (h : KeyAt text key after)
    (offset : Nat) :
    ∃ start place, readKey ⟨offset, text⟩ = .ok (some (start, key, ⟨place, after⟩)) := by
  cases h with
  | @intro blank rest space _ first hblank hfirst hrest hspace =>
    obtain ⟨stop, more, hmore, hstop⟩ := exists_stop_of_space hspace after
    refine ⟨offset + byteCount blank,
      offset + byteCount blank + first.utf8Size + byteCount rest + byteCount space + 1, ?_⟩
    rw [readKey, Cursor.skip_run hblank hfirst]
    dsimp only
    rw [hmore, Cursor.skip_run hrest hstop, takeWhile_append_stop hrest hstop, ← hmore,
      Cursor.skip_run hspace (by decide)]
    rfl

/-- What is found as a key is written there. -/
theorem keyAt_of_readKey {cursor sign : Cursor} {start : Nat} {key : List Char}
    (h : readKey cursor = .ok (some (start, key, sign))) : KeyAt cursor.text key sign.text := by
  rw [readKey] at h
  split at h
  · cases h
  · next first more hfirst =>
    dsimp only at h
    split at h
    · next rest hrest =>
      simp only [Except.ok.injEq, Option.some.injEq, Prod.mk.injEq] at h
      obtain ⟨-, rfl, rfl⟩ := h
      obtain ⟨htext, hstart⟩ := eq_append_of_dropWhile hfirst
      obtain ⟨hspace, -⟩ := eq_append_of_dropWhile hrest
      have hmore : more = more.takeWhile inKey ++
          ((more.dropWhile inKey).takeWhile Char.isWhitespace ++ '=' :: rest) := by
        conv_lhs => rw [← List.takeWhile_append_dropWhile (p := inKey) (l := more)]
        exact congrArg _ hspace
      have hkey : KeyAt
          (cursor.text.takeWhile Char.isWhitespace ++ first :: (more.takeWhile inKey ++
            ((more.dropWhile inKey).takeWhile Char.isWhitespace ++ '=' :: rest)))
          (first :: more.takeWhile inKey) rest :=
        KeyAt.intro (fun _ => List.mem_takeWhile_imp) hstart (fun _ => List.mem_takeWhile_imp)
          (fun _ => List.mem_takeWhile_imp)
      rw [← hmore, ← htext] at hkey
      exact hkey
    · cases h

/-- No key is found where there is nothing but white space. -/
theorem readKey_eq_none_iff {cursor : Cursor} :
    readKey cursor = .ok none ↔ ∀ c ∈ cursor.text, c.isWhitespace = true := by
  constructor
  · intro h
    rw [readKey] at h
    split at h
    · next hblank => exact List.dropWhile_eq_nil_iff.mp hblank
    · dsimp only at h
      split at h <;> cases h
  · intro h
    have hblank : cursor.text.dropWhile Char.isWhitespace = [] := List.dropWhile_eq_nil_iff.mpr h
    rw [readKey]
    split
    · rfl
    · next first more hfirst =>
      exact absurd (hblank.symm.trans hfirst) (List.cons_ne_nil first more).symm

/-- A value is found where it is written. -/
theorem exists_readValue_of_valueAt {text value after : List Char} (h : ValueAt text value after)
    (offset : Nat) : ∃ place, readValue ⟨offset, text⟩ = .ok (value, ⟨place, after⟩) := by
  cases h with
  | @intro blank _ _ quote hblank hquote hvalue =>
    have hspace : quote.isWhitespace = false := by
      rcases hquote with rfl | rfl <;> decide
    have hinner : ∀ c ∈ value, decide (c ≠ quote) = true := by
      intro c hmem
      exact decide_eq_true fun heq => hvalue (heq ▸ hmem)
    have hstop : decide (quote ≠ quote) = false := by simp
    refine ⟨offset + byteCount blank + 1 + byteCount value + 1, ?_⟩
    rw [readValue, Cursor.skip_run hblank hspace]
    dsimp only
    rw [if_pos hquote, Cursor.skip_run hinner hstop, takeWhile_append_stop hinner hstop]

/-- What is found as a value is written there. -/
theorem valueAt_of_readValue {cursor rest : Cursor} {value : List Char}
    (h : readValue cursor = .ok (value, rest)) : ValueAt cursor.text value rest.text := by
  rw [readValue] at h
  dsimp only at h
  split at h
  · cases h
  · next quote body hbody =>
    split at h
    · next hquote =>
      split at h
      · cases h
      · next stop after hafter =>
        obtain ⟨rfl, rfl⟩ := Prod.mk.inj (Except.ok.inj h)
        obtain ⟨htext, -⟩ := eq_append_of_dropWhile hbody
        obtain ⟨hvalue, hstop⟩ := eq_append_of_dropWhile hafter
        obtain rfl : stop = quote := by simpa using hstop
        have hout : stop ∉ body.takeWhile fun c => decide (c ≠ stop) := by
          intro hmem
          simpa using List.mem_takeWhile_imp hmem
        have hwhole := @ValueAt.intro _ _ after _
          (fun _ => @List.mem_takeWhile_imp _ _ cursor.text _) hquote hout
        dsimp only at hvalue
        rw [← hvalue, ← htext] at hwhole
        exact hwhole
    · cases h

/-! ## The grammar is unambiguous -/

theorem eq_of_keyAt {text key key' after after' : List Char} (h : KeyAt text key after)
    (h' : KeyAt text key' after') : key' = key ∧ after' = after := by
  obtain ⟨start, place, hread⟩ := exists_readKey_of_keyAt h 0
  obtain ⟨start', place', hread'⟩ := exists_readKey_of_keyAt h' 0
  rw [hread] at hread'
  simp only [Except.ok.injEq, Option.some.injEq, Prod.mk.injEq, Cursor.mk.injEq] at hread'
  exact ⟨hread'.2.1.symm, hread'.2.2.2.symm⟩

theorem eq_of_valueAt {text value value' after after' : List Char} (h : ValueAt text value after)
    (h' : ValueAt text value' after') : value' = value ∧ after' = after := by
  obtain ⟨place, hread⟩ := exists_readValue_of_valueAt h 0
  obtain ⟨place', hread'⟩ := exists_readValue_of_valueAt h' 0
  rw [hread] at hread'
  simp only [Except.ok.injEq, Prod.mk.injEq, Cursor.mk.injEq] at hread'
  exact ⟨hread'.1.symm, hread'.2.2.symm⟩

/-- There is no key where there is nothing but white space. -/
theorem not_keyAt_of_blank {text key after : List Char}
    (hblank : ∀ c ∈ text, c.isWhitespace = true) : ¬ KeyAt text key after := by
  intro h
  obtain ⟨start, place, hread⟩ := exists_readKey_of_keyAt h 0
  have hnone : readKey ⟨0, text⟩ = .ok none := readKey_eq_none_iff.mpr hblank
  rw [hread] at hnone
  cases hnone

/-- A text has only one reading as attributes with nothing but white space behind them. -/
theorem eq_of_attributesAt {text blank blank' : List Char}
    {written written' : List (List Char × List Char)} (h : AttributesAt text written blank)
    (hblank : ∀ c ∈ blank, c.isWhitespace = true) (h' : AttributesAt text written' blank')
    (hblank' : ∀ c ∈ blank', c.isWhitespace = true) : written' = written := by
  induction h generalizing written' with
  | nil =>
    cases h' with
    | nil => rfl
    | cons hkey _ _ => exact absurd hkey (not_keyAt_of_blank hblank)
  | cons hkey hvalue _ ih =>
    cases h' with
    | nil => exact absurd hkey (not_keyAt_of_blank hblank')
    | cons hkey' hvalue' hmore' =>
      obtain ⟨rfl, rfl⟩ := eq_of_keyAt hkey hkey'
      obtain ⟨rfl, rfl⟩ := eq_of_valueAt hvalue hvalue'
      rw [ih hblank hmore']

/-- The attributes written in a tag are determined by the tag. -/
theorem Tag.Writes.unique {tag : Tag} {written written' : List (List Char × List Char)}
    (h : tag.Writes written) (h' : tag.Writes written') : written' = written := by
  obtain ⟨blank, hat, hblank⟩ := h
  obtain ⟨blank', hat', hblank'⟩ := h'
  exact eq_of_attributesAt hat hblank hat' hblank'

/-! ## One attribute -/

/-- An attribute with a new key is found where it is written. -/
theorem exists_readAttribute {seen : List WrittenAttribute} {text key sign value rest : List Char}
    (hkey : KeyAt text key sign) (hvalue : ValueAt sign value rest)
    (hfresh : key ∉ seen.map WrittenAttribute.key) (offset : Nat) :
    ∃ start place,
      readAttribute seen ⟨offset, text⟩ = .ok (some (⟨start, key, value⟩, ⟨place, rest⟩)) := by
  obtain ⟨start, middle, hstart⟩ := exists_readKey_of_keyAt hkey offset
  obtain ⟨place, hplace⟩ := exists_readValue_of_valueAt hvalue middle
  have hnone : seen.find? (fun earlier => earlier.key == key) = none := by
    rw [List.find?_eq_none]
    intro earlier hmem
    rw [beq_iff_eq]
    rintro rfl
    exact hfresh (List.mem_map_of_mem hmem)
  refine ⟨start, place, ?_⟩
  rw [readAttribute, hstart]
  dsimp only
  rw [hnone, hplace]

/-- A key that was there is a fault, whatever its value is. -/
theorem exists_readAttribute_duplicated {seen : List WrittenAttribute} {text key sign : List Char}
    (hkey : KeyAt text key sign) (hseen : key ∈ seen.map WrittenAttribute.key) (offset : Nat) :
    ∃ place earlier, readAttribute seen ⟨offset, text⟩ = .error (.duplicated place earlier) := by
  obtain ⟨start, middle, hstart⟩ := exists_readKey_of_keyAt hkey offset
  obtain ⟨before, hmem, rfl⟩ := List.mem_map.mp hseen
  rw [readAttribute, hstart]
  dsimp only
  rcases hfind : seen.find? (fun earlier => earlier.key == before.key) with _ | earlier
  · exact absurd (beq_self_eq_true before.key) (List.find?_eq_none.mp hfind before hmem)
  · exact ⟨start, earlier.start, by rw [hfind]⟩

/-- What is found as an attribute is written there, and its key is new. -/
theorem attributeAt_of_readAttribute {seen : List WrittenAttribute} {cursor rest : Cursor}
    {found : WrittenAttribute} (h : readAttribute seen cursor = .ok (some (found, rest))) :
    (∃ sign, KeyAt cursor.text found.key sign ∧ ValueAt sign found.value rest.text) ∧
      found.key ∉ seen.map WrittenAttribute.key := by
  rw [readAttribute] at h
  split at h
  · cases h
  · cases h
  · next start key sign hkey =>
    split at h
    · cases h
    · next hnone =>
      split at h
      · cases h
      · next value after hvalue =>
        obtain ⟨rfl, rfl⟩ := Prod.mk.inj (Option.some.inj (Except.ok.inj h))
        refine ⟨⟨sign.text, keyAt_of_readKey hkey, valueAt_of_readValue hvalue⟩, ?_⟩
        intro hmem
        obtain ⟨earlier, hearlier, hsame⟩ := List.mem_map.mp hmem
        exact List.find?_eq_none.mp hnone earlier hearlier (beq_iff_eq.mpr hsame)

theorem readAttribute_eq_none_iff {seen : List WrittenAttribute} {cursor : Cursor} :
    readAttribute seen cursor = .ok none ↔ ∀ c ∈ cursor.text, c.isWhitespace = true := by
  rw [← readKey_eq_none_iff, readAttribute]
  rcases readKey cursor with fault | _ | ⟨start, key, sign⟩
  · simp
  · simp
  · dsimp only
    split
    · simp
    · split <;> simp

/-! ## All attributes -/

theorem listingFrom_of_error {seen : List WrittenAttribute} {cursor : Cursor}
    {fault : AttributeFault} (h : readAttribute seen cursor = .error fault) :
    listingFrom seen cursor = ⟨seen.reverse, some fault⟩ := by
  rw [listingFrom]
  split <;> simp_all

theorem listingFrom_of_none {seen : List WrittenAttribute} {cursor : Cursor}
    (h : readAttribute seen cursor = .ok none) :
    listingFrom seen cursor = ⟨seen.reverse, none⟩ := by
  rw [listingFrom]
  split <;> simp_all

theorem listingFrom_of_some {seen : List WrittenAttribute} {cursor rest : Cursor}
    {found : WrittenAttribute} (h : readAttribute seen cursor = .ok (some (found, rest))) :
    listingFrom seen cursor = listingFrom (found :: seen) rest := by
  rw [listingFrom]
  split
  · simp_all
  · simp_all
  · next read left hread =>
    obtain ⟨rfl, rfl⟩ : read = found ∧ left = rest := by simpa [h, eq_comm] using hread
    rfl

/-- **What is listed is written**, and a listing without a fault leaves only white space. -/
theorem attributesAt_listing (seen : List WrittenAttribute) (cursor : Cursor) :
    ∃ found rest, (listingFrom seen cursor).written = seen.reverse ++ found ∧
      AttributesAt cursor.text (found.map WrittenAttribute.pair) rest ∧
      ((listingFrom seen cursor).fault = none → ∀ c ∈ rest, c.isWhitespace = true) := by
  induction seen, cursor using listingFrom.induct with
  | case1 seen cursor fault hfault =>
    rw [listingFrom_of_error hfault]
    exact ⟨[], cursor.text, (List.append_nil _).symm, AttributesAt.nil, nofun⟩
  | case2 seen cursor hnone =>
    rw [listingFrom_of_none hnone]
    exact ⟨[], cursor.text, (List.append_nil _).symm, AttributesAt.nil,
      fun _ => readAttribute_eq_none_iff.mp hnone⟩
  | case3 seen cursor first rest hfirst ih =>
    obtain ⟨found, left, hwritten, hfound, hleft⟩ := ih
    obtain ⟨⟨sign, hkey, hvalue⟩, -⟩ := attributeAt_of_readAttribute hfirst
    rw [listingFrom_of_some hfirst]
    refine ⟨first :: found, left, ?_, AttributesAt.cons hkey hvalue hfound, hleft⟩
    rw [hwritten, List.reverse_cons, List.append_assoc, List.singleton_append]

/-- **No key is listed twice.** -/
theorem nodup_listing (seen : List WrittenAttribute) (cursor : Cursor)
    (hseen : (seen.map WrittenAttribute.key).Nodup) :
    ((listingFrom seen cursor).written.map WrittenAttribute.key).Nodup := by
  have hreverse : ∀ seen : List WrittenAttribute, (seen.map WrittenAttribute.key).Nodup →
      (seen.reverse.map WrittenAttribute.key).Nodup := by
    intro seen hseen
    rw [List.map_reverse, List.nodup_reverse]
    exact hseen
  induction seen, cursor using listingFrom.induct with
  | case1 seen cursor fault hfault =>
    rw [listingFrom_of_error hfault]
    exact hreverse seen hseen
  | case2 seen cursor hnone =>
    rw [listingFrom_of_none hnone]
    exact hreverse seen hseen
  | case3 seen cursor first rest hfirst ih =>
    rw [listingFrom_of_some hfirst]
    exact ih (List.nodup_cons.mpr ⟨(attributeAt_of_readAttribute hfirst).2, hseen⟩)

/-- **What is written is listed**, as long as no key comes twice. -/
theorem listingFrom_of_attributesAt {text after : List Char}
    {written : List (List Char × List Char)} (h : AttributesAt text written after)
    {seen : List WrittenAttribute}
    (hnodup : (seen.map WrittenAttribute.key ++ written.map Prod.fst).Nodup) (offset : Nat) :
    ∃ (found : List WrittenAttribute) (place : Nat), found.map WrittenAttribute.pair = written ∧
      listingFrom seen ⟨offset, text⟩ = listingFrom (found.reverse ++ seen) ⟨place, after⟩ := by
  induction h generalizing seen offset with
  | nil => exact ⟨[], offset, rfl, rfl⟩
  | @cons text sign rest after key value written hkey hvalue _ ih =>
    rw [List.map_cons, List.nodup_middle, List.nodup_cons, List.mem_append, not_or] at hnodup
    obtain ⟨start, place, hfirst⟩ := exists_readAttribute hkey hvalue hnodup.1.1 offset
    have hmore : ((WrittenAttribute.mk start key value :: seen).map WrittenAttribute.key ++
        written.map Prod.fst).Nodup := by
      rw [List.map_cons, List.cons_append, List.nodup_cons, List.mem_append, not_or]
      exact hnodup
    obtain ⟨found, left, hfound, hlisting⟩ := ih hmore place
    refine ⟨⟨start, key, value⟩ :: found, left, ?_, ?_⟩
    · rw [List.map_cons, hfound]
      rfl
    · rw [listingFrom_of_some hfirst, hlisting, List.reverse_cons, List.append_assoc,
        List.singleton_append]

/-- **A key that comes again is a fault.** -/
theorem fault_of_repeat {text middle key after : List Char}
    {written : List (List Char × List Char)} (h : AttributesAt text written middle)
    (hkey : KeyAt middle key after) {seen : List WrittenAttribute}
    (hmem : key ∈ seen.map WrittenAttribute.key ++ written.map Prod.fst) (offset : Nat) :
    ∃ place earlier,
      (listingFrom seen ⟨offset, text⟩).fault = some (.duplicated place earlier) := by
  induction h generalizing seen offset with
  | nil =>
    rw [List.map_nil, List.append_nil] at hmem
    obtain ⟨place, earlier, hfault⟩ := exists_readAttribute_duplicated hkey hmem offset
    exact ⟨place, earlier, by rw [listingFrom_of_error hfault]⟩
  | @cons text sign rest _ first value written hfirst hvalue _ ih =>
    by_cases hseen : first ∈ seen.map WrittenAttribute.key
    · -- the first attribute repeats a key already
      obtain ⟨place, earlier, hfault⟩ := exists_readAttribute_duplicated hfirst hseen offset
      exact ⟨place, earlier, by rw [listingFrom_of_error hfault]⟩
    · obtain ⟨start, place, hread⟩ := exists_readAttribute hfirst hvalue hseen offset
      rw [listingFrom_of_some hread]
      refine ih hkey ?_ place
      rw [List.map_cons, List.mem_append, List.mem_cons] at hmem
      rw [List.map_cons, List.mem_append, List.mem_cons]
      tauto

/-! ## The listing of a tag -/

namespace Tag

/-- The attributes listed of a tag are written in it, each key once, and are all when there is no
fault. -/
theorem writes_listing {tag : Tag} (h : tag.listing.fault = none) :
    tag.Writes (tag.listing.written.map WrittenAttribute.pair) := by
  obtain ⟨found, rest, hwritten, hfound, hrest⟩ :=
    attributesAt_listing [] ⟨byteCount tag.name, tag.tail⟩
  rw [Tag.listing, hwritten]
  exact ⟨rest, hfound, hrest h⟩

theorem nodup_listing (tag : Tag) : (tag.listing.written.map WrittenAttribute.key).Nodup :=
  Xml.nodup_listing [] _ List.nodup_nil

/-- Attributes with keys of their own are listed as they are written. -/
theorem listing_of_writes {tag : Tag} {written : List (List Char × List Char)}
    (h : tag.Writes written) (hnodup : (written.map Prod.fst).Nodup) :
    tag.listing.fault = none ∧ tag.listing.written.map WrittenAttribute.pair = written := by
  obtain ⟨blank, hat, hblank⟩ := h
  obtain ⟨found, place, rfl, hlisting⟩ :=
    @listingFrom_of_attributesAt _ _ _ hat [] hnodup (byteCount tag.name)
  have hnone := @readAttribute_eq_none_iff (found.reverse ++ []) ⟨place, blank⟩
  rw [Tag.listing, hlisting, listingFrom_of_none (hnone.mpr hblank)]
  simp

/-- A tag in which a key comes again is faulty. -/
theorem fault_of_repeats {tag : Tag} (h : tag.Repeats) :
    ∃ place earlier, tag.listing.fault = some (.duplicated place earlier) := by
  obtain ⟨written, middle, key, after, hat, hkey, hmem⟩ := h
  exact @fault_of_repeat _ _ _ _ _ hat hkey [] hmem (byteCount tag.name)

end Tag

/-! ## Keeping what is listed -/

/-- An attribute as written that stands for an entry: the key is the same, and the value is what
the written one resolves to. -/
def KeptAs (written : List Char × List Char) (entry : String × String) : Prop :=
  written.1 = entry.1.toList ∧ resolve written.2 = .ok entry.2.toList

theorem map_fst_of_keptAs {written : List (List Char × List Char)}
    {entries : List (String × String)} (h : List.Forall₂ KeptAs written entries) :
    written.map Prod.fst = entries.map fun entry => entry.1.toList := by
  induction h with
  | nil => rfl
  | cons hfirst _ ih => rw [List.map_cons, List.map_cons, hfirst.1, ih]

namespace Attributes

/-- A new key comes last. -/
theorem place_of_not_mem {key : String} (value : String) {entries : List (String × String)}
    (h : key ∉ entries.map Prod.fst) : place key value entries = entries ++ [(key, value)] := by
  induction entries with
  | nil => rfl
  | cons entry entries ih =>
    rw [List.map_cons, List.mem_cons, not_or] at h
    rw [place, if_neg (Ne.symm h.1), ih h.2, List.cons_append]

/-- An attribute is kept when its value resolves. -/
theorem keep_eq_ok_iff {attributes after : Attributes} {written : WrittenAttribute} :
    attributes.keep written = .ok after ↔
      ∃ entry, KeptAs written.pair entry ∧ after = attributes.set entry.1 entry.2 := by
  rw [keep]
  constructor
  · intro h
    split at h
    · next value hvalue =>
      obtain rfl := Except.ok.inj h
      refine ⟨(String.ofList written.key, String.ofList value), ⟨?_, ?_⟩, rfl⟩
      · exact String.toList_ofList.symm
      · rw [String.toList_ofList]
        exact hvalue
    · cases h
  · rintro ⟨entry, ⟨hkey, hvalue⟩, rfl⟩
    replace hkey : written.key = entry.1.toList := hkey
    replace hvalue : resolve written.value = .ok entry.2.toList := hvalue
    rw [hvalue, hkey]
    dsimp only
    rw [String.ofList_toList, String.ofList_toList]

theorem keep_eq_error_iff {attributes : Attributes} {written : WrittenAttribute} {fault : Fault} :
    attributes.keep written = .error fault ↔
      ∃ reference, resolve written.value = .error reference ∧
        fault = .xml (.attributeValue reference) := by
  rw [keep]
  rcases resolve written.value with reference | value
  · simp [eq_comm]
  · simp

/-- Attributes are kept as long as their values resolve. -/
theorem exists_foldlM_keep_iff {written : List WrittenAttribute} {attributes : Attributes} :
    (∃ after, written.foldlM keep attributes = .ok after) ↔
      ∀ found ∈ written, ∃ value, resolve found.value = .ok value := by
  induction written generalizing attributes with
  | nil => exact ⟨fun _ => List.forall_mem_nil _, fun _ => ⟨attributes, rfl⟩⟩
  | cons first written ih =>
    rw [List.foldlM_cons, List.forall_mem_cons]
    simp only [bind_eq_ok_iff]
    constructor
    · rintro ⟨after, between, hfirst, hafter⟩
      refine ⟨?_, ih.mp ⟨after, hafter⟩⟩
      obtain ⟨entry, hentry, -⟩ := keep_eq_ok_iff.mp hfirst
      exact ⟨entry.2.toList, hentry.2⟩
    · rintro ⟨⟨value, hvalue⟩, hmore⟩
      have hfirst : attributes.keep first =
          .ok (attributes.set (String.ofList first.key) (String.ofList value)) := by
        rw [keep, hvalue]
      obtain ⟨after, hafter⟩ := ih.mpr hmore
      exact ⟨after, _, hfirst, hafter⟩

/-- **Attributes with new keys are kept behind the others**, one for one. -/
theorem foldlM_keep_eq_ok_iff {written : List WrittenAttribute} {attributes after : Attributes}
    (hnodup : (attributes.entries.map (fun entry => entry.1.toList) ++
      written.map WrittenAttribute.key).Nodup) :
    written.foldlM keep attributes = .ok after ↔
      ∃ entries, after.entries = attributes.entries ++ entries ∧
        List.Forall₂ KeptAs (written.map WrittenAttribute.pair) entries := by
  induction written generalizing attributes with
  | nil =>
    simp only [List.map_nil, List.forall₂_nil_left_iff, exists_eq_right, List.append_nil]
    constructor
    · intro h
      rw [Except.ok.inj h]
    · intro h
      obtain ⟨entries, hentries⟩ := after
      obtain rfl : entries = attributes.entries := h
      rfl
  | cons first written ih =>
    rw [List.map_cons, List.nodup_middle, List.nodup_cons, List.mem_append, not_or] at hnodup
    obtain ⟨⟨hnew, hfirst⟩, hrest⟩ := hnodup
    -- the first attribute comes behind the others, so what is left has new keys again
    have hset : ∀ entry, KeptAs first.pair entry →
        (attributes.set entry.1 entry.2).entries = attributes.entries ++ [entry] := by
      rintro entry ⟨hkey, -⟩
      refine place_of_not_mem entry.2 fun hmem => hnew ?_
      obtain ⟨other, hother, hsame⟩ := List.mem_map.mp hmem
      refine List.mem_map.mpr ⟨other, hother, ?_⟩
      rw [hsame]
      exact hkey.symm
    have hnext : ∀ entry, KeptAs first.pair entry →
        (((attributes.set entry.1 entry.2).entries.map fun entry => entry.1.toList) ++
          written.map WrittenAttribute.key).Nodup := by
      intro entry hentry
      have hkey : first.key = entry.1.toList := hentry.1
      rw [hset entry hentry, List.map_append, List.map_singleton, List.append_assoc,
        List.singleton_append, List.nodup_middle, List.nodup_cons, List.mem_append, not_or, ← hkey]
      exact ⟨⟨hnew, hfirst⟩, hrest⟩
    rw [List.foldlM_cons, bind_eq_ok_iff, List.map_cons]
    simp only [keep_eq_ok_iff, List.forall₂_cons_left_iff]
    constructor
    · rintro ⟨between, ⟨entry, hentry, rfl⟩, hafter⟩
      obtain ⟨entries, hentries, hall⟩ := (ih (hnext entry hentry)).mp hafter
      refine ⟨entry :: entries, ?_, entry, entries, hentry, hall, rfl⟩
      rw [hentries, hset entry hentry, List.append_assoc, List.singleton_append]
    · rintro ⟨all, hafter, entry, entries, hentry, hall, rfl⟩
      refine ⟨attributes.set entry.1 entry.2, ⟨entry, hentry, rfl⟩, ?_⟩
      refine (ih (hnext entry hentry)).mpr ⟨entries, ?_, hall⟩
      rw [hafter, hset entry hentry, List.append_assoc, List.singleton_append]

/-- The keys of attributes with new keys are those that were written, behind the others. -/
theorem keys_of_foldlM_keep {written : List WrittenAttribute} {attributes after : Attributes}
    (hnodup : (attributes.entries.map (fun entry => entry.1.toList) ++
      written.map WrittenAttribute.key).Nodup)
    (h : written.foldlM keep attributes = .ok after) :
    after.entries.map (fun entry => entry.1.toList) =
      attributes.entries.map (fun entry => entry.1.toList) ++ written.map WrittenAttribute.key := by
  obtain ⟨entries, hentries, hkept⟩ := (foldlM_keep_eq_ok_iff hnodup).mp h
  rw [hentries, List.map_append, ← map_fst_of_keptAs hkept, List.map_map]
  rfl

end Attributes

namespace Tag

/-- Keys that are kept are distinct as they are written. -/
theorem nodup_of_keptAs {written : List (List Char × List Char)} {attributes : Attributes}
    (h : List.Forall₂ KeptAs written attributes.entries) : (written.map Prod.fst).Nodup := by
  have hkeys : (attributes.entries.map fun entry => entry.1.toList) =
      (attributes.entries.map Prod.fst).map String.toList := by
    rw [List.map_map]
    rfl
  rw [map_fst_of_keptAs h, hkeys]
  exact attributes.nodup.map fun _ _ => String.toList_inj.mp

/-- **What can be at fault in a tag**: the first value that does not resolve, or else what stands
behind all that is listed. -/
theorem attributes_eq_error_iff {tag : Tag} {fault : Fault} :
    tag.attributes = .error fault ↔
      (∃ before found after reference, tag.listing.written = before ++ found :: after ∧
        (∀ other ∈ before, ∃ value, resolve other.value = .ok value) ∧
        resolve found.value = .error reference ∧ fault = .xml (.attributeValue reference)) ∨
      (∀ found ∈ tag.listing.written, ∃ value, resolve found.value = .ok value) ∧
        ∃ defect, tag.listing.fault = some defect ∧ fault = .xml (.attributes defect) := by
  have hfold : tag.listing.written.foldlM Attributes.keep ∅ = .error fault ↔
      ∃ before found after reference, tag.listing.written = before ++ found :: after ∧
        (∀ other ∈ before, ∃ value, resolve other.value = .ok value) ∧
        resolve found.value = .error reference ∧ fault = .xml (.attributeValue reference) := by
    rw [foldlM_eq_error_iff]
    constructor
    · rintro ⟨before, found, after, kept, hwritten, hbefore, hfound⟩
      obtain ⟨reference, hreference, hfault⟩ := Attributes.keep_eq_error_iff.mp hfound
      exact ⟨before, found, after, reference, hwritten,
        Attributes.exists_foldlM_keep_iff.mp ⟨kept, hbefore⟩, hreference, hfault⟩
    · rintro ⟨before, found, after, reference, hwritten, hbefore, hfound, hfault⟩
      obtain ⟨kept, hkept⟩ := Attributes.exists_foldlM_keep_iff.mpr hbefore
      exact ⟨before, found, after, kept, hwritten, hkept,
        Attributes.keep_eq_error_iff.mpr ⟨reference, hfound, hfault⟩⟩
  rw [← hfold, ← @Attributes.exists_foldlM_keep_iff tag.listing.written ∅, Tag.attributes]
  rcases tag.listing.written.foldlM Attributes.keep ∅ with other | attributes
  · simp
  · rcases tag.listing.fault with _ | defect
    · simp
    · simp [eq_comm]

/-- The attributes of a tag are those listed of it. -/
theorem attributes_eq_ok_iff_listing {tag : Tag} {attributes : Attributes} :
    tag.attributes = .ok attributes ↔ tag.listing.fault = none ∧
      List.Forall₂ KeptAs (tag.listing.written.map WrittenAttribute.pair) attributes.entries := by
  have hkeep : tag.listing.written.foldlM Attributes.keep ∅ = .ok attributes ↔
      List.Forall₂ KeptAs (tag.listing.written.map WrittenAttribute.pair) attributes.entries := by
    have hkept :=
      @Attributes.foldlM_keep_eq_ok_iff tag.listing.written ∅ attributes tag.nodup_listing
    have hempty : (∅ : Attributes).entries = [] := rfl
    rw [hkept, hempty]
    simp only [List.nil_append, exists_eq_left']
  rw [← hkeep, Tag.attributes]
  rcases tag.listing.written.foldlM Attributes.keep ∅ with fault | kept
  · simp
  · rcases tag.listing.fault with _ | defect
    · simp
    · simp

/-- **The attributes of a tag are those written in it, one for one.** -/
theorem attributes_eq_ok_iff {tag : Tag} {attributes : Attributes} :
    tag.attributes = .ok attributes ↔
      ∃ written, tag.Writes written ∧ List.Forall₂ KeptAs written attributes.entries := by
  rw [attributes_eq_ok_iff_listing]
  constructor
  · rintro ⟨hnone, hkept⟩
    exact ⟨_, writes_listing hnone, hkept⟩
  · rintro ⟨written, hwrites, hkept⟩
    obtain ⟨hnone, rfl⟩ := listing_of_writes hwrites (nodup_of_keptAs hkept)
    exact ⟨hnone, hkept⟩

end Tag

end Xml
end ServiceTypes
