import Mathlib.Data.List.TakeWhile
import ServiceTypes.Proofs.Xml.Listing
import ServiceTypes.Proofs.Xml.Resolution

/-!
# Reading what was written in a tag

The content of a tag that was written on purpose is divided at the right place, each of its
attributes is found where it stands, and the values resolve to those that were meant.  White space
before a key, the kind of the quotes and the spelling of the value leave no trace.

* `foldlM_unquoted_of_spelling`: a `>` in quotes does not end a tag.
* `getLast?_of_spelling`: attributes never end in a slash, so an empty tag is not taken for
  another.
* `attributesAt_of_spelling`: attributes that were spelled out are written one for one.
* `Tag.attributes_of_spelling`: the attributes of a tag are those it was written with.
-/

namespace ServiceTypes
namespace Xml

open Text

/-! ## Names, and characters that written text keeps out -/

/-- What is known of a character in a name. -/
theorem isNameChar_spec {c : Char} (h : isNameChar c = true) :
    c.isWhitespace = false ∧ c ≠ '<' ∧ c ≠ '>' ∧ c ≠ '/' ∧ c ≠ '!' ∧ c ≠ '?' ∧ c ≠ '=' ∧
      c ≠ '\x22' ∧ c ≠ '\x27' := by
  simpa [isNameChar, and_assoc] using h

/-- A name starts with a character that may stand in a name, and has only such. -/
theorem IsName.cases {name : String} (h : IsName name) :
    ∃ first more, name.toList = first :: more ∧ isNameChar first = true ∧
      ∀ c ∈ more, isNameChar c = true := by
  obtain ⟨hsome, hall⟩ := h
  rcases hname : name.toList with _ | ⟨first, more⟩
  · exact absurd (String.toList_eq_nil_iff.mp hname) hsome
  · rw [hname] at hall
    obtain ⟨hfirst, hmore⟩ := List.forall_mem_cons.mp hall
    exact ⟨first, more, rfl, hfirst, hmore⟩

/-- The characters that end a text or a value stand in no reference. -/
theorem not_mem_of_charSpelling {reserved : List Char} {stop c : Char} {written : List Char}
    (hstop : stop ∈ ['<', '\x22', '\x27']) (hreserved : stop ∈ reserved)
    (h : CharSpelling reserved c written) : stop ∉ written := by
  have hcases : stop = '<' ∨ stop = '\x22' ∨ stop = '\x27' := by simpa using hstop
  have hmarks : stop ≠ '&' ∧ stop ≠ '#' ∧ stop ≠ 'x' ∧ stop ≠ ';' := by
    rcases hcases with rfl | rfl | rfl <;> decide
  obtain ⟨hamp, hsharp, hx, hsemicolon⟩ := hmarks
  cases h with
  | literal hc =>
    intro hmem
    obtain rfl := List.mem_singleton.mp hmem
    exact hc hreserved
  | @named name hname =>
    have hbody : stop ∉ name := by
      unfold entityName? at hname
      split at hname <;> cases hname <;> rcases hcases with rfl | rfl | rfl <;> decide
    simp [hamp, hsemicolon, hbody]
  | @numbered radix digits _ hdigits =>
    have hdigit : stop ∉ digits := by
      intro hmem
      obtain ⟨digit, hdigit⟩ := Radix.digit?_of_mem hdigits stop hmem
      have hnone : radix.digit? stop = none := by
        rcases hcases with rfl | rfl | rfl <;> cases radix <;> decide
      rw [hnone] at hdigit
      cases hdigit
    have hradix : stop ∉ radix.mark := by
      cases radix <;> simp [Radix.mark, hx]
    simp [hamp, hsharp, hradix, hdigit, hsemicolon]

theorem not_mem_of_spelling {reserved : List Char} {stop : Char} {text written : List Char}
    (hstop : stop ∈ ['<', '\x22', '\x27']) (hreserved : stop ∈ reserved)
    (h : TextSpelling reserved text written) : stop ∉ written := by
  induction h with
  | nil => exact List.not_mem_nil
  | cons hc _ ih =>
    intro hmem
    rcases List.mem_append.mp hmem with hmem | hmem
    · exact not_mem_of_charSpelling hstop hreserved hc hmem
    · exact ih hmem

/-- A value does not end its own quotes. -/
theorem quote_not_mem_of_spelling {quote : Char} {text written : List Char}
    (hquote : quote = '\x22' ∨ quote = '\x27') (h : TextSpelling ['&', quote] text written) :
    quote ∉ written := by
  refine not_mem_of_spelling ?_ (by simp) h
  rcases hquote with rfl | rfl <;> decide

/-! ## A tag as a whole -/

/-- Nothing in a name ends a tag or opens quotes. -/
theorem foldlM_unquoted_name {name : String} (h : IsName name) :
    name.toList.foldlM unquoted none = some none := by
  refine foldlM_unquoted_plain ?_
  intro c hmem
  obtain ⟨-, -, hend, -, -, -, -, hdouble, hsingle⟩ := isNameChar_spec (h.2 c hmem)
  exact ⟨hend, hdouble, hsingle⟩

/-- A quote of either kind opens quotes, and closes those that it opened. -/
theorem unquoted_quote {quote : Char} (h : quote = '\x22' ∨ quote = '\x27') :
    unquoted none quote = some (some quote) ∧ unquoted (some quote) quote = some none := by
  rcases h with rfl | rfl <;> decide

/-- Every tag is scanned to its end: a `>` in the value of an attribute stands in quotes. -/
theorem foldlM_unquoted_of_spelling {entries : List (String × String)} {tail : List Char}
    (h : AttributesSpelling entries tail) : tail.foldlM unquoted none = some none := by
  induction h with
  | nil => rfl
  | @cons key value entries blank written more quote hkey _ hspace hquote hvalue _ ih =>
    obtain ⟨hopen, hclose⟩ := unquoted_quote hquote
    have hblank : blank.foldlM unquoted none = some none := by
      refine foldlM_unquoted_plain ?_
      intro c hmem
      have hc := hspace c hmem
      refine ⟨?_, ?_, ?_⟩ <;>
      · rintro rfl
        revert hc
        decide
    have hquoted : written.foldlM unquoted (some quote) = some (some quote) :=
      foldlM_unquoted_quoted (quote_not_mem_of_spelling hquote hvalue)
    rw [List.foldlM_append, hblank]
    show (key.toList ++ _).foldlM unquoted none = _
    rw [List.foldlM_append, foldlM_unquoted_name hkey]
    show List.foldlM unquoted none (quote :: _) = _
    rw [List.foldlM_cons, hopen]
    show (written ++ _).foldlM unquoted (some quote) = _
    rw [List.foldlM_append, hquoted]
    show List.foldlM unquoted (some quote) (quote :: more) = _
    rw [List.foldlM_cons, hclose]
    exact ih

/-- Attributes end in a quote, so a slash at the end stands before them. -/
theorem getLast?_of_spelling {entries : List (String × String)} {tail : List Char}
    (h : AttributesSpelling entries tail) (before : List Char)
    (hlast : (before ++ tail).getLast? = some '/') : before.getLast? = some '/' := by
  induction h generalizing before with
  | nil => rwa [List.append_nil] at hlast
  | @cons key value entries blank written more quote _ _ _ hquote _ _ ih =>
    have hsplit : before ++ (blank ++ (key.toList ++ '=' :: quote :: (written ++ quote :: more))) =
        (before ++ blank ++ key.toList ++ '=' :: quote :: written ++ [quote]) ++ more := by
      simp
    rw [hsplit] at hlast
    have hquoted := ih _ hlast
    rw [List.getLast?_concat] at hquoted
    obtain rfl := Option.some.inj hquoted
    rcases hquote with hslash | hslash <;> cases hslash

/-- The content of a tag is divided after its name. -/
theorem Tag.ofContent_of_spelling {name : String} {entries : List (String × String)}
    {tail : List Char} (hname : IsName name) (h : AttributesSpelling entries tail) :
    Tag.ofContent (name.toList ++ tail) = ⟨name.toList, tail⟩ := by
  have hinner : ∀ c ∈ name.toList, (!c.isWhitespace) = true := by
    intro c hmem
    rw [(isNameChar_spec (hname.2 c hmem)).1]
    rfl
  rcases tail with _ | ⟨c, tail⟩
  · rw [List.append_nil, Tag.ofContent, List.takeWhile_eq_self_iff.mpr hinner,
      List.dropWhile_eq_nil_iff.mpr hinner]
  · have hc : (!c.isWhitespace) = false := by
      generalize hwritten : c :: tail = written at h
      cases h with
      | nil => cases hwritten
      | @cons _ _ _ blank _ _ _ _ hblank hspace _ _ _ =>
        obtain ⟨d, blank, rfl⟩ := List.exists_cons_of_ne_nil hblank
        obtain rfl := (List.cons.inj hwritten).1
        rw [hspace c List.mem_cons_self]
        rfl
    rw [Tag.ofContent, takeWhile_append_stop hinner hc, dropWhile_append_stop hinner hc]

/-! ## The attributes -/

theorem inKey_of_isNameChar {c : Char} (h : isNameChar c = true) : inKey c = true := by
  obtain ⟨hspace, -, -, -, -, -, hequals, -, -⟩ := isNameChar_spec h
  simp [inKey, hspace, hequals]

/-- A name in front of `=` is written as a key. -/
theorem keyAt_of_isName {key : String} {blank : List Char} (hkey : IsName key)
    (hspace : ∀ c ∈ blank, c.isWhitespace = true) (after : List Char) :
    KeyAt (blank ++ (key.toList ++ '=' :: after)) key.toList after := by
  obtain ⟨first, more, hname, hfirst, hmore⟩ := hkey.cases
  rw [hname]
  exact KeyAt.intro hspace (isNameChar_spec hfirst).1
    (fun c hmem => inKey_of_isNameChar (hmore c hmem)) (List.forall_mem_nil _)

/-- Attributes that were spelled out are written one for one, with nothing after them. -/
theorem attributesAt_of_spelling {entries : List (String × String)} {tail : List Char}
    (h : AttributesSpelling entries tail) :
    ∃ written, AttributesAt tail written [] ∧ List.Forall₂ KeptAs written entries := by
  induction h with
  | nil => exact ⟨[], AttributesAt.nil, List.Forall₂.nil⟩
  | @cons key value entries blank spelled more quote hkey _ hspace hquote hvalue _ ih =>
    obtain ⟨written, hmore, hkept⟩ := ih
    have hat : ValueAt (quote :: (spelled ++ quote :: more)) spelled more :=
      ValueAt.intro (List.forall_mem_nil _) hquote (quote_not_mem_of_spelling hquote hvalue)
    have hstands : KeptAs (key.toList, spelled) (key, value) :=
      ⟨rfl, resolve_of_spelling List.mem_cons_self hvalue⟩
    exact ⟨(key.toList, spelled) :: written,
      AttributesAt.cons (keyAt_of_isName hkey hspace _) hat hmore, List.Forall₂.cons hstands hkept⟩

/-- **The attributes of a tag are those that it was written with.** -/
theorem Tag.attributes_of_spelling {attributes : Attributes} {tail : List Char}
    (h : AttributesSpelling attributes.entries tail) (name : List Char) :
    (Tag.mk name tail).attributes = .ok attributes := by
  obtain ⟨written, hat, hkept⟩ := attributesAt_of_spelling h
  exact Tag.attributes_eq_ok_iff.mpr ⟨written, ⟨[], hat, List.forall_mem_nil _⟩, hkept⟩

end Xml
end ServiceTypes
