import ServiceTypes.Proofs.Outcome
import ServiceTypes.Proofs.Text.Scan
import ServiceTypes.Proofs.Xml.Spelling

/-!
# What references denote

A reference is looked up by its body, or read digit by digit.  Here it is said without reading
which bodies denote a character: the five names, and the digits of a code point behind the mark of
their radix, with as many zeros before them as can still be read.  The null character is denoted
by nothing.

* `length_le_maxBytes`: the digits of a code point are not too many to be read.
* `Denotes`: the body of a reference and the character that it denotes.
* `referenced_eq_ok_iff`: a reference stands for what its body denotes.
-/

namespace ServiceTypes
namespace Xml

open Text

/-! ## Digits in a reference -/

/-- A digit ends no reference, and is not the mark of the hexadecimal digits. -/
theorem inBody_of_digit? {radix : Radix} {c : Char} {digit : Nat}
    (h : radix.digit? c = some digit) : inBody c = true ∧ c ≠ 'x' := by
  have hrange := Radix.digit?_eq_some h
  refine ⟨?_, ?_⟩
  · have hamp : c ≠ '&' := by
      rintro rfl
      revert hrange
      decide
    have hsemicolon : c ≠ ';' := by
      rintro rfl
      revert hrange
      decide
    simp [inBody, hamp, hsemicolon]
  · rintro rfl
    revert hrange
    decide

/-- The digits of a code point are not too many to be read. -/
theorem length_le_maxBytes {radix : Radix} {c : Char} {digits : List Char}
    (h : radix.Writes c.toNat digits) : digits.length ≤ radix.maxBytes := by
  have hlength : digits.length = (Nat.toDigits radix.base c.toNat).length := by
    rw [← h, List.length_map]
  have hvalid : c.toNat < 0x110000 := by
    have := c.valid
    simp only [UInt32.isValidChar, Nat.isValidChar] at this
    show c.val.toNat < _
    omega
  rw [hlength, Nat.length_toDigits_le_iff radix.one_lt_base (by cases radix <;> decide)]
  refine Nat.lt_of_lt_of_le hvalid ?_
  cases radix <;> decide

/-! ## Bodies -/

/-- The body of a reference, and the character that it denotes. -/
inductive Denotes : List Char → Char → Prop
  /-- One of the five names. -/
  | named {name : List Char} {c : Char} (hname : entityName? c = some name) : Denotes name c
  /-- A code point other than that of the null character, by its digits. -/
  | numbered {radix : Radix} {zeros : Nat} {digits : List Char} {c : Char} (hc : c ≠ '\x00')
    (hdigits : radix.Writes c.toNat digits) (hlength : zeros + digits.length ≤ radix.maxBytes) :
    Denotes ('#' :: (radix.mark ++ (List.replicate zeros '0' ++ digits))) c

theorem numbered_eq_ok_iff {radix : Radix} {start stop : Nat} {digits : List Char} {c : Char} :
    numbered radix start stop digits = .ok c ↔
      byteCount digits ≤ radix.maxBytes ∧ c ≠ '\x00' ∧ radix.value 0 digits = .ok c.toNat := by
  have hnull : c ≠ '\x00' ↔ c.toNat ≠ 0 := not_congr Char.toNat_inj.symm
  rw [numbered, hnull]
  constructor
  · intro h
    split at h
    · cases h
    · next hlength =>
      split at h
      · cases h
      · next code hcode =>
        split at h
        · cases h
        · next hzero =>
          split at h
          · next hvalid =>
            obtain rfl := Except.ok.inj h
            have hcharacter : (Char.ofNat code).toNat = code := by
              rw [Char.ofNat, dif_pos hvalid]
              rfl
            rw [hcharacter]
            exact ⟨Nat.not_lt.mp hlength, hzero, hcode⟩
          · cases h
  · rintro ⟨hlength, hzero, hvalue⟩
    have hvalid : c.toNat.isValidChar := c.valid
    rw [if_neg (Nat.not_lt.mpr hlength), hvalue]
    show (if c.toNat = 0 then _ else _) = _
    rw [if_neg hzero, if_pos hvalid, Char.ofNat_toNat]

/-- Digits that are read are those of a code point, with zeros before them. -/
theorem numbered_eq_ok_iff_writes {radix : Radix} {start stop : Nat} {digits : List Char}
    {c : Char} :
    numbered radix start stop digits = .ok c ↔
      c ≠ '\x00' ∧ ∃ zeros shortest, digits = List.replicate zeros '0' ++ shortest ∧
        radix.Writes c.toNat shortest ∧ zeros + shortest.length ≤ radix.maxBytes := by
  have hnull : c ≠ '\x00' → c.toNat ≠ 0 := fun hc hzero => hc (Char.toNat_inj.mp hzero)
  have hcount : ∀ {zeros : Nat} {shortest : List Char}, radix.Writes c.toNat shortest →
      byteCount (List.replicate zeros '0' ++ shortest) = zeros + shortest.length := by
    intro zeros shortest hwrites
    rw [Radix.byteCount_of_digits (Radix.digit?_of_mem_zeros hwrites), List.length_append,
      List.length_replicate]
  rw [numbered_eq_ok_iff]
  constructor
  · rintro ⟨hlength, hc, hvalue⟩
    obtain ⟨zeros, shortest, rfl, hwrites⟩ := (Radix.value_eq_ok_iff (hnull hc)).mp hvalue
    exact ⟨hc, zeros, shortest, rfl, hwrites, hcount hwrites ▸ hlength⟩
  · rintro ⟨hc, zeros, shortest, rfl, hwrites, hlength⟩
    exact ⟨hcount hwrites ▸ hlength, hc,
      (Radix.value_eq_ok_iff (hnull hc)).mpr ⟨zeros, shortest, rfl, hwrites⟩⟩

/-- A body by number is none of the predefined names. -/
theorem lookup_number (digits : List Char) : predefined.lookup ('#' :: digits) = none := by
  simp [predefined, List.lookup_cons]

theorem referenced_number {radix : Radix} {digits : List Char} (hmark : 'x' ∉ digits)
    (start stop : Nat) :
    referenced start stop ('#' :: (radix.mark ++ digits)) = numbered radix start stop digits := by
  cases radix with
  | hexadecimal =>
    show referenced start stop ('#' :: 'x' :: digits) = _
    rw [referenced.eq_def, lookup_number]
    rfl
  | decimal =>
    show referenced start stop ('#' :: digits) = _
    rw [referenced.eq_def, lookup_number]
    dsimp only
    split
    · next heq =>
      -- the mark of the hexadecimal digits would be a decimal digit
      obtain rfl := (List.cons.inj heq).2
      exact absurd List.mem_cons_self hmark
    · next heq =>
      obtain rfl := (List.cons.inj heq).2
      rfl
    · next hnone => exact absurd rfl (hnone digits)

/-- A reference by name stands for the character with that name. -/
theorem referenced_of_entityName? {c : Char} {name : List Char} (h : entityName? c = some name)
    (start stop : Nat) : referenced start stop name = .ok c := by
  have hlookup : predefined.lookup name = some c := by
    unfold entityName? at h
    split at h
    all_goals
      first
      | cases h
        rfl
      | cases h
  rw [referenced.eq_def, hlookup]

/-- **What a reference stands for is what its body denotes.** -/
theorem referenced_eq_ok_iff {start stop : Nat} {body : List Char} {c : Char} :
    referenced start stop body = .ok c ↔ Denotes body c := by
  constructor
  · intro h
    rw [referenced.eq_def] at h
    split at h
    · next found hfound =>
      obtain rfl := Except.ok.inj h
      obtain ⟨before, after, hsplit, -⟩ := List.lookup_eq_some_iff.mp hfound
      have hmem : (body, found) ∈ predefined := by
        rw [hsplit]
        exact List.mem_append_right _ List.mem_cons_self
      have hall : ∀ entry ∈ predefined, entityName? entry.2 = some entry.1 := by decide
      exact Denotes.named (hall _ hmem)
    · split at h
      · next digits =>
        obtain ⟨hc, zeros, shortest, rfl, hwrites, hlength⟩ := numbered_eq_ok_iff_writes.mp h
        exact @Denotes.numbered .hexadecimal _ _ _ hc hwrites hlength
      · next digits _ =>
        obtain ⟨hc, zeros, shortest, rfl, hwrites, hlength⟩ := numbered_eq_ok_iff_writes.mp h
        exact @Denotes.numbered .decimal _ _ _ hc hwrites hlength
      · cases h
  · intro h
    cases h with
    | named hname => exact referenced_of_entityName? hname start stop
    | @numbered radix zeros digits _ hc hdigits hlength =>
      have hmark : 'x' ∉ List.replicate zeros '0' ++ digits := by
        intro hmem
        obtain ⟨digit, hdigit⟩ := Radix.digit?_of_mem_zeros hdigits 'x' hmem
        exact (inBody_of_digit? hdigit).2 rfl
      rw [referenced_number hmark]
      exact numbered_eq_ok_iff_writes.mpr ⟨hc, zeros, digits, rfl, hdigits, hlength⟩

/-- What stands between the marks of a reference ends none. -/
theorem inBody_of_entityName? {c : Char} {name : List Char} (h : entityName? c = some name) :
    ∀ d ∈ name, inBody d = true := by
  unfold entityName? at h
  split at h
  all_goals
    first
    | cases h
      exact List.all_eq_true.mp (by decide)
    | cases h

/-- The digits of a code point denote it. -/
theorem denotes_of_writes {radix : Radix} {c : Char} {digits : List Char} (hc : c ≠ '\x00')
    (h : radix.Writes c.toNat digits) : Denotes ('#' :: (radix.mark ++ digits)) c := by
  have hlength : 0 + digits.length ≤ radix.maxBytes := by
    rw [Nat.zero_add]
    exact length_le_maxBytes h
  exact Denotes.numbered hc h hlength

/-- Nothing in a body that denotes a character ends it or starts another reference. -/
theorem inBody_of_denotes {body : List Char} {c : Char} (h : Denotes body c) :
    ∀ d ∈ body, inBody d = true := by
  cases h with
  | named hname => exact inBody_of_entityName? hname
  | @numbered radix zeros digits _ _ hdigits _ =>
    intro d hmem
    rcases List.mem_cons.mp hmem with rfl | hmem
    · decide
    rcases List.mem_append.mp hmem with hmem | hmem
    · cases radix with
      | decimal => cases hmem
      | hexadecimal =>
        obtain rfl := List.mem_singleton.mp hmem
        decide
    · obtain ⟨digit, hdigit⟩ := Radix.digit?_of_mem_zeros hdigits d hmem
      exact (inBody_of_digit? hdigit).1

end Xml
end ServiceTypes
