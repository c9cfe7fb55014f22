import Mathlib.Data.List.Induction
import ServiceTypes.Proofs.Outcome
import ServiceTypes.Text.Bytes
import ServiceTypes.Text.Radix

/-!
# Reading and writing numbers

The digits of a number are read as that number, whether the letters among them are capitals or not,
and whatever is read as a number other than zero are its digits, with any number of zeros before
them.

* `Radix.Writes`: the digits of a number without leading zeros.
* `value_of_writes`: they are read as the number.
* `value_eq_ok_iff`: what is read as a number are its digits with zeros before them.
-/

namespace ServiceTypes
namespace Text
namespace Radix

/-- The digits of a number without leading zeros, a letter among them in either case. -/
def Writes (radix : Radix) (number : Nat) (digits : List Char) : Prop :=
  digits.map Char.toLower = Nat.toDigits radix.base number

/-! ## Digits -/

theorem one_lt_base (radix : Radix) : 1 < radix.base := by
  cases radix <;> decide

/-- Capitals are twenty-six characters. -/
theorem eq_ofNat_of_isUpper {c : Char} (h : c.val ≥ 'A'.val ∧ c.val ≤ 'Z'.val) :
    ∃ i < 26, c = Char.ofNat (65 + i) := by
  obtain ⟨hlow, hhigh⟩ := h
  have hlow' : 65 ≤ c.toNat := hlow
  have hhigh' : c.toNat ≤ 90 := hhigh
  refine ⟨c.toNat - 65, by omega, ?_⟩
  rw [Nat.add_sub_cancel' hlow', Char.ofNat_toNat]

/-- A digit of a number has the value that it stands for, in either case. -/
theorem digit?_of_toLower {radix : Radix} {number : Nat} {c : Char} (hnumber : number < radix.base)
    (hc : c.toLower = number.digitChar) : radix.digit? c = some number := by
  by_cases hupper : c.val ≥ 'A'.val ∧ c.val ≤ 'Z'.val
  · obtain ⟨i, hi, rfl⟩ := eq_ofNat_of_isUpper hupper
    revert hc
    have hcases : ∀ radix : Radix, ∀ number < radix.base, ∀ i < 26,
        (Char.ofNat (65 + i)).toLower = number.digitChar →
          radix.digit? (Char.ofNat (65 + i)) = some number := by
      intro radix
      cases radix <;> decide
    exact hcases radix number hnumber i hi
  · have hlower : c.toLower = c := dif_neg hupper
    obtain rfl : c = number.digitChar := hlower.symm.trans hc
    have hcases : ∀ radix : Radix, ∀ number < radix.base,
        radix.digit? number.digitChar = some number := by
      intro radix
      cases radix <;> decide
    exact hcases radix number hnumber

/-- The digits of a number are one digit, or those of its quotient by the base and one more. -/
theorem Writes.cases {radix : Radix} {number : Nat} {digits : List Char}
    (h : radix.Writes number digits) :
    (number < radix.base ∧ ∃ c, digits = [c] ∧ radix.digit? c = some number) ∨
    (radix.base ≤ number ∧ ∃ before c, digits = before ++ [c] ∧
      radix.Writes (number / radix.base) before ∧
      radix.digit? c = some (number % radix.base)) := by
  rw [Writes, Nat.toDigits_eq_if radix.one_lt_base] at h
  split at h
  · next hlt =>
    obtain ⟨c, rest, rfl, hc, hrest⟩ := List.map_eq_cons_iff.mp h
    obtain rfl := List.map_eq_nil_iff.mp hrest
    exact Or.inl ⟨hlt, c, rfl, digit?_of_toLower hlt hc⟩
  · next hle =>
    obtain ⟨before, last, rfl, hbefore, hlast⟩ := List.map_eq_append_iff.mp h
    obtain ⟨c, rest, rfl, hc, hrest⟩ := List.map_eq_cons_iff.mp hlast
    obtain rfl := List.map_eq_nil_iff.mp hrest
    have hpos := radix.one_lt_base
    exact Or.inr ⟨by omega, before, c, rfl, hbefore,
      digit?_of_toLower (Nat.mod_lt _ (by omega)) hc⟩

theorem value_append (radix : Radix) (number : Nat) (first second : List Char) :
    radix.value number (first ++ second) =
      radix.value number first >>= fun between => radix.value between second := by
  induction first generalizing number with
  | nil => rfl
  | cons c first ih =>
    rw [List.cons_append, value, value]
    cases radix.digit? c with
    | none => rfl
    | some digit => exact ih _

/-- **The digits of a number are read as the number.** -/
theorem value_of_writes {radix : Radix} {number : Nat} {digits : List Char}
    (h : radix.Writes number digits) : radix.value 0 digits = .ok number := by
  induction number using Nat.strongRecOn generalizing digits with
  | ind number ih =>
    rcases h.cases with ⟨-, c, rfl, hc⟩ | ⟨hle, before, c, rfl, hbefore, hc⟩
    · rw [value, hc]
      show Except.ok (0 * radix.base + number) = _
      rw [Nat.zero_mul, Nat.zero_add]
    · have hbase := radix.one_lt_base
      have hquotient : number / radix.base < number := Nat.div_lt_self (by omega) hbase
      rw [value_append, ih _ hquotient hbefore]
      show radix.value (number / radix.base) [c] = _
      rw [value, hc]
      show Except.ok (number / radix.base * radix.base + number % radix.base) = _
      rw [Nat.div_add_mod']

/-- Digits are letters or figures. -/
theorem digit?_eq_some {radix : Radix} {c : Char} {digit : Nat} (h : radix.digit? c = some digit) :
    (48 ≤ c.toNat ∧ c.toNat ≤ 57) ∨ (97 ≤ c.toNat ∧ c.toNat ≤ 102) ∨
      (65 ≤ c.toNat ∧ c.toNat ≤ 70) := by
  rw [digit?.eq_def] at h
  split at h
  · next hfigure => exact Or.inl hfigure
  · cases radix with
    | decimal => cases h
    | hexadecimal =>
      dsimp only at h
      split at h
      · next hlower => exact Or.inr (Or.inl hlower)
      · split at h
        · next hupper => exact Or.inr (Or.inr hupper)
        · cases h

theorem digit?_of_mem {radix : Radix} {number : Nat} {digits : List Char}
    (h : radix.Writes number digits) : ∀ c ∈ digits, ∃ digit, radix.digit? c = some digit := by
  induction number using Nat.strongRecOn generalizing digits with
  | ind number ih =>
    intro c hmem
    rcases h.cases with ⟨-, d, rfl, hd⟩ | ⟨hle, before, d, rfl, hbefore, hd⟩
    · obtain rfl := List.mem_singleton.mp hmem
      exact ⟨_, hd⟩
    · have hbase := radix.one_lt_base
      rcases List.mem_append.mp hmem with hmem | hmem
      · exact ih _ (Nat.div_lt_self (by omega) hbase) hbefore c hmem
      · obtain rfl := List.mem_singleton.mp hmem
        exact ⟨_, hd⟩

/-- A digit takes one byte. -/
theorem utf8Size_of_digit? {radix : Radix} {c : Char} {digit : Nat}
    (h : radix.digit? c = some digit) : c.utf8Size = 1 := by
  have hrange := digit?_eq_some h
  rw [Char.utf8Size_eq_one_iff, UInt32.le_iff_toNat_le]
  show c.toNat ≤ 127
  omega

/-- Digits are counted in bytes as they are in characters. -/
theorem byteCount_of_digits {radix : Radix} {digits : List Char}
    (h : ∀ c ∈ digits, ∃ digit, radix.digit? c = some digit) : byteCount digits = digits.length := by
  induction digits with
  | nil => rfl
  | cons c digits ih =>
    obtain ⟨⟨digit, hc⟩, hdigits⟩ := List.forall_mem_cons.mp h
    rw [byteCount_cons, utf8Size_of_digit? hc, ih hdigits, List.length_cons, Nat.add_comm]

/-! ## Digits, with zeros before them -/

/-- A digit has a value below the base and is the figure or the letter for it, in either case; only
the figure zero has no value. -/
theorem toLower_of_digit? {radix : Radix} {c : Char} {digit : Nat}
    (h : radix.digit? c = some digit) :
    digit < radix.base ∧ c.toLower = digit.digitChar ∧ (digit = 0 → c = '0') := by
  have hall : ∀ radix : Radix, ∀ code < 128,
      (radix.digit? (Char.ofNat code)).all (fun digit =>
        decide (digit < radix.base ∧ (Char.ofNat code).toLower = digit.digitChar ∧
          (digit = 0 → Char.ofNat code = '0'))) = true := by
    intro radix
    cases radix <;> decide
  have hcode : c.toNat < 128 := by
    have hrange := digit?_eq_some h
    omega
  have hc := hall radix c.toNat hcode
  rw [Char.ofNat_toNat, h] at hc
  exact of_decide_eq_true hc

theorem digit?_zero (radix : Radix) : radix.digit? '0' = some 0 := by
  cases radix <;> rfl

/-- One digit writes its own value. -/
theorem writes_singleton {radix : Radix} {c : Char} {digit : Nat}
    (h : radix.digit? c = some digit) : radix.Writes digit [c] := by
  obtain ⟨hlt, hlower, -⟩ := toLower_of_digit? h
  rw [Writes, Nat.toDigits_eq_if radix.one_lt_base, if_pos hlt, List.map_singleton, hlower]

/-- One digit more multiplies by the base and adds its value. -/
theorem writes_append {radix : Radix} {number digit : Nat} {before : List Char} {c : Char}
    (hbefore : radix.Writes number before) (hnumber : number ≠ 0)
    (h : radix.digit? c = some digit) :
    radix.Writes (number * radix.base + digit) (before ++ [c]) := by
  obtain ⟨hlt, hlower, -⟩ := toLower_of_digit? h
  have hbase := radix.one_lt_base
  have hle : ¬ number * radix.base + digit < radix.base := by
    have := Nat.mul_le_mul_right radix.base (Nat.one_le_iff_ne_zero.mpr hnumber)
    omega
  have hquotient : (number * radix.base + digit) / radix.base = number := by
    rw [Nat.mul_comm, Nat.mul_add_div (by omega), Nat.div_eq_of_lt hlt, Nat.add_zero]
  have hrest : (number * radix.base + digit) % radix.base = digit := by
    rw [Nat.mul_comm, Nat.mul_add_mod, Nat.mod_eq_of_lt hlt]
  rw [Writes, Nat.toDigits_eq_if hbase, if_neg hle, hquotient, hrest, List.map_append,
    List.map_singleton, hlower, hbefore]

/-- Zeros before a number change nothing. -/
theorem value_zeros (radix : Radix) (zeros : Nat) (digits : List Char) :
    radix.value 0 (List.replicate zeros '0' ++ digits) = radix.value 0 digits := by
  induction zeros with
  | zero => rfl
  | succ zeros ih =>
    rw [List.replicate_succ, List.cons_append, value, digit?_zero]
    show radix.value (0 * radix.base + 0) _ = _
    rw [Nat.zero_mul]
    exact ih

/-- **A run of digits is a number, with zeros before it.** -/
theorem value_eq_ok_iff {radix : Radix} {digits : List Char} {number : Nat} (h : number ≠ 0) :
    radix.value 0 digits = .ok number ↔
      ∃ zeros shortest, digits = List.replicate zeros '0' ++ shortest ∧
        radix.Writes number shortest := by
  constructor
  · intro hvalue
    suffices hall : ∀ number, radix.value 0 digits = .ok number →
        ∃ zeros shortest, digits = List.replicate zeros '0' ++ shortest ∧
          (number = 0 ∧ shortest = [] ∨ number ≠ 0 ∧ radix.Writes number shortest) by
      obtain ⟨zeros, shortest, hdigits, ⟨hzero, -⟩ | ⟨-, hwrites⟩⟩ := hall number hvalue
      · exact absurd hzero h
      · exact ⟨zeros, shortest, hdigits, hwrites⟩
    clear hvalue h
    -- the digits are taken from the right, as the number is divided by the base
    induction digits using List.reverseRecOn with
    | nil =>
      intro number hvalue
      obtain rfl := Except.ok.inj hvalue
      exact ⟨0, [], rfl, Or.inl ⟨rfl, rfl⟩⟩
    | append_singleton before c ih =>
      intro number hvalue
      rw [value_append, bind_eq_ok_iff] at hvalue
      obtain ⟨quotient, hbefore, hlast⟩ := hvalue
      rw [value] at hlast
      split at hlast
      · next digit hdigit =>
        obtain rfl := Except.ok.inj hlast
        obtain ⟨zeros, shortest, rfl, ⟨rfl, rfl⟩ | ⟨hquotient, hwrites⟩⟩ := ih quotient hbefore
        · rw [Nat.zero_mul, Nat.zero_add, List.append_nil]
          by_cases hzero : digit = 0
          · subst hzero
            obtain rfl := (toLower_of_digit? hdigit).2.2 rfl
            exact ⟨zeros + 1, [], by rw [List.replicate_succ', List.append_nil],
              Or.inl ⟨rfl, rfl⟩⟩
          · exact ⟨zeros, [c], rfl, Or.inr ⟨hzero, writes_singleton hdigit⟩⟩
        · refine ⟨zeros, shortest ++ [c], List.append_assoc .., Or.inr ⟨?_, ?_⟩⟩
          · have := Nat.mul_pos (Nat.pos_of_ne_zero hquotient) (Nat.zero_lt_of_lt radix.one_lt_base)
            omega
          · exact writes_append hwrites hquotient hdigit
      · cases hlast
  · rintro ⟨zeros, shortest, rfl, hwrites⟩
    rw [value_zeros, value_of_writes hwrites]

/-- Digits with zeros before them are digits. -/
theorem digit?_of_mem_zeros {radix : Radix} {number zeros : Nat} {digits : List Char}
    (h : radix.Writes number digits) :
    ∀ c ∈ List.replicate zeros '0' ++ digits, ∃ digit, radix.digit? c = some digit := by
  intro c hmem
  rcases List.mem_append.mp hmem with hmem | hmem
  · obtain rfl := List.eq_of_mem_replicate hmem
    exact ⟨0, digit?_zero radix⟩
  · exact digit?_of_mem h c hmem

end Radix
end Text
end ServiceTypes
