/-
Module: Plumego.Go.Numbers
Purpose: Decimal texts of integers, as `strconv` reads and writes them.
Trusted boundary: none
Main exports: decimalDigits, mem_decimalDigits, formatInt, formatInt_injective, parseInt64
-/
import Plumego.Go.Order
import Plumego.Go.Strings
import Plumego.Go.Time

namespace Plumego.Go

/-- The decimal digits of a number. -/
def decimalDigits (value : Nat) : Bytes :=
  (Nat.toDigits 10 value).map fun digit => UInt8.ofNat digit.toNat

/-- Decimal digits are the bytes `0` to `9`. -/
theorem mem_decimalDigits {value : Nat} {byte : UInt8} (member : byte ∈ decimalDigits value) :
    0x30 ≤ byte.toNat ∧ byte.toNat ≤ 0x39 := by
  obtain ⟨digit, inside, rfl⟩ := List.mem_map.mp member
  have isDigit := Nat.isDigit_of_mem_toDigits (by decide) (by decide) inside
  have range : 48 ≤ digit.toNat ∧ digit.toNat ≤ 57 := by
    simpa [Char.isDigit, UInt32.le_iff_toNat_le] using isDigit
  have small : digit.toNat % 256 = digit.toNat := Nat.mod_eq_of_lt (by omega)
  rw [UInt8.toNat_ofNat', small]
  exact range

/-- `strconv.AppendInt(nil, value, 10)`. -/
def formatInt (value : Int) : Bytes :=
  if value < 0 then 0x2D :: decimalDigits value.natAbs else decimalDigits value.natAbs

/-- The number that decimal digits stand for. -/
def digitsValue (digits : Bytes) : Nat :=
  digits.foldl (fun value digit => 10 * value + (digit.toNat - 0x30)) 0

/-- The sign of a decimal text and the rest of it. -/
def splitSign : Bytes → Bool × Bytes
  | 0x2D :: rest => (true, rest)
  | 0x2B :: rest => (false, rest)
  | text => (false, text)

/-- `strconv.ParseInt(text, 10, 64)`: `none` for a syntax or range error. -/
def parseInt64 (text : Bytes) : Option Int :=
  match splitSign text with
  | (negative, digits) =>
    if digits = [] || !digits.all fun digit => 0x30 ≤ digit && digit ≤ 0x39 then none
    else
      let value : Int := if negative then -(digitsValue digits : Int) else digitsValue digits
      if -2 ^ 63 ≤ value ∧ value < 2 ^ 63 then some value else none

/-- Decimal digits stand for the number they were made of. -/
theorem digitsValue_decimalDigits (value : Nat) : digitsValue (decimalDigits value) = value := by
  have sameDigits : ∀ start : Nat,
      ((Nat.toDigits 10 value).map fun digit => UInt8.ofNat digit.toNat).foldl
          (fun total digit => 10 * total + (digit.toNat - 0x30)) start =
        Nat.ofDigitChars 10 (Nat.toDigits 10 value) start := by
    intro start
    rw [List.foldl_map, Nat.ofDigitChars_eq_foldl]
    apply List.foldl_ext
    intro total digit member
    have isDigit := Nat.isDigit_of_mem_toDigits (by decide) (by decide) member
    have range : 48 ≤ digit.toNat ∧ digit.toNat ≤ 57 := by
      simpa [Char.isDigit, UInt32.le_iff_toNat_le] using isDigit
    have small : digit.toNat % 256 = digit.toNat := Nat.mod_eq_of_lt (by omega)
    rw [UInt8.toNat_ofNat', small]
    rfl
  rw [digitsValue, decimalDigits, sameDigits]
  exact Nat.ofDigitChars_toDigits (by decide) (by decide)

/-- Digits do not start with a sign. -/
theorem decimalDigits_ne_signed (value : Nat) (rest : Bytes) :
    decimalDigits value ≠ 0x2D :: rest := by
  intro same
  have sign : (0x2D : UInt8) ∈ decimalDigits value := by
    rw [same]
    exact List.mem_cons_self
  exact absurd (mem_decimalDigits sign).1 (by decide)

theorem decimalDigits_injective {first second : Nat}
    (same : decimalDigits first = decimalDigits second) : first = second := by
  rw [← digitsValue_decimalDigits first, same, digitsValue_decimalDigits]

/-- Different numbers have different texts. -/
theorem formatInt_injective {first second : Int} (same : formatInt first = formatInt second) :
    first = second := by
  rw [formatInt, formatInt] at same
  split at same
  · split at same
    · have sameDigits := decimalDigits_injective (List.cons.inj same).2
      omega
    · exact absurd same.symm (decimalDigits_ne_signed _ _)
  · split at same
    · exact absurd same (decimalDigits_ne_signed _ _)
    · have sameDigits := decimalDigits_injective same
      omega

example : parseInt64 (formatInt (-9223372036854775808)) = some (-9223372036854775808) := by
  decide +kernel

end Plumego.Go
