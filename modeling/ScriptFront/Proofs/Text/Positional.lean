import Mathlib.Data.Nat.Digits.Defs
import ScriptFront.Proofs.Text.Signed

/-!
# Positional notation

Digits stand for their values, each times the power of the base that belongs to its place
(`numberOf_eq_ofDigits`). Without a sign, digits of any number are read as a signed 64-bit integer just when
what they stand for is below 2^63 (`readSigned64_digits`).

For base 16 the values are told by a list of the digits: `hexNumber` does without any reading.
-/

namespace ScriptFront.Text

/-! ## Places -/

/-- Reading from the first digit on gives every digit the power of the base that belongs to its place,
counted from the last one. -/
theorem numberOf_eq_ofDigits (base : Nat) (digits : List Char) :
    numberOf base digits =
      Nat.ofDigits base (digits.reverse.map fun c => (digitValue base c).getD 0) := by
  unfold numberOf numberFrom
  rw [List.foldl_eq_foldr_reverse, Nat.ofDigits_eq_foldr, List.foldr_map]
  refine congrArg (List.foldr · 0 digits.reverse) ?_
  funext c n
  rw [Nat.mul_comm, Nat.add_comm]
  rfl

/-! ## Hexadecimal digits -/

/-- The hexadecimal digits by their values, and the letters once more in upper case. -/
def hexDigits : List Char := "0123456789abcdefABCDEF".toList

/-- The value of a digit: the place of its lower case among the digits. -/
def hexDigitValue (c : Char) : Nat := hexDigits.idxOf c.toLower

/-- The number that hexadecimal digits stand for. -/
def hexNumber (digits : String) : Nat := Nat.ofDigits 16 (digits.toList.reverse.map hexDigitValue)

theorem digitValue_of_mem_hexDigits {c : Char} (h : c ∈ hexDigits) :
    digitValue 16 c = some (hexDigitValue c) := by
  have hall : (hexDigits.all fun c => digitValue 16 c == some (hexDigitValue c)) = true := by decide
  exact beq_iff_eq.1 (List.all_eq_true.1 hall c h)

theorem isDigit_of_mem_hexDigits {c : Char} (h : c ∈ hexDigits) : IsDigit 16 c := by
  unfold IsDigit
  rw [digitValue_of_mem_hexDigits h]
  rfl

theorem numberOf_eq_hexNumber {digits : String} (h : digits.toList ⊆ hexDigits) :
    numberOf 16 digits.toList = hexNumber digits := by
  have hvalues : digits.toList.reverse.map (fun c => (digitValue 16 c).getD 0) =
      digits.toList.reverse.map hexDigitValue := by
    refine List.map_congr_left fun c hc => ?_
    rw [digitValue_of_mem_hexDigits (h (List.mem_reverse.1 hc))]
    rfl
  rw [numberOf_eq_ofDigits, hvalues]
  rfl

/-! ## The range -/

theorem readSigned64_digits {base : Nat} {digits : List Char} (hne : digits ≠ [])
    (hdigits : ∀ c ∈ digits, IsDigit base c) :
    readSigned64 base digits =
      if numberOf base digits < 2 ^ 63 then some (numberOf base digits : Int) else none := by
  have hwrites : Writes base digits (numberOf base digits) :=
    .digits (readDigits_eq_some.2 ⟨hne, hdigits, rfl⟩)
  split
  · next hlt => exact readSigned64_eq_some.2 ⟨hwrites, fits64_iff.2 (by omega)⟩
  · next hge =>
    rw [Option.eq_none_iff_forall_ne_some]
    intro n hread
    -- The integer that was read would be the number, which is out of the range.
    obtain ⟨hn, hfits⟩ := readSigned64_eq_some.1 hread
    obtain rfl := hn.unique hwrites
    have hle := (fits64_iff.1 hfits).2
    omega

end ScriptFront.Text
