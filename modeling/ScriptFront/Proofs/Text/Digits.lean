import ScriptFront.Text.Integer

/-!
# Numbers written with digits

Digits are read just when all of them are digits of the base, and then as the number that they stand for
(`readDigits_eq_some`).
-/

namespace ScriptFront.Text

/-- Whether a character is a digit of a base. -/
def IsDigit (base : Nat) (c : Char) : Prop := (digitValue base c).isSome = true

instance (base : Nat) (c : Char) : Decidable (IsDigit base c) :=
  inferInstanceAs (Decidable (_ = true))

/-- The number that digits stand for behind the digits of `n`. -/
def numberFrom (base n : Nat) (digits : List Char) : Nat :=
  digits.foldl (fun n c => n * base + (digitValue base c).getD 0) n

/-- The number that digits stand for. -/
def numberOf (base : Nat) (digits : List Char) : Nat := numberFrom base 0 digits

example : numberOf 16 ['f', 'F'] = 255 := by decide

variable {base n v : Nat} {digits : List Char}

theorem digitsFrom_eq_some :
    digitsFrom base n digits = some v ↔
      (∀ c ∈ digits, IsDigit base c) ∧ v = numberFrom base n digits := by
  induction digits generalizing n with
  | nil => simp [digitsFrom, numberFrom, eq_comm]
  | cons c digits ih =>
    unfold digitsFrom
    rw [List.forall_mem_cons]
    cases hc : digitValue base c with
    | none => simp [IsDigit, hc]
    | some d =>
      simp only
      rw [ih]
      simp [IsDigit, numberFrom, hc]

theorem readDigits_eq_some :
    readDigits base digits = some v ↔
      digits ≠ [] ∧ (∀ c ∈ digits, IsDigit base c) ∧ v = numberOf base digits := by
  cases digits with
  | nil => simp [readDigits]
  | cons c digits =>
    unfold readDigits numberOf
    rw [digitsFrom_eq_some]
    simp

theorem readUnsigned_sign (cs : List Char) : readUnsigned base ('+' :: cs) = readDigits base cs := rfl

/-- What does not start with a sign is read as digits. -/
theorem readUnsigned_cons {c : Char} (hc : c ≠ '+') (cs : List Char) :
    readUnsigned base (c :: cs) = readDigits base (c :: cs) := by
  unfold readUnsigned
  split
  · next h => exact absurd (List.cons.inj h).1 hc
  · rfl

/-- A digit of a base up to ten is a decimal one. -/
theorem IsDigit.isDigit {c : Char} (h : IsDigit base c) (hbase : base ≤ 10) : c.isDigit = true := by
  unfold IsDigit digitValue at h
  cases hc : c.isDigit with
  | true => rfl
  | false =>
    have hletter : base ≤ if c.isLower then c.toNat - 'a'.toNat + 10
        else if c.isUpper then c.toNat - 'A'.toNat + 10 else base := by
      split
      · omega
      · split <;> omega
    rw [hc] at h
    dsimp only at h
    rw [if_neg Bool.false_ne_true, if_neg (Nat.not_lt.2 hletter)] at h
    cases h

end ScriptFront.Text
