import ScriptFront.Proofs.Text.Digits

/-!
# Signed integers in text

`Writes base cs n` says that `cs` are digits with a sign or none, and which integer they write.
`readSigned64` reads just what is written so and fits (`readSigned64_eq_some`), and the text of an integer
writes it in decimal (`writes_toString`). Counting with `next64` is counting without a bound and wrapping
into the signed 64-bit range at the end (`next64_wrap64`).
-/

namespace ScriptFront.Text

/-! ## Text that writes an integer -/

/-- Whether a text writes an integer: digits, with a sign in front of them or none. -/
inductive Writes (base : Nat) : List Char → Int → Prop where
  | digits {cs : List Char} {n : Nat} (h : readDigits base cs = some n) : Writes base cs n
  | plus {cs : List Char} {n : Nat} (h : readDigits base cs = some n) : Writes base ('+' :: cs) n
  | minus {cs : List Char} {n : Nat} (h : readDigits base cs = some n) : Writes base ('-' :: cs) (-n)

variable {base : Nat} {cs : List Char} {n m : Int}

/-- A sign is no digit. -/
theorem readDigits_sign {c : Char} (hc : c = '+' ∨ c = '-') : readDigits base (c :: cs) = none := by
  cases h : readDigits base (c :: cs) with
  | none => rfl
  | some n =>
    obtain ⟨-, hdigits, -⟩ := readDigits_eq_some.1 h
    have hdigit := hdigits c List.mem_cons_self
    obtain rfl | rfl := hc <;> simp [IsDigit, digitValue] at hdigit

/-- A text writes one integer. -/
theorem Writes.unique (h : Writes base cs n) (h' : Writes base cs m) : n = m := by
  cases h with
  | digits h =>
    cases h' with
    | digits h' => rw [Option.some.inj (h.symm.trans h')]
    | plus => rw [readDigits_sign (.inl rfl)] at h; cases h
    | minus => rw [readDigits_sign (.inr rfl)] at h; cases h
  | plus h =>
    cases h' with
    | digits h' => rw [readDigits_sign (.inl rfl)] at h'; cases h'
    | plus h' => rw [Option.some.inj (h.symm.trans h')]
  | minus h =>
    cases h' with
    | digits h' => rw [readDigits_sign (.inr rfl)] at h'; cases h'
    | minus h' => rw [Option.some.inj (h.symm.trans h')]

/-- Digits with a sign or none are read just if they write an integer that fits. -/
theorem readSigned64_eq_some :
    readSigned64 base cs = some n ↔ Writes base cs n ∧ fits64 n = true := by
  have hfilter : ∀ {o : Option Int}, o.filter fits64 = some n ↔ o = some n ∧ fits64 n = true :=
    Option.filter_eq_some_iff
  unfold readSigned64
  rw [hfilter, and_congr_left_iff]
  intro _
  constructor
  · intro h
    split at h
    · obtain ⟨_, hread, rfl⟩ := Option.map_eq_some_iff.1 h
      obtain ⟨v, hv, hcast⟩ := Option.bind_eq_some_iff.1 hread
      cases hcast
      exact .minus hv
    · obtain ⟨_, hread, rfl⟩ := Option.map_eq_some_iff.1 h
      obtain ⟨v, hv, hcast⟩ := Option.bind_eq_some_iff.1 hread
      cases hcast
      unfold readUnsigned at hv
      split at hv
      · exact .plus hv
      · exact .digits hv
  · intro h
    cases h with
    | minus h => simp [h]
    | plus h => simp [readUnsigned, h]
    | @digits _ v h =>
      split
      · rw [readDigits_sign (.inr rfl)] at h
        cases h
      · unfold readUnsigned
        split
        · rw [readDigits_sign (.inl rfl)] at h
          cases h
        · simp [h]

/-! ## The text of an integer -/

theorem digitValue_of_isDigit {c : Char} (h : c.isDigit = true) :
    digitValue 10 c = some (c.toNat - '0'.toNat) := by
  have hrange : c.toNat - '0'.toNat < 10 := by
    simp only [Char.isDigit, Bool.and_eq_true, decide_eq_true_eq] at h
    have hle : c.toNat ≤ 57 := h.2
    have h0 : '0'.toNat = 48 := rfl
    omega
  unfold digitValue
  rw [if_pos h]
  exact if_pos hrange

/-- Decimal digits stand for the number that the library reads from them. -/
theorem numberFrom_eq_ofDigitChars {digits : List Char} (h : ∀ c ∈ digits, c.isDigit = true) (v : Nat) :
    numberFrom 10 v digits = Nat.ofDigitChars 10 digits v := by
  induction digits generalizing v with
  | nil => rfl
  | cons c digits ih =>
    rw [List.forall_mem_cons] at h
    rw [Nat.ofDigitChars_cons, ← ih h.2]
    simp [numberFrom, digitValue_of_isDigit h.1, Nat.mul_comm]

/-- Decimal digits write an integer. -/
theorem readDigits_of_digits (hne : cs ≠ []) (h : ∀ c ∈ cs, c.isDigit = true) :
    readDigits 10 cs = some (numberOf 10 cs) := by
  apply readDigits_eq_some.2
  refine ⟨hne, fun c hc => ?_, rfl⟩
  rw [IsDigit, digitValue_of_isDigit (h c hc)]
  rfl

theorem readDigits_toString (v : Nat) : readDigits 10 (toString v).toList = some v := by
  have hdigits : ∀ c ∈ Nat.toDigits 10 v, c.isDigit = true := fun c hc =>
    Nat.isDigit_of_mem_toDigits (by decide) (by decide) hc
  rw [Nat.toString_eq_ofList_toDigits, String.toList_ofList,
    readDigits_of_digits Nat.toDigits_ne_nil hdigits, numberOf, numberFrom_eq_ofDigitChars hdigits,
    Nat.ofDigitChars_ten_toDigits]

/-- The text of an integer writes it. -/
theorem writes_toString (n : Int) : Writes 10 (toString n).toList n := by
  cases n with
  | ofNat v => exact .digits (readDigits_toString v)
  | negSucc v =>
    have htext : (toString (Int.negSucc v)).toList = '-' :: (toString (v + 1)).toList := by
      show ("-" ++ toString (v + 1)).toList = _
      rw [String.toList_append]
      rfl
    rw [htext, Int.negSucc_eq]
    exact .minus (readDigits_toString (v + 1))

/-! ## The signed 64-bit range -/

/-- An integer brought into the signed 64-bit range. -/
def wrap64 (n : Int) : Int := n.bmod 18446744073709551616

theorem fits64_iff : fits64 n = true ↔ -9223372036854775808 ≤ n ∧ n ≤ 9223372036854775807 := by
  simp [fits64]

theorem fits64_wrap64 (n : Int) : fits64 (wrap64 n) = true := by
  have hle := Int.le_bmod (x := n) (m := 18446744073709551616) (by decide)
  have hlt := Int.bmod_lt (x := n) (m := 18446744073709551616) (by decide)
  rw [fits64_iff, wrap64]
  omega

theorem wrap64_of_fits64 (h : fits64 n = true) : wrap64 n = n := by
  rw [fits64_iff] at h
  exact Int.bmod_eq_of_le (by omega) (by omega)

/-- Behind the largest integer the range starts again. -/
theorem wrap64_of_gt (h : 9223372036854775807 < n) (hle : n ≤ 9223372036854775807 + 18446744073709551616) :
    wrap64 n = n - 18446744073709551616 := by
  have hshift : wrap64 (n - 18446744073709551616) = wrap64 n := by
    simp [wrap64, Int.bmod_def]
  rw [← hshift, wrap64_of_fits64 (fits64_iff.2 (by omega))]

theorem next64_wrap64 (n : Int) : next64 (wrap64 n) = wrap64 (n + 1) :=
  Int.bmod_add_bmod

end ScriptFront.Text
