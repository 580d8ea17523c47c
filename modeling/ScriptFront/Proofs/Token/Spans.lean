import ScriptFront.Proofs.Token.Writing

/-!
# What a lexeme takes of a text

A lexeme has a character and never reaches beyond the text (`Lexeme.spans_atStart`). Where none can be read
the error is a lexical one (`Lexeme.kind_of_atStart_error`).
-/

namespace ScriptFront

namespace Lexeme

/-! ## The length of a lexeme -/

/-- Whether a lexeme is no end of the text and takes some of the first `n` characters. -/
structure Spans (l : Lexeme) (n : Nat) : Prop where
  inside : l.kind ≠ .endOfFile
  pos : 1 ≤ l.length
  le : l.length ≤ n

theorem length_takeWhile_le (p : Char → Bool) (cs : List Char) :
    (cs.takeWhile p).length ≤ cs.length :=
  (List.takeWhile_prefix p).length_le

theorem escape_length_le {cs value : List Char} {k : Nat} (h : escape cs = .ok (value, k)) :
    k ≤ cs.length := by
  unfold escape at h
  split at h
  case h_1 => cases h
  case h_8 rest =>
    dsimp only at h
    split at h
    · cases h
      rw [List.length_cons, List.length_take]
      omega
    · cases h
  case h_9 c rest _ _ _ _ _ _ _ =>
    split at h
    · dsimp only at h
      split at h
      · split at h
        · next hdigits =>
          cases h
          have := hdigits.1
          rw [List.length_cons, List.length_take] at this
          rw [List.length_cons]
          omega
        · cases h
      · cases h
    · cases h
      exact Nat.succ_le_succ (Nat.zero_le _)
  all_goals
    cases h
    exact Nat.succ_le_succ (Nat.zero_le _)

theorem quotedFrom_length {quote : Char} {fuel n : Nat} {cs text : List Char}
    {r : List Char × Nat} (h : quotedFrom quote fuel cs text n = .ok r) :
    n ≤ r.2 ∧ r.2 ≤ n + cs.length := by
  induction fuel generalizing cs text n with
  | zero => cases h
  | succ fuel ih =>
    cases cs with
    | nil => cases h
    | cons c cs =>
      rw [List.length_cons]
      unfold quotedFrom at h
      split at h
      · cases h
      · split at h
        · cases h
          dsimp only
          omega
        · split at h
          · split at h
            · cases h
            · next hescape =>
              have hk := escape_length_le hescape
              have hrest := ih h
              rw [List.length_drop] at hrest
              omega
          · have hrest := ih h
            omega

theorem spans_quoted {quote : Char} {rest : List Char} {l : Lexeme}
    (h : quoted quote rest = .ok l) : l.Spans (rest.length + 1) := by
  unfold quoted at h
  split at h
  · cases h
  · next hread =>
    cases h
    have hlength := quotedFrom_length hread
    refine ⟨?_, hlength.1, Nat.le_trans hlength.2 (Nat.le_of_eq (Nat.add_comm 1 _))⟩
    dsimp only
    split <;> simp

theorem length_blockCommentFrom (cs text : List Char) (n : Nat) :
    n ≤ (blockCommentFrom cs text n).length ∧
      (blockCommentFrom cs text n).length ≤ n + cs.length := by
  fun_induction blockCommentFrom cs text n with
  | case1 => exact ⟨Nat.le_refl _, Nat.le_refl _⟩
  | case2 =>
    simp only [List.length_cons]
    omega
  | case3 _ _ _ _ _ ih =>
    rw [List.length_cons]
    omega

theorem spans_decimal {c : Char} {cs : List Char} {l : Lexeme} (hc : c.isDigit = true)
    (h : decimal (c :: cs) = .ok l) : l.Spans (c :: cs).length := by
  have hle : (digitRun (c :: cs)).length ≤ (c :: cs).length := length_takeWhile_le _ _
  have hpos : 1 ≤ (digitRun (c :: cs)).length := by
    unfold digitRun
    rw [List.takeWhile_cons_of_pos (by unfold isDigitOrGap; rw [hc]; rfl)]
    exact Nat.succ_pos _
  unfold decimal at h
  dsimp only at h
  split at h
  · next rest hdrop =>
    have hlength := congrArg List.length hdrop
    rw [List.length_drop, List.length_cons] at hlength
    split at h
    · cases h
      exact ⟨by simp, hpos, hle⟩
    · next d rest _ =>
      split at h
      · cases h
        have hfraction : (digitRun (d :: rest)).length ≤ (d :: rest).length :=
          length_takeWhile_le _ _
        simp only [List.length_cons] at hfraction hlength hle
        refine ⟨by simp, ?_, ?_⟩ <;> simp only [List.length_cons] <;> omega
      · cases h
    · cases h
  · cases h
    exact ⟨by simp, hpos, hle⟩

theorem spans_hexadecimal {rest : List Char} {l : Lexeme} (h : hexadecimal rest = .ok l) :
    l.Spans (rest.length + 2) := by
  unfold hexadecimal at h
  dsimp only at h
  split at h
  · cases h
  · cases h
    have := length_takeWhile_le isHexDigit rest
    refine ⟨by simp, ?_, ?_⟩ <;> dsimp only <;> omega

theorem spans_number {c : Char} {cs : List Char} {l : Lexeme} (hc : c.isDigit = true)
    (h : number (c :: cs) = .ok l) : l.Spans (c :: cs).length := by
  unfold number at h
  split at h
  · next heq =>
    rw [heq]
    exact spans_hexadecimal h
  · next heq =>
    rw [heq]
    exact spans_hexadecimal h
  · exact spans_decimal hc h

theorem spans_mark {c : Char} {cs : List Char} {l : Lexeme} (h : mark (c :: cs) = some l) :
    l.Spans (c :: cs).length := by
  unfold mark at h
  cases hmark : Mark.atStart? (c :: cs) with
  | none =>
    rw [hmark] at h
    cases h
  | some found =>
    rw [hmark] at h
    dsimp only at h
    split at h
    · cases h
      exact ⟨by simp, Nat.le_refl 1, Nat.succ_le_succ (Nat.zero_le _)⟩
    · cases h
      have hspelled : ∀ s ∈ Mark.spellings, 1 ≤ s.1.length := by decide
      have hprefix := List.find?_some hmark
      exact ⟨by simp, hspelled _ (List.mem_of_find?_eq_some hmark),
        (List.isPrefixOf_iff_prefix.1 hprefix).length_le⟩

theorem spans_word {c : Char} (hc : Text.isIdentifierStart c = true) (cs : List Char) :
    (word (c :: cs)).Spans (c :: cs).length := by
  have hpos : 1 ≤ ((c :: cs).takeWhile Text.isIdentifierPart).length := by
    rw [List.takeWhile_cons_of_pos (Text.isIdentifierPart_of_start hc)]
    exact Nat.succ_pos _
  unfold word
  dsimp only
  split <;> exact ⟨by simp, hpos, length_takeWhile_le _ _⟩

/-- Where a text goes on there is a lexeme of some of its characters, or an error. -/
theorem spans_atStart {c : Char} {cs : List Char} {l : Lexeme} (h : atStart (c :: cs) = .ok l) :
    l.Spans (c :: cs).length := by
  unfold atStart at h
  split at h
  · next hnil => cases hnil
  · next heq =>
    rw [heq]
    exact spans_quoted h
  · next heq =>
    rw [heq]
    exact spans_quoted h
  · next rest heq =>
    rw [heq]
    unfold template at h
    dsimp only at h
    split at h
    · cases h
    · cases h
      have := length_takeWhile_le (· ≠ '\x60') rest
      refine ⟨by simp, ?_, ?_⟩ <;> simp only [List.length_cons] <;> omega
  · next rest heq =>
    rw [heq]
    cases h
    have := length_takeWhile_le (· ≠ '\n') rest
    unfold lineComment
    dsimp only
    split <;> refine ⟨by simp, ?_, ?_⟩ <;> simp only [List.length_cons] <;> omega
  · next rest heq =>
    rw [heq]
    cases h
    have hlength := length_blockCommentFrom rest [] 2
    refine ⟨by simp [plain_blockComment], ?_, ?_⟩
    · omega
    · simp only [List.length_cons]
      omega
  · next heq =>
    obtain ⟨rfl, rfl⟩ := List.cons.inj heq
    split at h
    · next hstart =>
      cases h
      exact spans_word hstart _
    · split at h
      · next hdigit => exact spans_number hdigit h
      · split at h
        · next hmark =>
          cases h
          exact spans_mark hmark
        · cases h

theorem atStart_nil : atStart [] = .ok ⟨.endOfFile, "", 0⟩ := rfl

/-! ## Errors of lexemes -/

theorem kind_of_escape_error {cs : List Char} {cause : Cause} (h : escape cs = .error cause) :
    cause.kind = .lexical := by
  unfold escape at h
  split at h
  case h_1 =>
    cases h
    rfl
  case h_8 =>
    dsimp only at h
    split at h
    · cases h
    · cases h
      rfl
  case h_9 =>
    split at h
    · dsimp only at h
      split at h
      · split at h
        · cases h
        · cases h
          rfl
      · cases h
        rfl
    · cases h
  all_goals cases h

theorem kind_of_quotedFrom_error {quote : Char} {fuel n : Nat} {cs text : List Char} {cause : Cause}
    (h : quotedFrom quote fuel cs text n = .error cause) : cause.kind = .lexical := by
  induction fuel generalizing cs text n with
  | zero =>
    cases h
    rfl
  | succ fuel ih =>
    cases cs with
    | nil =>
      cases h
      rfl
    | cons c cs =>
      unfold quotedFrom at h
      split at h
      · cases h
        rfl
      · split at h
        · cases h
        · split at h
          · split at h
            · next hescape =>
              cases h
              exact kind_of_escape_error hescape
            · exact ih h
          · exact ih h

theorem kind_of_quoted_error {quote : Char} {rest : List Char} {cause : Cause}
    (h : quoted quote rest = .error cause) : cause.kind = .lexical := by
  unfold quoted at h
  split at h
  · next hread =>
    cases h
    exact kind_of_quotedFrom_error hread
  · cases h

theorem kind_of_hexadecimal_error {rest : List Char} {cause : Cause}
    (h : hexadecimal rest = .error cause) : cause.kind = .lexical := by
  unfold hexadecimal at h
  dsimp only at h
  split at h
  · cases h
    rfl
  · cases h

theorem kind_of_number_error {cs : List Char} {cause : Cause} (h : number cs = .error cause) :
    cause.kind = .lexical := by
  unfold number at h
  split at h
  · exact kind_of_hexadecimal_error h
  · exact kind_of_hexadecimal_error h
  · unfold decimal at h
    dsimp only at h
    split at h
    · split at h
      · cases h
      · split at h
        · cases h
        · cases h
          rfl
      · cases h
        rfl
    · cases h

/-- Where no lexeme can be read, the error is a lexical one. -/
theorem kind_of_atStart_error {cs : List Char} {cause : Cause} (h : atStart cs = .error cause) :
    cause.kind = .lexical := by
  unfold atStart at h
  split at h
  · cases h
  · exact kind_of_quoted_error h
  · exact kind_of_quoted_error h
  · unfold template at h
    dsimp only at h
    split at h
    · cases h
      rfl
    · cases h
  · cases h
  · cases h
  · split at h
    · cases h
    · split at h
      · exact kind_of_number_error h
      · split at h
        · cases h
        · cases h
          rfl

end Lexeme

end ScriptFront
