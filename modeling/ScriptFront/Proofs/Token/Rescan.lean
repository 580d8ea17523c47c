import ScriptFront.Proofs.Token.Ahead
import ScriptFront.Proofs.Token.Writing

/-!
# Written tokens are scanned again

The tokens of a text, written one behind the other with blanks between them, scan to tokens of the same
kinds and texts: `Source.tokenize_writtenText`. Comments are left out of what is written, and a scan
passes from one written token to the next over a single blank.
-/

namespace ScriptFront

namespace Lexeme

/-- No lexeme starts with a blank. -/
theorem not_isBlank_of_atStart {c : Char} {cs : List Char} {l : Lexeme}
    (h : atStart (c :: cs) = .ok l) : Source.isBlank c = false := by
  cases hblank : Source.isBlank c with
  | false => rfl
  | true =>
    unfold Source.isBlank at hblank
    simp only [Bool.or_eq_true, beq_iff_eq] at hblank
    rcases hblank with ((rfl | rfl) | rfl) | rfl <;> cases h

end Lexeme

namespace Source

open Token (written shape significant writtenText)

/-- A token that is read from what is written for it. -/
structure Rewritable (t : Token) : Prop where
  plain : Lexeme.Plain t.kind t.text.toList
  inside : t.kind ≠ .endOfFile
  seen : t.kind.isComment = false

/-! ## Steps of a scan -/

theorem tokensFrom_blank {c : Char} (hc : isBlank c = true) (fuel : Nat) (cs : List Char)
    (p : Position) (before : List Token) :
    tokensFrom (fuel + 1) (c :: cs) p before = tokensFrom (fuel + 1) cs (p.advance c) before := by
  unfold tokensFrom
  rw [List.takeWhile_cons_of_pos hc]
  rfl

/-- A scan reads the written form of a token and is left at what stands behind it. -/
theorem tokensFrom_written {t : Token} (ht : Rewritable t) (fuel : Nat) (rest : List Char)
    (p : Position) (before : List Token) :
    ∃ q again, again.shape = t.shape ∧
      tokensFrom (fuel + 1) (t.written ++ ' ' :: rest) p before =
        tokensFrom fuel (' ' :: rest) q (again :: before) := by
  have hread := Lexeme.atStart_written ht.plain ht.inside ht.seen rest
  have hblanks : (t.written ++ ' ' :: rest).takeWhile isBlank = [] := by
    cases hchars : t.written with
    | nil =>
      -- Nothing is written for the end of the file alone.
      rw [show Lexeme.written t.kind t.text = [] from hchars] at hread
      cases hread
    | cons c cs =>
      rw [show Lexeme.written t.kind t.text = c :: cs from hchars, List.cons_append] at hread
      rw [List.cons_append, List.takeWhile_cons_of_neg]
      rw [Lexeme.not_isBlank_of_atStart hread]
      exact Bool.false_ne_true
  refine ⟨p.advanceAll t.written, ⟨t.kind, t.text, p⟩, rfl, ?_⟩
  rw [tokensFrom]
  rw [hblanks]
  simp only [List.length_nil, List.drop_zero, Position.advanceAll_nil]
  rw [show t.written = Lexeme.written t.kind t.text from rfl, hread]
  simp only [if_neg ht.inside, List.drop_left, List.take_left]

/-! ## Whole scans -/

/-- A scan of written tokens, each with a blank behind it. -/
theorem tokensFrom_flatMap {ts : List Token} (hts : ∀ t ∈ ts, Rewritable t) (fuel : Nat)
    (p : Position) (before : List Token) (hfuel : ts.length < fuel) :
    ∃ again, tokensFrom fuel (ts.flatMap fun t => t.written ++ [' ']) p before =
        .ok (before.reverse ++ again) ∧
      again.map shape = ts.map shape ++ [(.endOfFile, "")] := by
  induction ts generalizing fuel p before with
  | nil =>
    obtain ⟨fuel, rfl⟩ := Nat.exists_eq_succ_of_ne_zero (Nat.ne_of_gt hfuel)
    exact ⟨[⟨.endOfFile, "", p⟩], List.reverse_cons ▸ rfl, rfl⟩
  | cons t ts ih =>
    obtain ⟨ht, hts⟩ := List.forall_mem_cons.1 hts
    obtain ⟨fuel, rfl⟩ := Nat.exists_eq_succ_of_ne_zero (Nat.ne_of_gt (Nat.zero_lt_of_lt hfuel))
    have hfuel' : ts.length < fuel := by
      rw [List.length_cons] at hfuel
      omega
    obtain ⟨fuel, rfl⟩ := Nat.exists_eq_succ_of_ne_zero (Nat.ne_of_gt (Nat.zero_lt_of_lt hfuel'))
    rw [List.flatMap_cons, List.append_assoc, List.singleton_append]
    obtain ⟨q, t', hshape, hstep⟩ := tokensFrom_written ht (fuel + 1)
      (ts.flatMap fun t => t.written ++ [' ']) p before
    rw [hstep, tokensFrom_blank rfl]
    obtain ⟨again, hrun, hagain⟩ := ih hts (fuel + 1) (q.advance ' ') (t' :: before) hfuel'
    refine ⟨t' :: again, ?_, ?_⟩
    · rw [hrun, List.reverse_cons, List.append_assoc, List.singleton_append]
    · rw [List.map_cons, hagain, hshape, List.map_cons, List.cons_append]

/-- Every token of a scan has the form of its kind. -/
theorem tokensFrom_plain {fuel : Nat} {cs : List Char} {p : Position} {before tokens : List Token}
    (hbefore : ∀ t ∈ before, Lexeme.Plain t.kind t.text.toList)
    (h : tokensFrom fuel cs p before = .ok tokens) :
    ∀ t ∈ tokens, Lexeme.Plain t.kind t.text.toList := by
  induction fuel generalizing cs p before with
  | zero => cases h
  | succ fuel ih =>
    unfold tokensFrom at h
    simp only at h
    split at h
    · cases h
    · next l hl =>
      have hplain : ∀ q, ∀ t ∈ (⟨l.kind, l.text, q⟩ : Token) :: before,
          Lexeme.Plain t.kind t.text.toList := by
        intro q
        rw [List.forall_mem_cons]
        exact ⟨Lexeme.plain_atStart hl, hbefore⟩
      split at h
      · cases h
        intro t ht
        exact hplain _ t (List.mem_reverse.1 ht)
      · exact ih (hplain _) h

/-- The end of the file adds a blank at the end and nothing else. -/
theorem intercalate_written {eof : Token} (heof : eof.written = []) (ts : List Token) :
    List.intercalate [' '] ((ts ++ [eof]).map written) =
      ts.flatMap fun t => t.written ++ [' '] := by
  induction ts with
  | nil => simpa [List.intercalate] using heof
  | cons t ts ih =>
    obtain ⟨u, us, hcons⟩ := List.exists_cons_of_ne_nil
      (List.append_ne_nil_of_right_ne_nil ts (List.cons_ne_nil eof []))
    rw [List.flatMap_cons, ← ih, List.cons_append, hcons, List.map_cons, List.map_cons,
      List.intercalate_cons_cons]

/-- The tokens of a text that are no comments, written with blanks between them, are scanned to the same
kinds and texts again. -/
theorem tokenize_writtenText {s : String} {tokens : List Token} (h : tokenize s = .ok tokens) :
    ∃ again, tokenize (writtenText (significant tokens)) = .ok again ∧
      again.map shape = (significant tokens).map shape := by
  obtain ⟨front, eof, rfl, heof, hfront⟩ := tokenize_ends h
  have hplain := tokensFrom_plain (fun _ h => absurd h List.not_mem_nil) h
  have htext : eof.text = "" := by
    have hform := hplain eof (List.mem_append_right _ List.mem_cons_self)
    rw [heof] at hform
    exact String.toList_eq_nil_iff.1 hform
  have hsignificant : significant (front ++ [eof]) = significant front ++ [eof] := by
    unfold significant
    rw [List.filter_append]
    simp [heof, Kind.isComment]
  have hrewritable : ∀ t ∈ significant front, Rewritable t := by
    intro t ht
    obtain ⟨hmem, hseen⟩ := List.mem_filter.1 ht
    exact ⟨hplain t (List.mem_append_left _ hmem), hfront t hmem, by simpa using hseen⟩
  have hchars : (writtenText (significant (front ++ [eof]))).toList =
      (significant front).flatMap fun t => t.written ++ [' '] := by
    unfold writtenText
    rw [String.toList_ofList, hsignificant, intercalate_written]
    unfold Token.written
    rw [heof, htext]
    rfl
  have hfuel : (significant front).length <
      ((significant front).flatMap fun t => t.written ++ [' ']).length + 1 := by
    generalize significant front = ts
    induction ts with
    | nil => simp
    | cons t ts ih =>
      simp only [List.flatMap_cons, List.length_cons, List.length_append, List.length_nil]
      omega
  unfold tokenize
  rw [hchars, hsignificant]
  obtain ⟨again, hrun, hagain⟩ := tokensFrom_flatMap hrewritable _ .start [] hfuel
  refine ⟨again, hrun, ?_⟩
  rw [hagain, List.map_append]
  unfold shape
  simp [heof, htext]

/-- The point behind the question mark stays apart from it, and the comment is gone. -/
theorem tokenize_writtenText_point :
    ∃ tokens again, tokenize "x?.5 'a'//b" = .ok tokens ∧
      writtenText (significant tokens) = "x ? . 5 'a' " ∧
      tokenize "x ? . 5 'a' " = .ok again ∧
      again.map shape = [(.identifier, "x"), (.mark .question, "?"), (.mark .dot, "."),
        (.int, "5"), (.rune, "a"), (.endOfFile, "")] := by
  have hscan : tokenize "x?.5 'a'//b" = .ok
      [⟨.identifier, "x", ⟨1, 1⟩⟩, ⟨.mark .question, "?", ⟨1, 2⟩⟩, ⟨.mark .dot, ".", ⟨1, 3⟩⟩,
        ⟨.int, "5", ⟨1, 4⟩⟩, ⟨.rune, "a", ⟨1, 6⟩⟩, ⟨.lineComment, "b", ⟨1, 9⟩⟩,
        ⟨.endOfFile, "", ⟨1, 12⟩⟩] := rfl
  obtain ⟨again, hagain, hshapes⟩ := tokenize_writtenText hscan
  have htext : writtenText (significant
      [⟨.identifier, "x", ⟨1, 1⟩⟩, ⟨.mark .question, "?", ⟨1, 2⟩⟩, ⟨.mark .dot, ".", ⟨1, 3⟩⟩,
        ⟨.int, "5", ⟨1, 4⟩⟩, ⟨.rune, "a", ⟨1, 6⟩⟩, ⟨.lineComment, "b", ⟨1, 9⟩⟩,
        ⟨.endOfFile, "", ⟨1, 12⟩⟩]) = "x ? . 5 'a' " := by decide +kernel
  rw [htext] at hagain
  exact ⟨_, again, hscan, htext, hagain, hshapes⟩

end Source

end ScriptFront
