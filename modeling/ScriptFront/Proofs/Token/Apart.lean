import Mathlib.Data.List.Find
import ScriptFront.Proofs.Token.Quoted
import ScriptFront.Proofs.Token.Spans

/-!
# Lexemes that stay apart

A lexeme is read in the same way when more is written behind the text, as long as it does not run on: it
ends before the text does, or it is one of those that neither a blank nor an equals sign goes on with
(`Lexeme.atStart_append`).
-/

namespace ScriptFront.Lexeme

/-- Whether neither a blank nor an equals sign behind it belongs to such a lexeme: it is no comment, and a
mark only if it is a closing bracket. -/
def StaysApart (k : Kind) : Prop :=
  k.isComment = false ∧ ∀ m, k = .mark m → m ∈ [Mark.closeParen, .closeBracket, .closeBrace]

instance (k : Kind) : Decidable (StaysApart k) :=
  decidable_of_iff (k.isComment = false ∧
    ∀ m ∈ Mark.all, k = .mark m → m ∈ [Mark.closeParen, .closeBracket, .closeBrace])
    (and_congr_right fun _ => ⟨fun h m => h m (Mark.mem_all m), fun h m _ => h m⟩)

variable {c : Char} {cs : List Char} {l : Lexeme} (hc : c = ' ' ∨ c = '=') (rest : List Char)

/-! ## Runs of characters -/

theorem takeWhile_append {p : Char → Bool} (hp : p c = false) (cs : List Char) :
    (cs ++ c :: rest).takeWhile p = cs.takeWhile p := by
  induction cs with
  | nil => exact List.takeWhile_cons_of_neg (by simp [hp])
  | cons d cs ih => rw [List.cons_append, List.takeWhile_cons, List.takeWhile_cons, ih]

theorem drop_takeWhile_append (p : Char → Bool) (cs more : List Char) :
    (cs ++ more).drop (cs.takeWhile p).length = cs.drop (cs.takeWhile p).length ++ more :=
  List.drop_append_of_le_length (length_takeWhile_le p cs)

/-- A run that ends before the text does is not longer when more is written behind. -/
theorem takeWhile_append_of_lt {p : Char → Bool} (h : (cs.takeWhile p).length < cs.length)
    (more : List Char) : (cs ++ more).takeWhile p = cs.takeWhile p := by
  rw [List.takeWhile_append, if_neg (Nat.ne_of_lt h)]

/-- What a text starts with only if more is written behind it goes on with what is written there. -/
theorem prefix_of_append {xs front : List Char} (h : front <+: xs ++ c :: rest) (hlong : ¬ front <+: xs) :
    xs ++ [c] <+: front := by
  refine List.prefix_of_prefix_length_le (show xs ++ [c] <+: xs ++ c :: rest from ⟨rest, by simp⟩) h ?_
  by_contra hlength
  rw [List.length_append, List.length_singleton, Nat.not_le, Nat.lt_succ_iff] at hlength
  exact hlong (List.prefix_of_prefix_length_le h (List.prefix_append _ _) hlength)

/-- Without the sign of its base a number is a decimal one. -/
theorem number_eq_decimal (h : ∀ behind, cs ≠ '0' :: 'x' :: behind ∧ cs ≠ '0' :: 'X' :: behind) :
    number cs = decimal cs := by
  unfold number
  split
  · next behind => exact absurd rfl (h behind).1
  · next behind => exact absurd rfl (h behind).2
  · rfl

/-- The spelling of a mark that goes on behind these characters goes on with an equals sign or one that no
lexeme here is followed by, and in the first case they are a mark that runs on. -/
theorem spellings_short : ∀ s ∈ Mark.spellings, ∀ n < s.1.length, 1 ≤ n →
    s.1[n]? ≠ some ' ' ∧ (s.1[n]? = some '=' →
      (mark (s.1.take n)).any fun l => l.length = n && !decide (StaysApart l.kind)) := by
  decide +kernel

theorem atStart?_eq_some {spelling : List Char} {m : Mark} (h : Mark.atStart? cs = some (spelling, m)) :
    spelling = m.text.toList ∧ spelling <+: cs := by
  have hmem : (spelling, m) ∈ Mark.all.map fun m => (m.text.toList, m) := List.mem_of_find?_eq_some h
  obtain ⟨n, -, hn⟩ := List.mem_map.1 hmem
  obtain ⟨rfl, rfl⟩ := Prod.mk.inj hn
  have hstarts := List.find?_some (p := fun s : List Char × Mark => s.1.isPrefixOf cs) h
  exact ⟨rfl, List.isPrefixOf_iff_prefix.1 hstarts⟩

include hc

/-! ## Words and numbers -/

theorem word_append (cs : List Char) : word (cs ++ c :: rest) = word cs := by
  have hpart : Text.isIdentifierPart c = false := by rcases hc with rfl | rfl <;> decide
  unfold word
  rw [takeWhile_append rest hpart]

theorem decimal_append (h : decimal cs = .ok l) : decimal (cs ++ c :: rest) = .ok l := by
  have hrun : isDigitOrGap c = false := by rcases hc with rfl | rfl <;> decide
  have hdot : c ≠ '.' := by rcases hc with rfl | rfl <;> decide
  unfold decimal at h ⊢
  unfold digitRun at h ⊢
  rw [takeWhile_append rest hrun]
  dsimp only at h ⊢
  rw [drop_takeWhile_append]
  generalize cs.drop (cs.takeWhile isDigitOrGap).length = behind at h ⊢
  rcases behind with - | ⟨d, - | ⟨e, behind⟩⟩
  · simpa [hdot] using h
  · by_cases hd : d = '.' <;> simp_all
  · by_cases hd : d = '.'
    · by_cases he : e = '.'
      · simpa [hd, he] using h
      · have hfraction := takeWhile_append rest hrun (e :: behind)
        rw [List.cons_append] at hfraction
        simp only [hd, List.cons_append, hfraction] at h ⊢
        exact h
    · simpa [hd] using h

theorem hexadecimal_append (h : hexadecimal cs = .ok l) : hexadecimal (cs ++ c :: rest) = .ok l := by
  have hrun : isHexDigit c = false := by rcases hc with rfl | rfl <;> decide
  have halpha : c.isAlpha = false := by rcases hc with rfl | rfl <;> decide
  unfold hexadecimal at h ⊢
  rw [takeWhile_append rest hrun]
  dsimp only at h ⊢
  rw [drop_takeWhile_append]
  cases hdrop : cs.drop (cs.takeWhile isHexDigit).length with
  | nil =>
    rw [hdrop] at h
    simpa [halpha] using h
  | cons d behind =>
    rw [hdrop] at h
    exact h

theorem number_append (h : number cs = .ok l) : number (cs ++ c :: rest) = .ok l := by
  have hx : c ≠ 'x' ∧ c ≠ 'X' := by rcases hc with rfl | rfl <;> decide
  rcases cs with - | ⟨a, - | ⟨b, cs⟩⟩
  · rw [number_eq_decimal (by simp)] at h
    rw [number_eq_decimal (by rcases hc with rfl | rfl <;> simp)]
    exact decimal_append hc rest h
  · rw [number_eq_decimal (by simp)] at h
    rw [number_eq_decimal (by simp [hx])]
    exact decimal_append hc rest h
  · by_cases hhex : a = '0' ∧ (b = 'x' ∨ b = 'X')
    · obtain ⟨rfl, rfl | rfl⟩ := hhex <;> exact hexadecimal_append hc rest h
    · have hdecimal : ∀ cs behind, a :: b :: cs ≠ '0' :: 'x' :: behind ∧ a :: b :: cs ≠ '0' :: 'X' :: behind := by
        grind
      rw [number_eq_decimal (hdecimal cs)] at h
      rw [List.cons_append, List.cons_append, number_eq_decimal (hdecimal _)]
      exact decimal_append hc rest h

/-! ## Marks -/

theorem mark_append (h : mark cs = some l) (hne : cs ≠ []) (hend : l.length = cs.length → StaysApart l.kind) :
    mark (cs ++ c :: rest) = some l := by
  have hdigit : c.isDigit = false := by rcases hc with rfl | rfl <;> decide
  have hspelled : ∀ s ∈ Mark.spellings, s.1.isPrefixOf (cs ++ c :: rest) = s.1.isPrefixOf cs := by
    intro s hs
    rw [Bool.eq_iff_iff, List.isPrefixOf_iff_prefix, List.isPrefixOf_iff_prefix]
    refine ⟨fun hprefix => ?_, fun hprefix => hprefix.trans (List.prefix_append _ _)⟩
    by_contra hlong
    obtain ⟨behind, hspelling⟩ := prefix_of_append rest hprefix hlong
    rw [List.append_assoc, List.singleton_append] at hspelling
    have hshort : cs.length < s.1.length := by simp [← hspelling]
    have htake : s.1.take cs.length = cs := by rw [← hspelling, List.take_left]
    have hnext : s.1[cs.length]? = some c := by simp [← hspelling]
    obtain ⟨hblank, hequals⟩ := spellings_short s hs cs.length hshort (List.length_pos_iff.2 hne)
    rcases hc with rfl | rfl
    · exact hblank hnext
    · have hruns := hequals hnext
      rw [htake, h] at hruns
      simp only [Option.any_some, Bool.and_eq_true, decide_eq_true_eq, Bool.not_eq_true',
        decide_eq_false_iff_not] at hruns
      exact hruns.2 (hend hruns.1)
  have hfound : Mark.atStart? (cs ++ c :: rest) = Mark.atStart? cs := List.find?_congr hspelled
  unfold mark at h ⊢
  rw [hfound]
  cases hfind : Mark.atStart? cs with
  | none =>
    rw [hfind] at h
    cases h
  | some found =>
    obtain ⟨spelling, m⟩ := found
    obtain ⟨hspelling, hprefix⟩ := atStart?_eq_some hfind
    rw [hfind] at h
    dsimp only at h ⊢
    have hthird : (m = .questionDot ∧ (cs ++ c :: rest)[2]?.any Char.isDigit) ↔
        (m = .questionDot ∧ cs[2]?.any Char.isDigit) := by
      refine and_congr_right ?_
      rintro rfl
      obtain ⟨behind, rfl⟩ := hprefix
      rw [hspelling]
      cases behind with
      | nil => simp [Mark.text, hdigit]
      | cons d behind => simp [Mark.text]
    simp only [hthird]
    exact h

omit hc in
/-- A mark spans its spelling. -/
theorem take_of_mark {m : Mark} (h : mark cs = some l) (hl : l.kind = .mark m) :
    cs.take l.length = m.text.toList := by
  unfold mark at h
  split at h
  · cases h
  · next spelling n hfound =>
    obtain ⟨rfl, behind, rfl⟩ := atStart?_eq_some hfound
    split at h
    · next hquestion =>
      cases h
      cases hl
      rw [hquestion.1]
      rfl
    · cases h
      cases hl
      exact List.take_left

/-! ## Strings and comments -/

omit hc in
theorem quoted_append {quote : Char} (hquote : quote = '\x22' ∨ quote = '\x27') (h : quoted quote cs = .ok l)
    (more : List Char) : quoted quote (cs ++ more) = .ok l := by
  unfold quoted at h ⊢
  cases hread : quotedFrom quote cs.length cs [] 1 with
  | error e =>
    rw [hread] at h
    cases h
  | ok r =>
    obtain ⟨items, behind, hitems, hcs, hvalue, hlength⟩ := items_of_quotedFrom hread
    have hagain := quotedFrom_of_items hquote hitems (behind ++ more) (cs ++ more).length [] 1
      (by simp [hcs])
    rw [hread] at h
    rw [hcs, List.append_assoc, List.cons_append] at hagain ⊢
    rw [hagain, ← hvalue, ← hlength]
    exact h

omit hc in
theorem template_append (h : template cs = .ok l) (more : List Char) : template (cs ++ more) = .ok l := by
  unfold template at h ⊢
  dsimp only at h ⊢
  split at h
  · cases h
  · next hinside =>
    have hlt := Nat.lt_of_le_of_ne (length_takeWhile_le _ cs) hinside
    rw [takeWhile_append_of_lt hlt, if_neg]
    · exact h
    · rw [List.length_append]
      omega

omit hc in
theorem lineComment_append (h : (lineComment cs).length < cs.length + 2) (more : List Char) :
    lineComment (cs ++ more) = lineComment cs := by
  have hlt : (cs.takeWhile (· ≠ '\n')).length < cs.length := by
    unfold lineComment at h
    dsimp only at h
    split at h <;> exact Nat.lt_of_add_lt_add_right h
  unfold lineComment
  rw [takeWhile_append_of_lt hlt]

omit hc in
theorem blockCommentFrom_append (cs text : List Char) (n : Nat) (more : List Char)
    (h : (blockCommentFrom cs text n).length < n + cs.length) :
    blockCommentFrom (cs ++ more) text n = blockCommentFrom cs text n := by
  fun_induction blockCommentFrom cs text n with
  | case1 => exact absurd h (Nat.lt_irrefl _)
  | case2 => rfl
  | case3 a cs text n hopen ih =>
    rw [List.length_cons] at h
    have hrest := ih (by omega)
    cases cs with
    | nil =>
      rw [blockCommentFrom] at h
      exact absurd h (by simp)
    | cons b cs =>
      rw [List.cons_append, List.cons_append, blockCommentFrom]
      · exact hrest
      · rintro rest rfl heq
        exact hopen cs rfl (by rw [(List.cons.inj heq).1])

/-! ## All lexemes -/

omit hc in
/-- A slash that opens no comment is a mark like the others. -/
theorem atStart_of_opens {a : Char} {tail : List Char} (hquote : a ≠ '\x22' ∧ a ≠ '\x27' ∧ a ≠ '\x60')
    (hslash : a = '/' → tail.head? ≠ some '/' ∧ tail.head? ≠ some '*') :
    atStart (a :: tail) =
      if Text.isIdentifierStart a then .ok (word (a :: tail))
      else if a.isDigit then number (a :: tail)
      else
        match mark (a :: tail) with
        | some l => .ok l
        | none => .error (.unexpectedCharacter a) := by
  unfold atStart
  split
  · next heq => cases heq
  · next heq => exact absurd (List.cons.inj heq).1 hquote.1
  · next heq => exact absurd (List.cons.inj heq).1 hquote.2.1
  · next heq => exact absurd (List.cons.inj heq).1 hquote.2.2
  · next heq =>
    obtain ⟨rfl, rfl⟩ := List.cons.inj heq
    exact absurd rfl (hslash rfl).1
  · next heq =>
    obtain ⟨rfl, rfl⟩ := List.cons.inj heq
    exact absurd rfl (hslash rfl).2
  · next heq =>
    obtain ⟨rfl, rfl⟩ := List.cons.inj heq
    rfl

omit hc in
theorem mark_of_atStart {m : Mark} (h : atStart cs = .ok l) (hl : l.kind = .mark m) : mark cs = some l := by
  have hquoted : ∀ {quote body}, quoted quote body = .ok l → False := by
    intro quote body hread
    unfold quoted at hread
    split at hread
    · cases hread
    · cases hread
      dsimp only at hl
      split at hl <;> cases hl
  have hnumber : ∀ {cs}, number cs = .ok l → False := by
    intro cs hread
    unfold number hexadecimal decimal at hread
    grind
  unfold atStart at h
  split at h
  · cases h
    cases hl
  · exact absurd h hquoted
  · exact absurd h hquoted
  · unfold template at h
    grind
  · next body =>
    have hcomment := plain_lineComment body
    rw [Except.ok.inj h, hl] at hcomment
    cases hcomment
  · next body =>
    have hcomment := plain_blockComment body [] 2
    rw [Except.ok.inj h, hl] at hcomment
    cases hcomment
  · split at h
    · unfold word at h
      grind
    · split at h
      · exact absurd h hnumber
      · split at h
        · next hread =>
          cases h
          exact hread
        · cases h

/-- What is written behind a text leaves the lexeme alone that it starts with, unless that one runs on. -/
theorem atStart_append (h : atStart cs = .ok l) (hne : cs ≠ []) (hend : l.length = cs.length → StaysApart l.kind) :
    atStart (cs ++ c :: rest) = .ok l := by
  have hslash : c ≠ '/' ∧ c ≠ '*' := by rcases hc with rfl | rfl <;> decide
  -- A comment that reaches the end of the text would run on.
  have hcomment : ∀ {k : Lexeme}, k.kind.isComment = true → k.length ≤ cs.length → k = l →
      k.length < cs.length := by
    rintro k hkind hle rfl
    refine Nat.lt_of_le_of_ne hle fun hlength => ?_
    rw [(hend hlength).1] at hkind
    cases hkind
  unfold atStart at h
  split at h
  · exact absurd rfl hne
  · exact quoted_append (.inl rfl) h _
  · exact quoted_append (.inr rfl) h _
  · exact template_append h _
  · next body =>
    have hle : (lineComment body).length ≤ ('/' :: '/' :: body).length := (spans_atStart rfl).le
    have hinside := hcomment (plain_lineComment body) hle (Except.ok.inj h)
    rw [← h]
    exact congrArg Except.ok (lineComment_append hinside _)
  · next body =>
    have hle : (blockCommentFrom body [] 2).length ≤ ('/' :: '*' :: body).length := (spans_atStart rfl).le
    have hinside := hcomment (by rw [plain_blockComment]; rfl) hle (Except.ok.inj h)
    rw [← h]
    refine congrArg Except.ok (blockCommentFrom_append body [] 2 _ ?_)
    rw [List.length_cons, List.length_cons] at hinside
    omega
  · next a tail hdouble hsingle hback hline hblock =>
    have hopens : a = '/' → (tail ++ c :: rest).head? ≠ some '/' ∧ (tail ++ c :: rest).head? ≠ some '*' := by
      intro ha
      cases tail with
      | nil => simpa using hslash
      | cons b tail =>
        refine ⟨?_, ?_⟩ <;> rintro hb <;> obtain rfl := Option.some.inj hb
        · exact hline tail ha rfl
        · exact hblock tail ha rfl
    rw [List.cons_append, atStart_of_opens ⟨hdouble, hsingle, hback⟩ hopens, ← List.cons_append]
    split at h
    · next hstart =>
      rw [if_pos hstart, word_append hc]
      exact h
    · next hstart =>
      rw [if_neg hstart]
      split at h
      · next hdigit =>
        rw [if_pos hdigit]
        exact number_append hc rest h
      · next hdigit =>
        rw [if_neg hdigit]
        split at h
        · next hread =>
          cases h
          rw [mark_append hc rest hread hne hend]
        · cases h

end ScriptFront.Lexeme
