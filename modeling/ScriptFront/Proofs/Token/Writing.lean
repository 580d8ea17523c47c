import Mathlib.Data.List.TakeWhile
import ScriptFront.Token.Source

/-!
# Tokens as source text

`Token.written` writes a token so that it is read back: names, numbers and marks by their text, strings
and runes in quotes. What a scan gives is `Plain`, the form that kind and text of a token always have;
and what is plain is read again from its written form (`atStart_written`), so a scanned text that is
written token by token scans to the same kinds and texts (`Source.tokenize_written`).
-/

namespace ScriptFront

namespace Lexeme

/-! ## Writing -/

/-- The characters that stand for `c` between two `quote`s. -/
def escaped (quote c : Char) : List Char :=
  if c = '\\' ∨ c = quote then ['\\', c]
  else if c = '\n' then ['\\', 'n']
  else [c]

/-- A value between two `quote`s. -/
def inQuotes (quote : Char) (value : List Char) : List Char :=
  quote :: (value.flatMap (escaped quote) ++ [quote])

/-- What is written for a token of this kind and text. -/
def written (kind : Kind) (text : String) : List Char :=
  match kind with
  | .string => inQuotes '\x22' text.toList
  | .rune => inQuotes '\x27' text.toList
  | _ => text.toList

end Lexeme

namespace Token

def written (t : Token) : List Char := Lexeme.written t.kind t.text

/-- What a token is, wherever it stands. -/
def shape (t : Token) : Kind × String := (t.kind, t.text)

/-- The tokens that are no comments or attributes. -/
def significant (tokens : List Token) : List Token := tokens.filter fun t => !t.kind.isComment

/-- The tokens one behind the other, with a blank between any two. -/
def writtenText (tokens : List Token) : String :=
  String.ofList (List.intercalate [' '] (tokens.map written))

end Token

namespace Lexeme

/-! ## What a scan gives -/

/-- The digits of a whole number. -/
def AreDigits (cs : List Char) : Prop := cs ≠ [] ∧ ∀ c ∈ cs, c.isDigit = true

/-- The form that the text of a token has for its kind. -/
def Plain (kind : Kind) (text : List Char) : Prop :=
  match kind with
  | .endOfFile => text = []
  | .lineComment | .blockComment | .attribute => True
  | .identifier =>
    Keyword.ofText? (String.ofList text) = none ∧
      ∃ c cs, text = c :: cs ∧ Text.isIdentifierStart c = true ∧
        ∀ x ∈ text, Text.isIdentifierPart x = true
  | .int => AreDigits text
  | .hex => ∃ cs, text = '0' :: 'x' :: cs ∧ cs ≠ [] ∧ ∀ c ∈ cs, isHexDigit c = true
  | .float => ∃ whole fraction, text = whole ++ '.' :: fraction ∧ AreDigits whole ∧ AreDigits fraction
  | .rune => text.length = 1
  | .string => True
  | .mark m => text = m.text.toList
  | .keyword k => text = k.text.toList

theorem ofText?_eq_some {s : String} {k : Keyword} (h : Keyword.ofText? s = some k) : k.text = s :=
  eq_of_beq (List.find?_some (p := fun k : Keyword => k.text == s) h)

theorem plain_word {c : Char} {cs : List Char} (hc : Text.isIdentifierStart c = true) :
    Plain (word (c :: cs)).kind (word (c :: cs)).text.toList := by
  have hrun : (c :: cs).takeWhile Text.isIdentifierPart =
      c :: cs.takeWhile Text.isIdentifierPart :=
    List.takeWhile_cons_of_pos (Text.isIdentifierPart_of_start hc)
  unfold word
  rw [hrun]
  dsimp only
  split
  · next k hk =>
    have htext := ofText?_eq_some hk
    simp only [Plain]
    rw [htext]
  · next hnone =>
    simp only [Plain, String.toList_ofList]
    refine ⟨hnone, c, _, rfl, hc, ?_⟩
    intro x hx
    rw [← hrun] at hx
    exact List.mem_takeWhile_imp hx

theorem areDigits_filter {c : Char} (cs : List Char) (hc : c.isDigit = true) :
    AreDigits ((digitRun (c :: cs)).filter Char.isDigit) := by
  have hgap : isDigitOrGap c = true := by
    unfold isDigitOrGap
    rw [hc]
    rfl
  refine ⟨?_, fun x hx => (List.mem_filter.1 hx).2⟩
  unfold digitRun
  rw [List.takeWhile_cons_of_pos hgap, List.filter_cons_of_pos hc]
  exact List.cons_ne_nil _ _

theorem plain_decimal {c : Char} {cs : List Char} {l : Lexeme} (hc : c.isDigit = true)
    (h : decimal (c :: cs) = .ok l) : Plain l.kind l.text.toList := by
  have hwhole := areDigits_filter cs hc
  unfold decimal at h
  dsimp only at h
  split at h
  · split at h
    · cases h
      simpa [Plain] using hwhole
    · next d rest _ =>
      split at h
      · next hd =>
        cases h
        simp only [Plain, String.toList_ofList]
        exact ⟨_, _, rfl, hwhole, areDigits_filter _ hd⟩
      · cases h
    · cases h
  · cases h
    simpa [Plain] using hwhole

theorem plain_hexadecimal {rest : List Char} {l : Lexeme} (h : hexadecimal rest = .ok l) :
    Plain l.kind l.text.toList := by
  unfold hexadecimal at h
  dsimp only at h
  split at h
  · cases h
  · next hcond =>
    cases h
    simp only [Plain, String.toList_ofList]
    refine ⟨_, rfl, ?_, fun c hc => List.mem_takeWhile_imp hc⟩
    intro hempty
    apply hcond
    rw [hempty]
    rfl

theorem plain_number {c : Char} {cs : List Char} {l : Lexeme} (hc : c.isDigit = true)
    (h : number (c :: cs) = .ok l) : Plain l.kind l.text.toList := by
  unfold number at h
  split at h
  · exact plain_hexadecimal h
  · exact plain_hexadecimal h
  · exact plain_decimal hc h

theorem plain_quoted {quote : Char} {rest : List Char} {l : Lexeme}
    (h : quoted quote rest = .ok l) : Plain l.kind l.text.toList := by
  unfold quoted at h
  split at h
  · cases h
  · next value n _ =>
    cases h
    dsimp only
    split
    · next hrune =>
      simp only [Plain, String.toList_ofList]
      exact hrune.2
    · trivial

theorem plain_mark {cs : List Char} {l : Lexeme} (h : mark cs = some l) :
    Plain l.kind l.text.toList := by
  unfold mark at h
  split at h
  · cases h
  · split at h
    · cases h
      rfl
    · cases h
      rfl

theorem plain_blockComment (cs text : List Char) (n : Nat) :
    (blockCommentFrom cs text n).kind = .blockComment := by
  fun_induction blockCommentFrom cs text n with
  | case1 => rfl
  | case2 => rfl
  | case3 _ _ _ _ _ ih => exact ih

theorem plain_lineComment (rest : List Char) : (lineComment rest).kind.isComment = true := by
  unfold lineComment
  dsimp only
  split <;> rfl

/-- Every lexeme has the form of its kind. -/
theorem plain_atStart {cs : List Char} {l : Lexeme} (h : atStart cs = .ok l) :
    Plain l.kind l.text.toList := by
  have hcomment : ∀ {k : Kind} {text : List Char}, k.isComment = true → Plain k text := by
    intro k text hk
    cases k <;> trivial
  unfold atStart at h
  split at h
  · cases h
    rfl
  · exact plain_quoted h
  · exact plain_quoted h
  · unfold template at h
    dsimp only at h
    split at h
    · cases h
    · cases h
      trivial
  · cases h
    exact hcomment (plain_lineComment _)
  · cases h
    rw [plain_blockComment]
    trivial
  · split at h
    · next hstart =>
      cases h
      exact plain_word hstart
    · split at h
      · next hdigit => exact plain_number hdigit h
      · split at h
        · next hmark =>
          cases h
          exact plain_mark hmark
        · cases h

/-! ## What is written is read -/

/-- A run of characters ends where one follows that does not belong to it. -/
theorem takeWhile_run {p : Char → Bool} {run : List Char} (rest : List Char) {c : Char}
    (hrun : ∀ x ∈ run, p x = true) (hc : p c = false) :
    (run ++ c :: rest).takeWhile p = run := by
  rw [List.takeWhile_append_of_pos hrun, List.takeWhile_cons_of_neg (by simp [hc]),
    List.append_nil]

section Reading

variable (rest : List Char)

/-- Neither a quote nor a slash starts a word, a number or a mark by itself. -/
theorem atStart_of_plain {c : Char} (hc : c ≠ '\x22' ∧ c ≠ '\x27' ∧ c ≠ '\x60' ∧ c ≠ '/') :
    atStart (c :: rest) =
      if Text.isIdentifierStart c then .ok (word (c :: rest))
      else if c.isDigit then number (c :: rest)
      else
        match mark (c :: rest) with
        | some l => .ok l
        | none => .error (.unexpectedCharacter c) := by
  obtain ⟨hdouble, hsingle, hback, hslash⟩ := hc
  unfold atStart
  split
  · next h => cases h
  · next h => cases h; exact absurd rfl hdouble
  · next h => cases h; exact absurd rfl hsingle
  · next h => cases h; exact absurd rfl hback
  · next h => cases h; exact absurd rfl hslash
  · next h => cases h; exact absurd rfl hslash
  · next h => cases h; rfl

theorem atStart_identifier {c : Char} {cs : List Char} (hc : Text.isIdentifierStart c = true)
    (hpart : ∀ x ∈ c :: cs, Text.isIdentifierPart x = true)
    (hkeyword : Keyword.ofText? (String.ofList (c :: cs)) = none) {stop : Char}
    (hstop : Text.isIdentifierPart stop = false) :
    atStart (c :: cs ++ stop :: rest) =
      .ok ⟨.identifier, String.ofList (c :: cs), (c :: cs).length⟩ := by
  have hne : c ≠ '\x22' ∧ c ≠ '\x27' ∧ c ≠ '\x60' ∧ c ≠ '/' := by
    refine ⟨?_, ?_, ?_, ?_⟩ <;>
    · rintro rfl
      exact absurd hc (by decide)
  have hrun := takeWhile_run rest hpart hstop
  rw [List.cons_append, atStart_of_plain _ hne, if_pos hc]
  unfold word
  rw [← List.cons_append, hrun]
  dsimp only
  rw [hkeyword]

theorem atStart_keyword (k : Keyword) :
    atStart (k.text.toList ++ ' ' :: rest) = .ok ⟨.keyword k, k.text, k.text.toList.length⟩ := by
  cases k <;> rfl

theorem atStart_mark (m : Mark) :
    atStart (m.text.toList ++ ' ' :: rest) = .ok ⟨.mark m, m.text, m.text.toList.length⟩ := by
  cases m <;> rfl

/-! Numbers. -/

theorem isIdentifierStart_of_isDigit {c : Char} (hc : c.isDigit = true) :
    Text.isIdentifierStart c = false := by
  have hrange : 48 ≤ c.toNat ∧ c.toNat ≤ 57 := by
    simp only [Char.isDigit, Bool.and_eq_true, decide_eq_true_eq, ge_iff_le,
      UInt32.le_iff_toNat_le] at hc
    exact hc
  have halpha : c.isAlpha = false := by
    show (decide _ || (decide _ && decide _)) = false
    simp only [Bool.or_eq_false_iff, Bool.and_eq_false_iff,
      decide_eq_false_iff_not, ge_iff_le, UInt32.le_iff_toNat_le]
    show ¬ (65 ≤ c.toNat ∧ c.toNat ≤ 90) ∧ (¬ 97 ≤ c.toNat ∨ ¬ c.toNat ≤ 122)
    omega
  have hother : c ≠ '_' ∧ c ≠ '$' := by
    constructor <;>
    · rintro rfl
      exact absurd hc (by decide)
  have hascii : ¬ c.toNat ≥ 0x80 := by omega
  simp [Text.isIdentifierStart, halpha, hother, hascii]

theorem atStart_number {c : Char} {cs : List Char} (hc : c.isDigit = true) :
    atStart (c :: cs) = number (c :: cs) := by
  have hne : c ≠ '\x22' ∧ c ≠ '\x27' ∧ c ≠ '\x60' ∧ c ≠ '/' := by
    refine ⟨?_, ?_, ?_, ?_⟩ <;>
    · rintro rfl
      exact absurd hc (by decide)
  rw [atStart_of_plain _ hne, isIdentifierStart_of_isDigit hc, if_pos hc]
  rfl

theorem digitRun_digits {ds : List Char} {c : Char} (hds : ∀ d ∈ ds, d.isDigit = true)
    (hc : isDigitOrGap c = false) : digitRun (ds ++ c :: rest) = ds := by
  refine takeWhile_run rest (fun d hd => ?_) hc
  unfold isDigitOrGap
  rw [hds d hd]
  rfl

theorem filter_digits {ds : List Char} (hds : ∀ d ∈ ds, d.isDigit = true) :
    ds.filter Char.isDigit = ds :=
  List.filter_eq_self.2 hds

/-- A number that starts with decimal digits is no hexadecimal one. -/
theorem number_digits {ds : List Char} {c : Char} (hds : AreDigits ds) (hx : c ≠ 'x') (hX : c ≠ 'X') :
    number (ds ++ c :: rest) = decimal (ds ++ c :: rest) := by
  obtain ⟨hne, hall⟩ := hds
  have hsecond : ∀ d r, ds ++ c :: rest = '0' :: d :: r → d ≠ 'x' ∧ d ≠ 'X' := by
    intro d r h
    match ds, hne with
    | [_], _ =>
      cases h
      exact ⟨hx, hX⟩
    | _ :: d' :: _, _ =>
      cases h
      have hd : d.isDigit = true := hall d (by simp)
      constructor <;>
      · rintro rfl
        exact absurd hd (by decide)
  unfold number
  split
  · next h => exact absurd rfl (hsecond _ _ h).1
  · next h => exact absurd rfl (hsecond _ _ h).2
  · rfl

theorem atStart_int {ds : List Char} (hds : AreDigits ds) :
    atStart (ds ++ ' ' :: rest) = .ok ⟨.int, String.ofList ds, ds.length⟩ := by
  obtain ⟨d, ds', rfl⟩ := List.exists_cons_of_ne_nil hds.1
  have hnumber := number_digits rest hds (show ' ' ≠ 'x' by decide) (by decide)
  rw [List.cons_append, atStart_number (hds.2 d List.mem_cons_self), ← List.cons_append, hnumber]
  unfold decimal
  rw [digitRun_digits _ hds.2 (by decide)]
  dsimp only
  rw [List.drop_left, filter_digits hds.2]
  rfl

theorem atStart_float {ds fs : List Char} (hds : AreDigits ds) (hfs : AreDigits fs) :
    atStart (ds ++ '.' :: fs ++ ' ' :: rest) =
      .ok ⟨.float, String.ofList (ds ++ '.' :: fs), (ds ++ '.' :: fs).length⟩ := by
  obtain ⟨d, ds', rfl⟩ := List.exists_cons_of_ne_nil hds.1
  obtain ⟨f, fs', rfl⟩ := List.exists_cons_of_ne_nil hfs.1
  have hf : f.isDigit = true := hfs.2 f List.mem_cons_self
  have hnumber := number_digits (f :: fs' ++ ' ' :: rest) hds (show '.' ≠ 'x' by decide)
    (by decide)
  have hfraction := digitRun_digits rest hfs.2 (show isDigitOrGap ' ' = false by decide)
  rw [List.append_assoc, List.cons_append, List.cons_append,
    atStart_number (hds.2 d List.mem_cons_self), ← List.cons_append, hnumber]
  unfold decimal
  rw [digitRun_digits _ hds.2 (by decide)]
  dsimp only
  rw [List.drop_left, filter_digits hds.2]
  simp only [List.cons_append] at hfraction ⊢
  split
  · next hdots =>
    cases hdots
    exact absurd hf (by decide)
  · next hcons =>
    cases hcons
    rw [if_pos hf, hfraction, filter_digits hfs.2]
    simp only [List.length_cons, List.length_append]
    congr 2
    omega
  · next hnil => cases hnil

/-- Hexadecimal digits are taken up to the end of the text, or up to what is neither a digit nor a letter. -/
theorem hexadecimal_digits {cs rest : List Char} (hne : cs ≠ []) (hcs : ∀ c ∈ cs, isHexDigit c = true)
    (hrest : ∀ c ∈ rest.head?, isHexDigit c = false ∧ c.isAlpha = false) :
    hexadecimal (cs ++ rest) = .ok ⟨.hex, String.ofList ('0' :: 'x' :: cs), 2 + cs.length⟩ := by
  have hstop : rest.takeWhile isHexDigit = [] ∧ rest.head?.any Char.isAlpha = false := by
    cases rest with
    | nil => exact ⟨rfl, rfl⟩
    | cons c rest =>
      obtain ⟨hdigit, halpha⟩ := hrest c rfl
      exact ⟨List.takeWhile_cons_of_neg (Bool.eq_false_iff.1 hdigit), halpha⟩
  have hrun : (cs ++ rest).takeWhile isHexDigit = cs := by
    rw [List.takeWhile_append_of_pos hcs, hstop.1, List.append_nil]
  unfold hexadecimal
  dsimp only
  rw [hrun, List.drop_left, hstop.2, List.isEmpty_eq_false_iff.2 hne]
  rfl

theorem atStart_hex {cs : List Char} (hne : cs ≠ []) (hcs : ∀ c ∈ cs, isHexDigit c = true) :
    atStart ('0' :: 'x' :: cs ++ ' ' :: rest) =
      .ok ⟨.hex, String.ofList ('0' :: 'x' :: cs), ('0' :: 'x' :: cs).length⟩ := by
  have hblank : ∀ c ∈ (' ' :: rest).head?, isHexDigit c = false ∧ c.isAlpha = false := by
    rintro _ ⟨⟩
    decide
  rw [List.cons_append, atStart_number (by decide)]
  refine (hexadecimal_digits hne hcs hblank).trans ?_
  rw [List.length_cons, List.length_cons, Nat.add_comm]

/-! Strings. -/

/-- Whatever is escaped stands for itself. -/
theorem escape_self {quote c : Char} (hquote : quote = '\x22' ∨ quote = '\x27')
    (hc : c = '\\' ∨ c = quote) (cs : List Char) : escape (c :: cs) = .ok ([c], 1) := by
  rcases hc with rfl | rfl
  · rfl
  · rcases hquote with rfl | rfl <;> rfl

theorem quotedFrom_escaped {quote : Char} (hquote : quote = '\x22' ∨ quote = '\x27')
    (value : List Char) (fuel : Nat) (text : List Char) (n : Nat)
    (hfuel : (value.flatMap (escaped quote)).length < fuel) :
    quotedFrom quote fuel (value.flatMap (escaped quote) ++ quote :: rest) text n =
      .ok (text.reverse ++ value, n + (value.flatMap (escaped quote)).length + 1) := by
  have hslash : '\\' ≠ quote := by rcases hquote with rfl | rfl <;> decide
  have hline : quote ≠ '\n' := by rcases hquote with rfl | rfl <;> decide
  induction value generalizing fuel text n with
  | nil =>
    obtain ⟨fuel, rfl⟩ := Nat.exists_eq_succ_of_ne_zero (Nat.ne_of_gt hfuel)
    rw [List.flatMap_nil, List.nil_append]
    unfold quotedFrom
    rw [if_neg hline, if_pos rfl, List.append_nil]
    rfl
  | cons c value ih =>
    obtain ⟨fuel, rfl⟩ := Nat.exists_eq_succ_of_ne_zero (Nat.ne_of_gt (Nat.zero_lt_of_lt hfuel))
    rw [List.flatMap_cons, List.length_append] at hfuel ⊢
    rw [List.append_assoc]
    -- What follows the characters that stand for `c`.
    have hrest : ∀ k, k = (escaped quote c).length →
        quotedFrom quote fuel (value.flatMap (escaped quote) ++ quote :: rest) (c :: text) (n + k) =
          .ok (text.reverse ++ c :: value,
            n + ((escaped quote c).length + (value.flatMap (escaped quote)).length) + 1) := by
      rintro k rfl
      have hpos : 1 ≤ (escaped quote c).length := by
        unfold escaped
        split
        · simp
        · split <;> simp
      rw [ih fuel (c :: text) _ (by omega)]
      simp only [List.reverse_cons, List.append_assoc, List.singleton_append, Nat.add_assoc]
    by_cases hescaped : c = '\\' ∨ c = quote
    · have hwritten : escaped quote c = ['\\', c] := if_pos hescaped
      rw [hwritten] at hrest ⊢
      simp only [List.cons_append, List.nil_append]
      unfold quotedFrom
      rw [if_neg (by decide), if_neg hslash, if_pos rfl, escape_self hquote hescaped]
      exact hrest 2 rfl
    · by_cases hfeed : c = '\n'
      · have hwritten : escaped quote c = ['\\', 'n'] := by
          unfold escaped
          rw [if_neg hescaped, if_pos hfeed]
        rw [hwritten] at hrest ⊢
        simp only [List.cons_append, List.nil_append]
        unfold quotedFrom
        rw [if_neg (by decide), if_neg hslash, if_pos rfl]
        subst hfeed
        exact hrest 2 rfl
      · have hwritten : escaped quote c = [c] := by
          unfold escaped
          rw [if_neg hescaped, if_neg hfeed]
        rw [hwritten] at hrest ⊢
        simp only [List.cons_append, List.nil_append]
        unfold quotedFrom
        rw [if_neg hfeed, if_neg fun h => hescaped (Or.inr h), if_neg fun h => hescaped (Or.inl h)]
        exact hrest 1 rfl

theorem quoted_inQuotes {quote : Char} (hquote : quote = '\x22' ∨ quote = '\x27')
    (value : List Char) :
    quoted quote (value.flatMap (escaped quote) ++ quote :: rest) =
      .ok ⟨if quote = '\x27' ∧ value.length = 1 then .rune else .string, String.ofList value,
        (inQuotes quote value).length⟩ := by
  unfold quoted inQuotes
  rw [quotedFrom_escaped rest hquote value _ [] 1 (by simp)]
  simp only [List.reverse_nil, List.nil_append, List.length_cons, List.length_append, List.length_nil]
  congr 2
  omega

end Reading

/-- What is plain is read from its written form. -/
theorem atStart_written {kind : Kind} {text : String} (h : Plain kind text.toList)
    (hend : kind ≠ .endOfFile) (hcomment : kind.isComment = false) (rest : List Char) :
    atStart (written kind text ++ ' ' :: rest) = .ok ⟨kind, text, (written kind text).length⟩ := by
  have htext : String.ofList text.toList = text := String.ofList_toList
  unfold written
  match kind with
  | .endOfFile => exact absurd rfl hend
  | .lineComment | .blockComment | .attribute => cases hcomment
  | .identifier =>
    obtain ⟨hkeyword, c, cs, hcons, hc, hpart⟩ := h
    rw [hcons] at hkeyword hpart
    have hread := atStart_identifier rest hc hpart hkeyword (show Text.isIdentifierPart ' ' = false by decide)
    rw [← hcons, htext] at hread
    exact hread
  | .int =>
    have hread := atStart_int rest h
    rw [htext] at hread
    exact hread
  | .hex =>
    obtain ⟨cs, hcons, hne, hcs⟩ := h
    have hread := atStart_hex rest hne hcs
    rw [← hcons, htext] at hread
    exact hread
  | .float =>
    obtain ⟨ds, fs, hcons, hds, hfs⟩ := h
    have hread := atStart_float rest hds hfs
    rw [← hcons, htext] at hread
    exact hread
  | .rune =>
    have hread := quoted_inQuotes (' ' :: rest) (Or.inr rfl) text.toList
    rw [if_pos ⟨rfl, h⟩, htext] at hread
    rw [← hread]
    simp [inQuotes, atStart]
  | .string =>
    have hread := quoted_inQuotes (' ' :: rest) (Or.inl rfl) text.toList
    rw [if_neg (by simp), htext] at hread
    rw [← hread]
    simp [inQuotes, atStart]
  | .mark m =>
    have hread := atStart_mark rest m
    rw [← show text.toList = m.text.toList from h] at hread
    rw [hread, String.toList_inj.1 h]
  | .keyword k =>
    have hread := atStart_keyword rest k
    rw [← show text.toList = k.text.toList from h] at hread
    rw [hread, String.toList_inj.1 h]

end Lexeme

end ScriptFront
