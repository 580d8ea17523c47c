import Mathlib.Logic.Relation
import ScriptFront.Config
import ScriptFront.Proofs.Config.LineEnds
import ScriptFront.Proofs.Text.Lines

/-!
# Comment lines of a config file

No line of a JSON text starts with slashes: no token holds a line end or starts with a slash, so where a
line starts only blanks and a token can follow (`not_isComment_of_mem_lines`). So dropping the comment lines
costs a JSON text some of its line ends, and its value stays. A comment line that is put into any text is
dropped again with its line end (`AddsComment.thinned`), so the configuration stays (`ofText_commentLines`).
-/

namespace ScriptFront

/-! ## Lines of JSON texts -/

namespace Json

/-- Whether a text can be read to its end, behind some tokens. -/
def Readable (cs : List Char) : Prop := ∃ n tokens all, tokensFrom n cs tokens = some all

theorem tokenAt_slash (cs : List Char) : tokenAt '/' cs = none := rfl

theorem not_isDigit_of_isSpace {c : Char} (hc : Text.isSpace c = true) : ¬ c.isDigit = true := by
  have hzero : '0'.toNat = 48 := rfl
  have hnine : '9'.toNat = 57 := rfl
  rw [Char.isDigit_iff_toNat, hzero, hnine]
  simp only [Text.isSpace, Bool.or_eq_true, Bool.and_eq_true, decide_eq_true_eq, beq_iff_eq] at hc
  omega

/-- White space starts no token. -/
theorem tokenAt_of_isSpace {c : Char} (hc : Text.isSpace c = true) (cs : List Char) :
    tokenAt c cs = none := by
  unfold tokenAt
  split
  case h_12 => exact if_neg (not_isDigit_of_isSpace hc)
  all_goals exact absurd hc (by decide)

/-- The next line feed stands behind the token. -/
theorem lineFeed_behind_tokenAt {c : Char} (hc : ¬ IsLineEnd c) {before after rest : List Char}
    {t : Token} (h : tokenAt c (before ++ '\n' :: after) = some (t, rest)) :
    ∃ before', rest = before' ++ '\n' :: after := by
  have hsame := tokenAt_sameReading hc (.refl (before ++ '\n' :: after))
  rw [h] at hsame
  cases hsame with
  | @reads _ w _ _ hword hcs =>
    rw [← List.cons_append] at hcs
    rcases List.append_eq_append_iff.1 hcs.symm with ⟨before', -, h⟩ | ⟨behind, hw, h⟩
    · exact ⟨before', h⟩
    · cases behind with
      | nil => exact ⟨[], h.symm⟩
      | cons d behind =>
        obtain ⟨rfl, -⟩ := List.cons.inj h
        have hfeed : '\n' ∈ w := by
          rw [hw]
          exact List.mem_append_right _ List.mem_cons_self
        exact absurd (.inl rfl) (hword '\n' hfeed)

namespace Readable

variable {cs : List Char} {c : Char}

theorem of_ofChars {v : Value} (h : ofChars cs = some v) : Readable cs := by
  unfold ofChars tokenize at h
  rw [Option.bind_eq_bind, Option.bind_eq_some_iff] at h
  obtain ⟨tokens, htokens, -⟩ := h
  exact ⟨_, _, tokens, htokens⟩

/-- A text goes on with a blank or a token. -/
theorem of_cons (h : Readable (c :: cs)) :
    (isBlank c = true ∧ Readable cs) ∨
      ¬ isBlank c = true ∧ ∃ t rest, tokenAt c cs = some (t, rest) ∧ Readable rest := by
  obtain ⟨n, tokens, all, h⟩ := h
  cases n with
  | zero => cases h
  | succ n =>
    by_cases hc : isBlank c = true
    · rw [tokensFrom_blank hc] at h
      exact .inl ⟨hc, n, tokens, all, h⟩
    · rw [tokensFrom_token hc, Option.bind_eq_some_iff] at h
      obtain ⟨⟨t, rest⟩, ht, h⟩ := h
      exact .inr ⟨hc, t, rest, ht, n, t :: tokens, all, h⟩

/-- It does not go on with a slash behind white space. -/
theorem not_slash {space : List Char} (hspace : ∀ c ∈ space, Text.isSpace c = true) :
    ¬ Readable (space ++ '/' :: cs) := by
  induction space with
  | nil =>
    intro h
    rcases h.of_cons with ⟨hc, -⟩ | ⟨-, t, rest, ht, -⟩
    · cases hc
    · rw [tokenAt_slash] at ht
      cases ht
  | cons c space ih =>
    rw [List.forall_mem_cons] at hspace
    intro h
    rcases h.of_cons with ⟨-, h⟩ | ⟨-, t, rest, ht, -⟩
    · exact ih hspace.2 h
    · rw [tokenAt_of_isSpace hspace.1] at ht
      cases ht

/-- A token ends before the next line feed. -/
theorem behind_lineFeed {before after : List Char} (h : Readable (before ++ '\n' :: after)) :
    Readable after := by
  obtain ⟨n, tokens, all, h⟩ := h
  induction n generalizing before tokens with
  | zero => cases before <;> cases h
  | succ n ih =>
    cases before with
    | nil =>
      rw [List.nil_append, tokensFrom_blank rfl] at h
      exact ⟨n, tokens, all, h⟩
    | cons c before =>
      rw [List.cons_append] at h
      by_cases hc : isBlank c = true
      · rw [tokensFrom_blank hc] at h
        exact ih tokens h
      · rw [tokensFrom_token hc, Option.bind_eq_some_iff] at h
        obtain ⟨⟨t, rest⟩, ht, h⟩ := h
        obtain ⟨before, rfl⟩ := lineFeed_behind_tokenAt (mt IsLineEnd.isBlank hc) ht
        exact ih (t :: tokens) h

end Readable

end Json

/-! ## Dropping the comment lines -/

namespace Config

open Text

/-- Whether a line is a comment behind white space. -/
def IsComment (line : List Char) : Prop :=
  ∃ space text, (∀ c ∈ space, isSpace c = true) ∧ line = space ++ '/' :: '/' :: text

theorem isCommentLine_iff {line : List Char} : isCommentLine line = true ↔ IsComment line := by
  unfold isCommentLine trimStart
  rw [List.isPrefixOf_iff_prefix]
  constructor
  · rintro ⟨text, htext⟩
    refine ⟨line.takeWhile isSpace, text, fun c hc => List.mem_takeWhile_imp hc, ?_⟩
    have hline := List.takeWhile_append_dropWhile (p := isSpace) (l := line)
    rw [← htext] at hline
    exact hline.symm
  · rintro ⟨space, text, hspace, rfl⟩
    rw [List.dropWhile_append_of_pos hspace]
    exact ⟨text, rfl⟩

instance : DecidablePred IsComment := fun _ => decidable_of_iff _ isCommentLine_iff

/-- A carriage return is not what makes a line a comment. -/
theorem isComment_of_isLineOf {text line : List Char} (h : IsLineOf text line) :
    IsComment text ↔ IsComment line := by
  rcases h with rfl | rfl
  · rfl
  · constructor
    · rintro ⟨space, more, hspace, h⟩
      rcases List.eq_nil_or_concat more with rfl | ⟨more, c, rfl⟩
      · have hlast := congrArg List.getLast? h
        simp at hlast
      · rw [List.concat_eq_append, ← List.cons_append, ← List.cons_append, ← List.append_assoc] at h
        exact ⟨space, more, hspace, (List.append_inj' h rfl).1⟩
    · rintro ⟨space, more, hspace, rfl⟩
      exact ⟨space, more ++ ['\r'], hspace, by simp⟩

/-- A line in front of a JSON text is no comment. -/
theorem not_isComment_of_readable {line behind : List Char} (h : Json.Readable (line ++ behind)) :
    ¬ IsComment line := by
  rintro ⟨space, text, hspace, rfl⟩
  rw [List.append_assoc] at h
  exact Json.Readable.not_slash hspace h

/-- No line of a JSON text is a comment. -/
theorem not_isComment_of_mem_lines {cs : List Char} (h : Json.Readable cs) :
    ∀ line ∈ lines cs, ¬ IsComment line := by
  induction cs using line_induction with
  | nil => exact List.forall_mem_nil _
  | last text htext hne =>
    rw [lines_of_not_mem htext hne, List.forall_mem_singleton]
    rw [← List.append_nil text] at h
    exact not_isComment_of_readable h
  | line text after htext ih =>
    obtain ⟨line, hlines, hreturn⟩ := lines_line htext after
    rw [hlines, List.forall_mem_cons]
    refine ⟨?_, ih h.behind_lineFeed⟩
    rw [← isComment_of_isLineOf hreturn]
    exact not_isComment_of_readable h

/-- A carriage return is left out where the line ends behind it. -/
theorem thinned_return {text line cs cs' : List Char} (htext : IsLineOf text line)
    (hend : Json.AtLineEnd cs) (h : Json.Thinned cs cs') : Json.Thinned (text ++ cs) (line ++ cs') := by
  rcases htext with rfl | rfl
  · exact h.append_left text
  · rw [List.append_assoc]
    exact (h.drop (.inr rfl) hend).append_left line

/-- A text that is put together again from its lines has lost line ends only. -/
theorem thinned_unlines (cs : List Char) : Json.Thinned cs (unlines (lines cs)) := by
  induction cs using line_induction with
  | nil => exact .nil
  | last text htext hne =>
    rw [lines_of_not_mem htext hne]
    exact .refl text
  | line text after htext ih =>
    obtain ⟨line, hlines, hreturn⟩ := lines_line htext after
    have hfeed : Json.AtLineEnd ('\n' :: after) := .before (.inl rfl)
    rw [hlines]
    by_cases hafter : after = []
    · subst hafter
      have hlast := thinned_return hreturn hfeed (Json.Thinned.nil.drop (.inl rfl) .last)
      rw [List.append_nil] at hlast
      exact hlast
    · rw [unlines_cons line (lines_ne_nil hafter)]
      exact thinned_return hreturn hfeed (ih.keep '\n')

/-- The lines that are no comments. -/
def keptLines (cs : List Char) : List (List Char) := (lines cs).filter (!isCommentLine ·)

theorem stripLineComments_eq (cs : List Char) : stripLineComments cs = unlines (keptLines cs) := rfl

/-- A JSON text loses line ends only. -/
theorem thinned_stripLineComments {cs : List Char} (h : Json.Readable cs) :
    Json.Thinned cs (stripLineComments cs) := by
  have hkept : keptLines cs = lines cs := by
    apply List.filter_eq_self.2
    intro line hline
    rw [Bool.not_eq_true', ← Bool.not_eq_true, isCommentLine_iff]
    exact not_isComment_of_mem_lines h line hline
  rw [stripLineComments_eq, hkept]
  exact thinned_unlines cs

/-! ## Putting comment lines in -/

/-- A text and the same text with a comment on a line of its own put in. -/
inductive AddsComment : List Char → List Char → Prop
  /-- Before a line. -/
  | before {before after comment lineBreak : List Char} (hstart : AtLineStart before)
      (hcomment : IsComment comment) (hline : '\n' ∉ comment) (hbreak : IsLineBreak lineBreak) :
      AddsComment (before ++ after) (before ++ (comment ++ (lineBreak ++ after)))
  /-- Behind the last line, which is ended first. The comment may stand there without an end. -/
  | behind {cs gap comment lineBreak : List Char}
      (hgap : AtLineStart cs ∧ gap = [] ∨ ¬ AtLineStart cs ∧ IsLineBreak gap)
      (hcomment : IsComment comment) (hline : '\n' ∉ comment)
      (hbreak : lineBreak = [] ∨ IsLineBreak lineBreak) :
      AddsComment cs (cs ++ gap ++ (comment ++ lineBreak))

theorem keptLines_append {before : List Char} (h : AtLineStart before) (after : List Char) :
    keptLines (before ++ after) = keptLines before ++ keptLines after := by
  unfold keptLines
  rw [lines_append h, List.filter_append]

theorem keptLines_comment {comment lineBreak : List Char} (hcomment : IsComment comment)
    (hline : '\n' ∉ comment) (hbreak : IsLineBreak lineBreak) (after : List Char) :
    keptLines (comment ++ (lineBreak ++ after)) = keptLines after := by
  obtain ⟨line, hlines, hreturn⟩ := lines_lineBreak hline hbreak after
  have hdropped : isCommentLine line = true := by
    rw [isCommentLine_iff, ← isComment_of_isLineOf hreturn]
    exact hcomment
  unfold keptLines
  rw [hlines]
  exact List.filter_cons_of_neg (by simp [hdropped])

/-- A comment behind the last line is dropped, with a line break or without one. -/
theorem keptLines_lastComment {comment lineBreak : List Char} (hcomment : IsComment comment)
    (hline : '\n' ∉ comment) (hbreak : lineBreak = [] ∨ IsLineBreak lineBreak) :
    keptLines (comment ++ lineBreak) = [] := by
  rcases hbreak with rfl | hbreak
  · have hdropped := isCommentLine_iff.2 hcomment
    have hne : comment ≠ [] := by
      rintro rfl
      exact absurd hdropped (by decide)
    unfold keptLines
    rw [List.append_nil, lines_of_not_mem hline hne]
    exact List.filter_cons_of_neg (by simp [hdropped])
  · have hkept := keptLines_comment hcomment hline hbreak []
    rw [List.append_nil] at hkept
    exact hkept

theorem thinned_unlines_last {text line : List Char} (htext : IsLineOf text line) (before : List (List Char)) :
    Json.Thinned (unlines (before ++ [text])) (unlines (before ++ [line])) := by
  induction before with
  | nil =>
    have hlast := thinned_return htext .last .nil
    rw [List.append_nil, List.append_nil] at hlast
    exact hlast
  | cons first before ih =>
    rw [List.cons_append, List.cons_append, unlines_cons _ (by simp), unlines_cons _ (by simp)]
    exact (ih.keep '\n').append_left first

/-- Ending the last line of a text costs a carriage return before its end at most. -/
theorem thinned_lineBreak {cs gap : List Char} (hcs : ¬ AtLineStart cs) (hgap : IsLineBreak gap) :
    Json.Thinned (stripLineComments cs) (stripLineComments (cs ++ gap)) := by
  obtain ⟨before, last, rfl, hbefore, hlast⟩ := exists_lastLine cs
  have hne : last ≠ [] := by
    rintro rfl
    rw [List.append_nil] at hcs
    exact hcs hbefore
  obtain ⟨line, hlines, hreturn⟩ := lines_lineBreak hlast hgap []
  rw [List.append_nil] at hlines
  have hkept : isCommentLine last = isCommentLine line := by
    rw [Bool.eq_iff_iff, isCommentLine_iff, isCommentLine_iff]
    exact isComment_of_isLineOf hreturn
  rw [List.append_assoc, stripLineComments_eq, stripLineComments_eq, keptLines_append hbefore,
    keptLines_append hbefore]
  unfold keptLines
  rw [hlines, lines_of_not_mem hlast hne]
  cases hline : isCommentLine line with
  | true =>
    rw [hline] at hkept
    rw [List.filter_cons_of_neg (by simp [hkept]), List.filter_cons_of_neg (by simp [hline])]
    exact .refl _
  | false =>
    rw [hline] at hkept
    rw [List.filter_cons_of_pos (by simp [hkept]), List.filter_cons_of_pos (by simp [hline])]
    exact thinned_unlines_last hreturn _

theorem AddsComment.thinned {cs cs' : List Char} (h : AddsComment cs cs') :
    Json.Thinned (stripLineComments cs) (stripLineComments cs') := by
  cases h with
  | before hstart hcomment hline hbreak =>
    rw [stripLineComments_eq, stripLineComments_eq, keptLines_append hstart, keptLines_append hstart,
      keptLines_comment hcomment hline hbreak]
    exact .refl _
  | @behind _ gap comment lineBreak hgap hcomment hline hbreak =>
    have hstart : AtLineStart (cs ++ gap) := by
      rcases hgap with ⟨hstart, rfl⟩ | ⟨-, hbreak⟩
      · rw [List.append_nil]
        exact hstart
      · exact hbreak.atLineStart cs
    rw [stripLineComments_eq (_ ++ (comment ++ lineBreak)), keptLines_append hstart,
      keptLines_lastComment hcomment hline hbreak, List.append_nil, ← stripLineComments_eq]
    rcases hgap with ⟨-, rfl⟩ | ⟨hstart, hbreak⟩
    · rw [List.append_nil]
      exact .refl _
    · exact thinned_lineBreak hstart hbreak

/-- Comment lines that are put into a text do not change the value that it has without them. -/
theorem ofChars_stripLineComments {cs cs' : List Char} (h : Relation.ReflTransGen AddsComment cs cs') :
    Json.ofChars (stripLineComments cs') = Json.ofChars (stripLineComments cs) := by
  induction h with
  | refl => rfl
  | tail _ hstep ih => rw [← ih, Json.ofChars_of_thinned hstep.thinned]

/-! ## Configurations -/

/-- The configuration that the value of a config file holds. -/
def ofValue (v : Json.Value) (path : String) : Except Error Config :=
  let base := ofBasePath (Path.directory path)
  match paths? v with
  | none => .error ⟨.malformedConfig path malformedReason, .start⟩
  | some none => .ok base
  | some (some entries) =>
    match searchPaths? entries with
    | none => .error ⟨.invalidConfigPaths path, .start⟩
    | some [] => .ok base
    | some dirs => .ok { base with searchPaths := dirs }

/-- A config file is read by the value of its text without comment lines. -/
theorem ofText_of_value {content : String} {v : Json.Value}
    (h : Json.ofChars (stripLineComments content.toList) = some v) (path : String) :
    ofText content path = ofValue v path := by
  unfold ofText
  rw [h]
  rfl

end Config

end ScriptFront
