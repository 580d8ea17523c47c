import Mathlib.Data.List.Basic
import ScriptFront.Text.Lines

/-!
# Lines of a text put together

A text is cut where a line starts: its lines are those before and those behind (`lines_append`). So what
holds of a text is shown line by line (`line_induction`), with the lines of each part at hand (`lines_line`,
`lines_of_not_mem`).
-/

namespace ScriptFront.Text

theorem linesFrom_lineFeed (line cs : List Char) :
    linesFrom line ('\n' :: cs) = (dropReturn line).reverse :: lines cs := by
  cases line <;> rfl

theorem linesFrom_cons {c : Char} (hc : c ≠ '\n') (line cs : List Char) :
    linesFrom line (c :: cs) = linesFrom (c :: line) cs := by
  cases line <;> exact if_neg hc

/-- A text without line feeds goes on with the line. -/
theorem linesFrom_append_of_not_mem {text : List Char} (h : '\n' ∉ text) (line cs : List Char) :
    linesFrom line (text ++ cs) = linesFrom (text.reverse ++ line) cs := by
  induction text generalizing line with
  | nil => rfl
  | cons c text ih =>
    rw [List.mem_cons, not_or] at h
    rw [List.cons_append, linesFrom_cons (Ne.symm h.1), ih h.2]
    simp

theorem linesFrom_append_lineFeed (line before after : List Char) :
    linesFrom line (before ++ '\n' :: after) = linesFrom line (before ++ ['\n']) ++ lines after := by
  induction before generalizing line with
  | nil =>
    rw [List.nil_append, List.nil_append, linesFrom_lineFeed, linesFrom_lineFeed]
    rfl
  | cons c before ih =>
    by_cases hc : c = '\n'
    · subst hc
      rw [List.cons_append, List.cons_append, linesFrom_lineFeed, linesFrom_lineFeed]
      exact congrArg (_ :: ·) (ih [])
    · rw [List.cons_append, List.cons_append, linesFrom_cons hc, linesFrom_cons hc]
      exact ih (c :: line)

/-- Whether a line starts behind the text. -/
def AtLineStart (cs : List Char) : Prop := cs = [] ∨ cs.getLast? = some '\n'

instance : DecidablePred AtLineStart := fun cs =>
  inferInstanceAs (Decidable (cs = [] ∨ cs.getLast? = some '\n'))

theorem atLineStart_lineFeed (before : List Char) : AtLineStart (before ++ ['\n']) :=
  .inr List.getLast?_concat

theorem AtLineStart.append {cs : List Char} (h : AtLineStart cs) (before : List Char) :
    AtLineStart (before ++ '\n' :: cs) := by
  rcases h with rfl | h
  · exact atLineStart_lineFeed before
  · obtain ⟨middle, rfl⟩ := List.getLast?_eq_some_iff.1 h
    rw [← List.cons_append, ← List.append_assoc]
    exact atLineStart_lineFeed (before ++ '\n' :: middle)

theorem lines_append {before : List Char} (h : AtLineStart before) (after : List Char) :
    lines (before ++ after) = lines before ++ lines after := by
  rcases h with rfl | h
  · rfl
  · obtain ⟨before, rfl⟩ := List.getLast?_eq_some_iff.1 h
    rw [List.append_assoc]
    exact linesFrom_append_lineFeed [] before after

/-! ## Line by line -/

theorem lines_lineFeed {text : List Char} (h : '\n' ∉ text) (after : List Char) :
    lines (text ++ '\n' :: after) = (dropReturn text.reverse).reverse :: lines after := by
  unfold lines
  rw [linesFrom_append_of_not_mem h, List.append_nil, linesFrom_lineFeed]
  rfl

/-- A line is all of a text, or all but a carriage return at its end. -/
def IsLineOf (text line : List Char) : Prop := text = line ∨ text = line ++ ['\r']

/-- The carriage return is all that a line can lose. -/
theorem dropReturn_cases (line : List Char) : dropReturn line = line ∨ line = '\r' :: dropReturn line := by
  unfold dropReturn
  split
  · exact .inr rfl
  · exact .inl rfl

/-- The first line of a text with a line feed, which may lose a carriage return. -/
theorem lines_line {text : List Char} (h : '\n' ∉ text) (after : List Char) :
    ∃ line, lines (text ++ '\n' :: after) = line :: lines after ∧ IsLineOf text line := by
  refine ⟨(dropReturn text.reverse).reverse, lines_lineFeed h after, ?_⟩
  rcases dropReturn_cases text.reverse with hsame | hreturn
  · rw [hsame, List.reverse_reverse]
    exact .inl rfl
  · have hreverse := congrArg List.reverse hreturn
    rw [List.reverse_reverse, List.reverse_cons] at hreverse
    exact .inr hreverse

/-- A line feed, alone or behind a carriage return. -/
def IsLineBreak (cs : List Char) : Prop := cs = ['\n'] ∨ cs = ['\r', '\n']

instance : DecidablePred IsLineBreak := fun cs =>
  inferInstanceAs (Decidable (cs = ['\n'] ∨ cs = ['\r', '\n']))

theorem IsLineBreak.atLineStart {cs : List Char} (h : IsLineBreak cs) (before : List Char) :
    AtLineStart (before ++ cs) := by
  rcases h with rfl | rfl
  · exact atLineStart_lineFeed before
  · rw [List.append_cons]
    exact atLineStart_lineFeed (before ++ ['\r'])

/-- The first line of a text with a line break. Only a carriage return before the line break is lost. -/
theorem lines_lineBreak {text lineBreak : List Char} (h : '\n' ∉ text) (hbreak : IsLineBreak lineBreak)
    (after : List Char) :
    ∃ line, lines (text ++ (lineBreak ++ after)) = line :: lines after ∧ IsLineOf text line := by
  rcases hbreak with rfl | rfl
  · exact lines_line h after
  · refine ⟨text, ?_, .inl rfl⟩
    have hreturn : '\n' ∉ text ++ ['\r'] := by simp [h]
    have hlines := lines_lineFeed hreturn after
    rw [List.reverse_concat, dropReturn, List.reverse_reverse, List.append_assoc] at hlines
    exact hlines

/-- A text without line feeds is one line. -/
theorem lines_of_not_mem {text : List Char} (h : '\n' ∉ text) (hne : text ≠ []) :
    lines text = [text] := by
  have hlines := linesFrom_append_of_not_mem h [] []
  rw [List.append_nil, List.append_nil] at hlines
  unfold lines
  rw [hlines]
  cases hrev : text.reverse with
  | nil => exact absurd (List.reverse_eq_nil_iff.1 hrev) hne
  | cons c line =>
    rw [← List.reverse_reverse text, hrev]
    rfl

/-- A text is empty, or a line without an end, or a line and the text behind its line feed. -/
theorem line_induction {motive : List Char → Prop} (nil : motive [])
    (last : ∀ text, '\n' ∉ text → text ≠ [] → motive text)
    (line : ∀ text after, '\n' ∉ text → motive after → motive (text ++ '\n' :: after))
    (cs : List Char) : motive cs := by
  by_cases hfeed : '\n' ∈ cs
  · obtain ⟨text, after, hcs, htext⟩ := List.eq_append_cons_of_mem hfeed
    have hshorter : after.length < cs.length := by
      rw [hcs, List.length_append, List.length_cons]
      omega
    rw [hcs]
    exact line text after htext (line_induction nil last line after)
  · by_cases hne : cs = []
    · exact hne ▸ nil
    · exact last cs hfeed hne
termination_by cs.length

theorem unlines_cons (line : List Char) {more : List (List Char)} (h : more ≠ []) :
    unlines (line :: more) = line ++ '\n' :: unlines more := by
  cases more with
  | nil => exact absurd rfl h
  | cons => rfl

theorem lines_ne_nil {cs : List Char} (h : cs ≠ []) : lines cs ≠ [] := by
  cases cs using line_induction with
  | nil => exact absurd rfl h
  | last text htext hne =>
    rw [lines_of_not_mem htext hne]
    exact List.cons_ne_nil _ _
  | line text after htext =>
    obtain ⟨line, hlines, -⟩ := lines_line htext after
    rw [hlines]
    exact List.cons_ne_nil _ _

/-- A text is cut at the start of its last line. -/
theorem exists_lastLine (cs : List Char) :
    ∃ before last, cs = before ++ last ∧ AtLineStart before ∧ '\n' ∉ last := by
  induction cs using line_induction with
  | nil => exact ⟨[], [], rfl, .inl rfl, List.not_mem_nil⟩
  | last text htext => exact ⟨[], text, rfl, .inl rfl, htext⟩
  | line text after htext ih =>
    obtain ⟨before, last, rfl, hbefore, hlast⟩ := ih
    exact ⟨text ++ '\n' :: before, last, by simp, hbefore.append text, hlast⟩

end ScriptFront.Text
