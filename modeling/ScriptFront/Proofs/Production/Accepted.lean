import ScriptFront.Production.SourceFile
import ScriptFront.Proofs.Production.Reads
import ScriptFront.Proofs.Token.Ahead
import ScriptFront.Proofs.Token.Writing

/-!
# Accepted inputs

An input is accepted if its text can be tokenized and the production for a whole file, or for a single
expression, makes something of the tokens. Both productions stop at the end of the file, so they have
read every token of the text.
-/

namespace ScriptFront

namespace Production

/-- What a production makes of a token list comes from a run in front of the first token. -/
theorem runOn_ok {α : Type} {p : Grammar → Production α} {options : Options} {tokens : List Token}
    {a : α} (h : runOn p options tokens = .ok a) :
    ∃ d, p (.ofDepth ((Cursor.ofTokens tokens).remaining + 1)) ⟨options.optimize, 0⟩
      (Cursor.ofTokens tokens) = .ok (a, d) := by
  unfold runOn at h
  dsimp only at h
  cases hrun : p (.ofDepth ((Cursor.ofTokens tokens).remaining + 1)) ⟨options.optimize, 0⟩
      (Cursor.ofTokens tokens) with
  | error e =>
    rw [hrun] at h
    cases h
  | ok r =>
    rw [hrun] at h
    cases h
    exact ⟨r.2, rfl⟩

end Production

namespace File

variable {source path : String} {options : Options} {file : File}

theorem ofSource_ok (h : ofSource source path options = .ok file) :
    ∃ tokens, Source.tokenize (Source.prepare source) = .ok tokens ∧
      ofTokens tokens path options = .ok file := by
  unfold ofSource at h
  cases htokens : Source.tokenize (Source.prepare source) with
  | error e =>
    rw [htokens] at h
    cases h
  | ok tokens =>
    rw [htokens] at h
    exact ⟨tokens, rfl, h⟩

/-- A file is made of what its constructs have left in the draft. -/
theorem ofTokens_ok {tokens : List Token} (h : ofTokens tokens path options = .ok file) :
    ∃ d, Production.runOn Grammar.constructs options tokens = .ok d ∧
      file = ⟨path, d.imports.reverse, d.statements.reverse, d.attributes.ofFile,
        Comment.ofTokens tokens, d.globals.reverse⟩ := by
  unfold ofTokens at h
  cases hrun : Production.runOn Grammar.constructs options tokens with
  | error e =>
    rw [hrun] at h
    cases h
  | ok d =>
    rw [hrun] at h
    cases h
    exact ⟨d, rfl, rfl⟩

end File

theorem Expr.ofSource_ok {source : String} {e : Expr} (h : ofSource source = .ok e) :
    ∃ tokens, Source.tokenize (Source.prepare source) = .ok tokens ∧
      ofTokens tokens ⟨false⟩ = .ok e := by
  unfold ofSource at h
  cases htokens : Source.tokenize (Source.prepare source) with
  | error e =>
    rw [htokens] at h
    cases h
  | ok tokens =>
    rw [htokens] at h
    exact ⟨tokens, rfl, h⟩

namespace Source

/-- Whether a text is accepted as a file or as an expression. -/
def Accepted (source : String) : Prop :=
  (∃ path options file, File.ofSource source path options = .ok file) ∨
    ∃ e, Expr.ofSource source = .ok e

theorem Accepted.run {source : String} (h : Accepted source) :
    ∃ tokens, tokenize (prepare source) = .ok tokens ∧
      ((∃ options d, Production.runOn Grammar.constructs options tokens = .ok d) ∨
        ∃ e, Production.runOn Grammar.wholeExpression ⟨false⟩ tokens = .ok e) := by
  obtain ⟨path, options, file, hfile⟩ | ⟨e, he⟩ := h
  · obtain ⟨tokens, htokens, hfile⟩ := File.ofSource_ok hfile
    obtain ⟨d, hd, -⟩ := File.ofTokens_ok hfile
    exact ⟨tokens, htokens, .inl ⟨options, d, hd⟩⟩
  · obtain ⟨tokens, htokens, he⟩ := Expr.ofSource_ok he
    exact ⟨tokens, htokens, .inr ⟨e, he⟩⟩

/-- What is read of a tokenized text up to its end is all of it. -/
theorem significant_of_read {s : String} {tokens : List Token} {taken : List Stop} {d : Cursor}
    (htokens : tokenize s = .ok tokens) (htaken : (Cursor.ofTokens tokens).ahead = taken ++ d.ahead)
    (hend : d.peekKind = .endOfFile) :
    ∃ eof : Token, eof.kind = .endOfFile ∧
      Token.significant tokens = taken.map (·.token) ++ [eof] := by
  have hvisible : Token.visible tokens = taken.map (·.token) ++ d.ahead.map (·.token) := by
    rw [← (tokenize_at htokens).ahead, htaken, List.map_append]
  have hrest : d.ahead = [] := by
    cases hahead : d.ahead with
    | nil => rfl
    | cons s rest =>
      have hs : s.token ∈ Token.visible tokens := by simp [hvisible, hahead]
      have hkind : s.token.kind = .endOfFile := by
        rw [← hend, Cursor.peekKind, Cursor.peek, Cursor.peekNth, hahead]
        rfl
      unfold Token.visible at hs
      simp [hkind] at hs
  obtain ⟨front, eof, rfl, heof, hfront⟩ := tokenize_ends htokens
  have hsame : front.filter (fun t => !t.kind.isComment) =
      front.filter fun t => !t.kind.isComment && t.kind != .endOfFile :=
    List.filter_congr fun t ht => by simp [hfront t ht]
  refine ⟨eof, heof, ?_⟩
  rw [hrest, List.map_nil, List.append_nil] at hvisible
  rw [← hvisible]
  simp [Token.significant, Token.visible, heof, hsame]
  rfl

end Source

end ScriptFront
