import ScriptFront.Proofs.Parsed.Files
import ScriptFront.Proofs.Production.Accepted

/-!
# Nodes of parsed trees

Any node of a tree that a source text or a token list is parsed to is made as the grammar makes it, up to
the attributes of a function or a class (`Token.HasNode.node`).
-/

set_option linter.unusedSectionVars false

namespace ScriptFront

variable {n : Node}

theorem Grammar.Parses.wholeExpression {file : Cursor} {g : Grammar} [g.Progress] [hg : g.Parses file] :
    Production.Answers file (Expr.Parsed file) g.wholeExpression := by
  unfold Grammar.wholeExpression
  refine valueExpression.bind fun e he => .read fun _ => .read fun atEnd => ?_
  exact .ite (.read fun _ => .pure he) (.pure he)

/-- Whether a node stands in a tree that a source text is parsed to. -/
inductive Source.HasNode (source : String) (n : Node) : Prop where
  | file {path : String} {options : Options} {file : File} {s : Stmt}
      (h : File.ofSource source path options = .ok file) (hs : s ∈ file.statements ++ file.globals)
      (hn : (Node.stmt s).Holds n)
  | expr {e : Expr} (h : Expr.ofSource source = .ok e) (hn : (Node.expr e).Holds n)

/-- Whether a node stands in a tree that a token list is parsed to. -/
inductive Token.HasNode (tokens : List Token) (n : Node) : Prop where
  | file {path : String} {options : Options} {file : File} {s : Stmt}
      (h : File.ofTokens tokens path options = .ok file) (hs : s ∈ file.statements ++ file.globals)
      (hn : (Node.stmt s).Holds n)
  | expr {options : Options} {e : Expr} (h : Expr.ofTokens tokens options = .ok e)
      (hn : (Node.expr e).Holds n)

theorem Source.HasNode.tokens {source : String} (h : HasNode source n) :
    ∃ tokens, tokenize (prepare source) = .ok tokens ∧ Token.HasNode tokens n := by
  cases h with
  | file h hs hn =>
    obtain ⟨tokens, htokens, hfile⟩ := File.ofSource_ok h
    exact ⟨tokens, htokens, .file hfile hs hn⟩
  | expr h hn =>
    obtain ⟨tokens, htokens, he⟩ := Expr.ofSource_ok h
    exact ⟨tokens, htokens, .expr he hn⟩

/-- Any node of a tree is made as the grammar makes it, or is a function or a class that may have been
given attributes. -/
theorem Token.HasNode.node {tokens : List Token} (h : HasNode tokens n) :
    n.Proper (Cursor.ofTokens tokens) ∨
      (∃ f, n = .stmt (.funcDecl f) ∧ f.parameters.IsWritten (Cursor.ofTokens tokens)) ∨
      ∃ c, n = .stmt (.classDecl c) := by
  cases h with
  | file h hs hn =>
    obtain ⟨d, hd, rfl⟩ := File.ofTokens_ok h
    exact (Production.runOn_constructs hd _ (by simpa using hs)).node hn
  | expr h hn =>
    obtain ⟨d, hrun⟩ := Production.runOn_ok h
    have hclosed := (Cursor.ofTokens_shows tokens).closed
    exact .inl ((Grammar.Parses.wholeExpression.holds hclosed (.refl _) hrun).1 n hn)

end ScriptFront
