import ScriptFront.Production.SourceFile
import ScriptFront.Proofs.TailCall.Statements

/-!
# Files with marked tail calls

The switch of the parser marks the tail calls of a file and does nothing else: it changes no error, no
import, no attribute and no comment.
-/

namespace ScriptFront

open Rewriting (tailCalls)

/-- A file as far as it has been read, with its tail calls marked. -/
def Draft.marked (d : Draft) : Draft :=
  { d with
    statements := d.statements.map tailCalls.stmt
    globals := d.globals.map tailCalls.stmt }

/-- Attributes are given to a function or a class whether its tail calls are marked or not. -/
theorem Rewriting.stmt_withAttributes (attributes : List String) (s : Stmt) :
    tailCalls.stmt (s.withAttributes attributes) =
      (tailCalls.stmt s).withAttributes attributes := by
  cases s with
  | funcDecl f =>
    obtain ⟨p, name, parameters, exported, given, body, receiver⟩ := f
    simp only [stmt, Stmt.withAttributes, tailCalls_funcDecl, FuncDecl.ended]
    cases receiver <;> rfl
  | classDecl c =>
    cases c
    rfl
  | _ => rfl

namespace Grammar.Marks

open Production

variable {g : Grammar} [hg : g.Marks]

/-! ## Declarations of a file -/

instance importDeclaration : Unswitched importDeclaration := by
  unfold Production.importDeclaration
  refine @Unswitched.bind _ _ _ _ _ fun keyword => @Unswitched.bind _ _ _ _ _ fun kind => ?_
  split <;> infer_instance

theorem exportDeclaration :
    Follows (Option.map tailCalls.stmt) g.exportDeclaration g.exportDeclaration := by
  unfold Grammar.exportDeclaration
  refine .read fun _ => .read fun t => ?_
  have hvariable : Follows (Option.map tailCalls.stmt)
      (do
        let decl ← g.variableStatement
        semicolon
        return some (.varDecl { decl with exported := true }))
      (do
        let decl ← g.variableStatement
        semicolon
        return some (.varDecl { decl with exported := true })) := by
    refine variableStatement.bind fun d => .read fun _ => .pure ?_
    cases d
    rfl
  split
  · exact .read fun d => .pure (by simp [Rewriting.stmt])
  · exact (functionOrClass true).bind fun s => .pure rfl
  · exact (functionOrClass true).bind fun s => .pure rfl
  · exact hvariable
  · exact hvariable
  · exact hvariable
  · exact .read fun _ => .pure rfl
  · refine .read fun isAlias => .ite (.read fun _ => .pure rfl) (.read fun isSpace => .ite ?_ ?_)
    · exact .fail _ _
    · exact .failHere _
  · exact .failHere _

theorem globalDeclaration :
    Follows (Option.map tailCalls.stmt) g.globalDeclaration g.globalDeclaration := by
  have htypes : ∀ {p : Production Unit} [Unswitched p],
      Follows (Option.map tailCalls.stmt) (do p; return none) (do p; return none) :=
    .read fun _ => .pure rfl
  unfold Grammar.globalDeclaration
  refine .read fun kind => ?_
  split
  · exact .read fun d => .pure (by simp [Rewriting.stmt])
  · exact variableStatement.bind fun d => .read fun _ => .pure rfl
  · exact .read fun _ => .read fun _ => .read fun _ => htypes
  · exact .read fun _ => .read fun _ => .read fun _ => htypes
  · exact htypes
  · exact htypes
  · exact .read fun isAlias => .ite htypes (.failHere _)

theorem globalBlock : Follows (List.map tailCalls.stmt) g.globalBlock g.globalBlock := by
  unfold Grammar.globalBlock
  refine .read fun _ => .read fun t => ?_
  extract_lets behindNames behindWords
  have hnames : ∀ u, Follows (List.map tailCalls.stmt) (behindNames u) (behindNames u) := by
    intro u
    refine .read fun _ => .read fun _ => .loop (h := List.map tailCalls.stmt) (fun decls => ?_) []
    refine .read fun closed => .ite (.read fun _ => .pure (by simp [Turn.map])) ?_
    refine globalDeclaration.bind fun s => ?_
    cases s with
    | some s => exact .pure rfl
    | none => exact .pure rfl
  have hwords : ∀ u, Follows (List.map tailCalls.stmt) (behindWords u) (behindWords u) :=
    fun _ => .ite (.read hnames) (hnames ())
  exact .ite (.read hwords) (hwords ())

/-! ## Constructs of a file -/

theorem settled (d : Draft) (p : Position) :
    Follows Draft.marked (settled d p) (settled d.marked p) := by
  intro depth c
  unfold Grammar.settled
  simp only [Draft.marked]
  cases d.attributes.settle p d.started <;> rfl

theorem attributed (d : Draft) (p : Position) {declaration : Production (Option Stmt)}
    (h : Follows (Option.map tailCalls.stmt) declaration declaration) :
    Follows Draft.marked (attributed d p declaration) (attributed d.marked p declaration) := by
  unfold Grammar.attributed
  refine h.bind fun s => ?_
  cases s with
  | none => exact .pure rfl
  | some s =>
    refine .pure ?_
    dsimp only [Draft.addStatement, Draft.marked]
    rw [← Rewriting.stmt_withAttributes]
    rfl

theorem other (d : Draft) (p : Position) :
    Follows Draft.marked (construct.other g d p) (construct.other g d.marked p) := by
  unfold construct.other
  exact (settled d p).bind fun d => statementBody.bind fun s => .pure rfl

theorem construct (d : Draft) (t : Token) :
    Follows Draft.marked (g.construct d t) (g.construct d.marked t) := by
  have htypes : ∀ {p : Production Unit} [Unswitched p], Follows Draft.marked
      (do
        let d ← Grammar.settled d t.position
        p
        return d)
      (do
        let d ← Grammar.settled d.marked t.position
        p
        return d) :=
    (settled d t.position).bind fun d => .read fun _ => .pure rfl
  have hglobals : Follows Draft.marked
      (do
        let d ← Grammar.settled d t.position
        return { d with globals := (← g.globalBlock).reverse ++ d.globals })
      (do
        let d ← Grammar.settled d.marked t.position
        return { d with globals := (← g.globalBlock).reverse ++ d.globals }) :=
    (settled d t.position).bind fun d => globalBlock.bind fun globals => .pure (by simp [Draft.marked])
  unfold Grammar.construct
  split
  · have himport : Follows Draft.marked
        (do
          let d ← Grammar.settled d t.position
          return { d with imports := (← Production.importDeclaration) :: d.imports })
        (do
          let d ← Grammar.settled d.marked t.position
          return { d with imports := (← Production.importDeclaration) :: d.imports }) :=
      (settled d t.position).bind fun d => .read fun i => .pure rfl
    have hempty : d.marked.statements.isEmpty = d.statements.isEmpty := List.isEmpty_map
    dsimp only
    rw [hempty]
    exact .ite (.read fun _ => himport) himport
  · exact attributed d t.position (functionOrClass false).some
  · exact attributed d t.position (functionOrClass false).some
  · refine .read fun isAttributed => .ite (attributed d t.position exportDeclaration) ?_
    refine (settled d t.position).bind fun d => exportDeclaration.bind fun s => ?_
    cases s with
    | some s => exact .pure rfl
    | none => exact .pure rfl
  · exact htypes
  · refine .read fun isAlias => .ite htypes (.read fun isGlobal => .ite hglobals ?_)
    exact .read fun isSpace => .ite (.fail _ _) (other d t.position)
  · exact other d t.position

theorem constructs : Follows Draft.marked g.constructs g.constructs := by
  unfold Grammar.constructs constructsOf
  refine .loop (h := Draft.marked) (fun d => ?_) .empty
  refine .read fun attributes => .read fun t => .ite (.pure rfl) ?_
  exact (construct _ t).bind fun d => .pure rfl

end Grammar.Marks

/-! ## Whole files -/

namespace File

theorem ofTokens_optimized (tokens : List Token) (path : String) :
    ofTokens tokens path ⟨true⟩ = (ofTokens tokens path ⟨false⟩).map tailCallsMarked := by
  have hdraft := (Grammar.Marks.constructs (g := .ofDepth ((Cursor.ofTokens tokens).remaining + 1))) 0
    (Cursor.ofTokens tokens)
  have hrun : Production.runOn Grammar.constructs ⟨true⟩ tokens =
      (Production.runOn Grammar.constructs ⟨false⟩ tokens).map Draft.marked := by
    unfold Production.runOn
    dsimp only
    rw [hdraft]
    cases (Grammar.ofDepth _).constructs _ _ <;> rfl
  unfold ofTokens
  rw [hrun]
  cases Production.runOn Grammar.constructs ⟨false⟩ tokens with
  | error e => rfl
  | ok d =>
    have hstatements : (d.statements.map tailCalls.stmt).reverse =
        d.statements.reverse.map tailCalls.stmt := List.map_reverse.symm
    have hglobals : (d.globals.map tailCalls.stmt).reverse =
        d.globals.reverse.map tailCalls.stmt := List.map_reverse.symm
    refine congrArg Except.ok ?_
    unfold tailCallsMarked Draft.marked
    dsimp only
    rw [hstatements, hglobals]

/-- Marking tail calls changes no error, and marks the tail call of every function of the file. -/
theorem ofSource_optimized (source path : String) :
    ofSource source path ⟨true⟩ = (ofSource source path ⟨false⟩).map tailCallsMarked := by
  unfold ofSource
  cases Source.tokenize (Source.prepare source) with
  | error e => rfl
  | ok tokens => exact ofTokens_optimized tokens path

end File

end ScriptFront
