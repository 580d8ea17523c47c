import ScriptFront.Proofs.TailCall.Expressions
import ScriptFront.Proofs.Tree.Asked

/-!
# Statements with marked tail calls

The switch is looked at behind a function only. What the enclosing constructs ask of a statement, whether
control runs off its end and which constant labels it, is not changed by a mark.
-/

namespace ScriptFront

open Rewriting (tailCalls)

namespace Grammar

open Production

/-- A member of a class with its tail calls marked. -/
def ClassMember.marked : ClassMember → ClassMember
  | field d => field (tailCalls.varDecl d)
  | method d => method (tailCalls.funcDecl d)
  | getter d => getter (tailCalls.funcDecl d)
  | setter d => setter (tailCalls.funcDecl d)

namespace Marks

variable {g : Grammar} [hg : g.Marks]

/-! ## Variables and functions -/

theorem variableDeclaration (isConst : Bool) :
    Follows tailCalls.varDecl (g.variableDeclaration isConst) (g.variableDeclaration isConst) := by
  unfold Grammar.variableDeclaration
  refine .read fun name => .read fun _ => .read fun _ => .read fun given => .ite ?_ ?_
  · exact hg.value.bind fun value => .pure rfl
  · exact Follows.bind (f := tailCalls.expr) (.pure rfl) fun value => .pure rfl

theorem variableStatement : Follows tailCalls.varDecl g.variableStatement g.variableStatement := by
  unfold Grammar.variableStatement
  exact .read fun keyword => variableDeclaration _

theorem namedFunction (position : Position) (name : String) (exported : Bool) :
    Follows tailCalls.funcDecl (g.namedFunction position name exported)
      (g.namedFunction position name exported) := by
  unfold Grammar.namedFunction
  refine functionRest.bind fun rest => .read fun _ => ?_
  refine .optimizes (.pure ?_)
  rw [FuncDecl.markTailCall_eq rfl, Rewriting.tailCalls_funcDecl]
  rfl

theorem functionDeclaration (exported : Bool) :
    Follows tailCalls.funcDecl (g.functionDeclaration exported)
      (g.functionDeclaration exported) := by
  unfold Grammar.functionDeclaration
  exact .read fun keyword => .read fun name => namedFunction _ _ _

theorem prototypeMethod : Follows tailCalls.funcDecl g.prototypeMethod g.prototypeMethod := by
  unfold Grammar.prototypeMethod
  refine .read fun receiver => .read fun _ => .read fun prototype => .read fun _ => .read fun name =>
    .read fun _ => .read fun _ => functionRest.bind fun rest => .pure ?_
  rw [Rewriting.tailCalls_funcDecl]
  rfl

/-! ## Classes and enums -/

theorem method (exported : Bool) :
    Follows tailCalls.funcDecl (g.method exported) (g.method exported) := by
  unfold Grammar.method
  exact .read fun name => namedFunction _ _ _

theorem field (exported : Bool) :
    Follows tailCalls.varDecl (g.field exported) (g.field exported) := by
  unfold Grammar.field
  refine (variableDeclaration false).bind fun field => .read fun _ => .pure ?_
  cases field
  rfl

theorem bareMember (exported : Bool) :
    Follows ClassMember.marked (g.bareMember exported) (g.bareMember exported) := by
  unfold Grammar.bareMember
  refine .read fun isGetter => .ite ?_ (.read fun isSetter => .ite ?_ (.read fun isMethod => .ite ?_ ?_))
  · exact .read fun _ => (method exported).bind fun d => .pure rfl
  · exact .read fun _ => (method exported).bind fun d => .pure rfl
  · exact (method exported).bind fun d => .pure rfl
  · exact (field exported).bind fun d => .pure rfl

theorem classMember : Follows ClassMember.marked g.classMember g.classMember := by
  unfold Grammar.classMember
  exact .read fun isPrivate => .ite (.read fun _ => bareMember false) (bareMember true)

theorem classMembers :
    Follows (List.map ClassMember.marked) g.classMembers g.classMembers := by
  unfold Grammar.classMembers
  refine .loop (h := List.map ClassMember.marked) (fun members => ?_) []
  refine .read fun t => ?_
  split
  · exact .read fun _ => .pure (by simp [Turn.map])
  · exact .fail _ _
  · exact .read fun _ => .pure rfl
  · exact classMember.bind fun member => .pure rfl
  · exact classMember.bind fun member => .pure rfl
  · exact .failHere _

theorem classDeclaration (exported : Bool) :
    Follows tailCalls.classDecl (g.classDeclaration exported) (g.classDeclaration exported) := by
  have hpart : ∀ {α : Type} {part : ClassMember → Option α} {h : α → α},
      (∀ member, part member.marked = (part member).map h) → ∀ members : List ClassMember,
      (members.map ClassMember.marked).filterMap part = (members.filterMap part).map h := by
    intro α part h hpart members
    rw [List.filterMap_map, List.map_filterMap]
    exact congrArg (List.filterMap · members) (funext hpart)
  unfold Grammar.classDeclaration
  refine .read fun keyword => .read fun name => .read fun _ => .read fun isHeir => ?_
  extract_lets body
  have hbody : ∀ u, Follows tailCalls.classDecl (body u) (body u) := by
    intro u
    refine .read fun _ => classMembers.bind fun members => .pure ?_
    rw [Rewriting.classDecl, hpart (h := tailCalls.varDecl), hpart (h := tailCalls.funcDecl),
      hpart (h := tailCalls.funcDecl), hpart (h := tailCalls.funcDecl)]
    · simp
    all_goals
      intro member
      cases member <;> rfl
  exact .ite (.read hbody) (hbody ())

theorem functionOrClass (exported : Bool) :
    Follows tailCalls.stmt (g.functionOrClass exported) (g.functionOrClass exported) := by
  unfold Grammar.functionOrClass
  refine .read fun isClass => .ite ?_ ?_
  · exact (classDeclaration exported).bind fun d => .pure rfl
  · exact (functionDeclaration exported).bind fun d => .pure rfl

instance enumDeclaration (exported : Bool) : Unswitched (enumDeclaration exported) := by
  have hinitializer : Unswitched enumInitializer := by
    unfold enumInitializer
    refine @Unswitched.bind _ _ _ _ _ fun negative => @Unswitched.bind _ _ _ _ _ fun t => ?_
    split <;> infer_instance
  have hmember : ∀ isFirst counter, Unswitched (enumMember isFirst counter) := by
    intro isFirst counter
    unfold enumMember
    refine @Unswitched.bind _ _ _ _ _ fun name => @Unswitched.bind _ _ _ _ _ fun given =>
      @Unswitched.ite _ _ _ _ _ (@Unswitched.bind _ _ _ _ _ fun value => ?_) _
    dsimp only
    refine @Unswitched.ite _ _ _ _ _ ?_ _
    split <;> infer_instance
  unfold Production.enumDeclaration enumMembers
  dsimp only
  refine @Unswitched.bind _ _ _ _ _ fun keyword => @Unswitched.bind _ _ _ _ _ fun name => ?_
  infer_instance

/-! ## Simple statements -/

theorem asCall (left : Expr) (k : Kind) :
    Follows tailCalls.stmt (simpleStatement.asCall left k)
      (simpleStatement.asCall (tailCalls.expr left) k) := by
  have hposition := tailCalls.position_expr left
  unfold simpleStatement.asCall
  cases left with
  | call c => exact .pure rfl
  | _ =>
    rw [Rewriting.expr] at hposition ⊢
    dsimp only
    rw [hposition, Rewriting.tailCalls_position]
    split
    · exact .fail _ _
    · exact .fail _ _
    · exact .fail _ _
    · exact .failHere _

theorem simpleStatement : Follows tailCalls.stmt g.simpleStatement g.simpleStatement := by
  unfold Grammar.simpleStatement
  refine operand.bind fun left => .read fun k => ?_
  split
  · exact .read fun _ => hg.value.bind fun value => .pure rfl
  · split
    · exact .read fun _ => .pure rfl
    · exact .read fun _ => hg.value.bind fun value => .pure rfl
    · exact asCall left _
  · exact asCall left k

theorem newStatement : Follows tailCalls.stmt g.newStatement g.newStatement := by
  unfold Grammar.newStatement
  refine .read fun t => conditional.bind fun e => ?_
  cases e with
  | call c => exact .pure rfl
  | _ => exact .fail _ _

theorem deleteStatement : Follows tailCalls.stmt deleteStatement deleteStatement := by
  unfold Grammar.deleteStatement
  refine .read fun keyword => .read fun object => .read fun dotted => .ite ?_ ?_
  · exact .read fun _ => .read fun property => .pure rfl
  · exact .read fun property => .pure rfl

/-! ## Jumps, conditions and loops -/

instance jumpLabel (keyword : Token) : Unswitched (jumpLabel keyword) := by
  unfold Grammar.jumpLabel
  infer_instance

theorem returnStatement : Follows tailCalls.stmt g.returnStatement g.returnStatement := by
  unfold Grammar.returnStatement
  refine .read fun keyword => .read fun t => .ite (.pure rfl) ?_
  exact hg.value.bind fun value => .pure rfl

theorem condition : Follows tailCalls.expr g.condition g.condition := by
  unfold Grammar.condition
  exact .read fun _ => hg.expression.bind fun e => .read fun _ => .pure rfl

theorem branch : Follows tailCalls.branch g.branch g.branch := by
  unfold Grammar.branch
  exact condition.bind fun e => hg.block.bind fun b => .pure rfl

theorem ifStatement : Follows tailCalls.stmt g.ifStatement g.ifStatement := by
  unfold Grammar.ifStatement
  refine .read fun keyword => branch.bind fun first => Follows.bind
    (f := Prod.map (List.map tailCalls.branch) (Option.map tailCalls.block))
    (.loop (h := List.map tailCalls.branch) (fun branches => ?_) [first]) fun parts => .pure ?_
  · refine .read fun isElse => .ite (.pure (by simp [Turn.map])) (.read fun isIf => .ite ?_ ?_)
    · exact branch.bind fun b => .pure rfl
    · exact hg.block.bind fun b => .pure (by simp [Turn.map])
  · simp [Rewriting.stmt]

theorem whileStatement : Follows tailCalls.stmt g.whileStatement g.whileStatement := by
  unfold Grammar.whileStatement
  exact .read fun keyword => condition.bind fun e => hg.block.bind fun b => .pure rfl

theorem forVariables : Follows (List.map tailCalls.stmt) g.forVariables g.forVariables := by
  unfold Grammar.forVariables
  refine variableStatement.bind fun first => ?_
  refine .loop (h := List.map tailCalls.stmt) (fun decls => .read fun comma => .ite ?_ ?_)
    [.varDecl first]
  · cases first
    exact (variableDeclaration _).bind fun d => .pure rfl
  · exact .pure (by simp [Turn.map])

theorem classicHeader : Follows tailCalls.header g.classicHeader g.classicHeader := by
  unfold Grammar.classicHeader
  refine .read fun k => ?_
  extract_lets behindDeclarations
  have hdeclarations : ∀ declarations, Follows tailCalls.header (behindDeclarations declarations)
      (behindDeclarations (declarations.map tailCalls.stmt)) := by
    intro declarations
    refine .read fun _ => .read fun isMissing => ?_
    extract_lets behindCondition behindCondition'
    have hcondition : ∀ condition, Follows tailCalls.header (behindCondition condition)
        (behindCondition' (condition.map tailCalls.expr)) := by
      intro condition
      have hheader : ∀ step, ForHeader.classic (declarations.map tailCalls.stmt)
          (condition.map tailCalls.expr) (step.map tailCalls.stmt) =
            tailCalls.header (.classic declarations condition step) := by
        simp [Rewriting.header]
      refine .read fun _ => .read fun isMissing => .ite ?_ ?_
      · exact Follows.bind (f := Option.map tailCalls.stmt) (.pure rfl) fun step =>
          .pure (hheader step)
      · exact simpleStatement.some.bind fun step => .pure (hheader step)
    refine .ite ?_ ?_
    · exact Follows.bind (f := Option.map tailCalls.expr) (.pure rfl) hcondition
    · exact hg.expression.some.bind hcondition
  refine .ite (forVariables.bind hdeclarations) (.ite ?_ ?_)
  · exact Follows.bind (f := List.map tailCalls.stmt) (.pure rfl) hdeclarations
  · exact (simpleStatement.map (h := List.map tailCalls.stmt) fun _ => rfl).bind hdeclarations

theorem iterationHeader : Follows tailCalls.header g.iterationHeader g.iterationHeader := by
  unfold Grammar.iterationHeader
  refine .read fun _ => .read fun binding => .read fun joint => hg.expression.bind fun subject => ?_
  exact .pure (by rw [apply_ite tailCalls.header]; rfl)

theorem forHeader : Follows tailCalls.header g.forHeader g.forHeader := by
  unfold Grammar.forHeader
  exact .read fun iterates => .ite iterationHeader classicHeader

theorem forStatement : Follows tailCalls.stmt g.forStatement g.forStatement := by
  unfold Grammar.forStatement
  exact .read fun keyword => .read fun _ => forHeader.bind fun header => .read fun _ =>
    hg.block.bind fun body => .pure rfl

/-! ## Blocks -/

/-- Items are kept unless they are types. -/
theorem itemTurn (items : List Stmt) :
    Follows (Turn.map (List.map tailCalls.stmt) (List.map tailCalls.stmt))
      (do
        match ← g.item with
        | some s => return .again (s :: items)
        | none => return .again items)
      (do
        match ← g.item with
        | some s => return .again (s :: items.map tailCalls.stmt)
        | none => return .again (items.map tailCalls.stmt)) := by
  refine hg.item.bind fun item => ?_
  cases item with
  | some s => exact .pure rfl
  | none => exact .pure rfl

theorem blockBody : Follows tailCalls.block g.blockBody g.blockBody := by
  unfold Grammar.blockBody
  refine .nested (.read fun brace => Follows.bind (f := List.map tailCalls.stmt)
    (.loop (h := List.map tailCalls.stmt) (fun items => .read fun kind => ?_) [])
    fun items => .read fun close => .pure ?_)
  · split
    · exact .pure (by simp [Turn.map])
    · exact .fail _ _
    · exact itemTurn items
  · simp [Rewriting.block]

/-! ## Switches -/

theorem caseStatements (position : Position) :
    Follows (List.map tailCalls.stmt) (g.caseStatements position) (g.caseStatements position) := by
  unfold Grammar.caseStatements
  refine .loop (h := List.map tailCalls.stmt) (fun items => .read fun kind => ?_) []
  split
  · exact .pure (by simp [Turn.map])
  · exact .pure (by simp [Turn.map])
  · exact .pure (by simp [Turn.map])
  · exact .fail _ _
  · exact itemTurn items

theorem caseBlock (before : List CaseBlock) :
    Follows (Option.map tailCalls.caseBlock) (g.caseBlock before)
      (g.caseBlock (before.map tailCalls.caseBlock)) := by
  have hblock : ∀ (p : Position) (label : Option Expr), Follows (Option.map tailCalls.caseBlock)
      (do return some ⟨p, label, ← g.caseStatements p⟩)
      (do return some ⟨p, label.map tailCalls.expr, ← g.caseStatements p⟩) := by
    intro p label
    refine (caseStatements p).bind fun statements => .pure ?_
    simp [Rewriting.caseBlock]
  unfold Grammar.caseBlock
  refine .read fun t => ?_
  split
  · refine .read fun _ => hg.expression.bind fun label => .read fun _ => ?_
    cases label with
    | constant p kind value =>
      simp only [Rewriting.expr, List.any_map, Function.comp_def, Rewriting.isFor_caseBlock]
      exact .ite (.read fun _ => hblock t.position _) (hblock t.position _)
    | _ => exact hblock t.position _
  · simp only [List.any_map, Function.comp_def, Rewriting.isDefault_caseBlock]
    refine .read fun _ => .ite (.read fun _ => .read fun _ => ?_) (.read fun _ => ?_)
    · exact hblock t.position none
    · exact hblock t.position none
  · exact .pure rfl

theorem caseBlocks : Follows (List.map tailCalls.caseBlock) g.caseBlocks g.caseBlocks := by
  unfold Grammar.caseBlocks
  refine Follows.bind (f := List.map tailCalls.caseBlock)
    (.loop (h := List.map tailCalls.caseBlock) (fun blocks => ?_) []) fun blocks => .read fun _ => ?_
  · refine (caseBlock blocks).bind fun b => ?_
    cases b with
    | some b => exact .pure rfl
    | none => exact .pure (by simp [Turn.map])
  · rw [← List.map_dropLast, List.find?_map]
    simp only [Function.comp_def, Rewriting.fallsThrough_caseBlock]
    cases blocks.dropLast.find? (·.fallsThrough) with
    | some b =>
      cases b
      exact .fail _ _
    | none => exact .pure rfl

theorem switchStatement : Follows tailCalls.stmt g.switchStatement g.switchStatement := by
  unfold Grammar.switchStatement
  refine .read fun keyword => condition.bind fun subject => .read fun _ =>
    caseBlocks.bind fun blocks => .pure ?_
  simp [Rewriting.stmt, List.filter_map, List.find?_map, Function.comp_def,
    Rewriting.isDefault_caseBlock]

/-! ## Other statements -/

theorem catchClause (keyword : Token) :
    Follows tailCalls.catchClause (g.catchClause keyword) (g.catchClause keyword) := by
  unfold Grammar.catchClause
  refine .read fun isBound => ?_
  extract_lets behindBinding
  have hbinding : ∀ binding, Follows tailCalls.catchClause (behindBinding binding)
      (behindBinding binding) := by
    intro binding
    refine hg.block.bind fun body => .pure ?_
    cases binding <;> rfl
  exact .ite (.read fun name => .read fun _ => .read fun _ => .read hbinding) (.read hbinding)

theorem tryStatement : Follows tailCalls.stmt g.tryStatement g.tryStatement := by
  unfold Grammar.tryStatement
  refine .read fun keyword => hg.block.bind fun body => .read fun caught => ?_
  extract_lets behindHandler behindHandler'
  have hhandler : ∀ handler, Follows tailCalls.stmt (behindHandler handler)
      (behindHandler' (handler.map tailCalls.catchClause)) := by
    intro handler
    have hstmt : ∀ finalizer, Stmt.tryCatch keyword.position (tailCalls.block body)
        (handler.map tailCalls.catchClause) (finalizer.map tailCalls.block) =
          tailCalls.stmt (.tryCatch keyword.position body handler finalizer) := by
      simp [Rewriting.stmt]
    refine .read fun hasFinalizer => .ite ?_ ?_
    · exact hg.block.some.bind fun finalizer => .pure (hstmt finalizer)
    · exact Follows.bind (f := Option.map tailCalls.block) (.pure rfl) fun finalizer =>
        .pure (hstmt finalizer)
  cases caught with
  | some t => exact (catchClause t).some.bind hhandler
  | none => exact Follows.bind (f := Option.map tailCalls.catchClause) (.pure rfl) hhandler

theorem labelStatement : Follows tailCalls.stmt g.labelStatement g.labelStatement := by
  unfold Grammar.labelStatement
  refine .read fun name => .read fun _ => .read fun t => ?_
  dsimp only
  split
  · exact forStatement.bind fun body => .pure rfl
  · exact whileStatement.bind fun body => .pure rfl
  · exact switchStatement.bind fun body => .pure rfl
  · exact Follows.bind (f := tailCalls.stmt) (.fail _ _) fun body => .pure rfl

theorem bareStatement : Follows tailCalls.stmt g.bareStatement g.bareStatement := by
  have hvariable : Follows tailCalls.stmt (do return .varDecl (← g.variableStatement))
      (do return .varDecl (← g.variableStatement)) :=
    variableStatement.bind fun d => .pure rfl
  unfold Grammar.bareStatement
  refine .read fun t => ?_
  split
  · exact hvariable
  · exact hvariable
  · exact hvariable
  · exact .read fun d => .pure (by simp [Rewriting.stmt])
  · exact (functionDeclaration false).bind fun d => .pure rfl
  · exact ifStatement
  · exact whileStatement
  · exact forStatement
  · exact switchStatement
  · exact tryStatement
  · exact returnStatement
  · exact .read fun _ => hg.value.bind fun value => .pure rfl
  · exact .read fun _ => .read fun label => .pure rfl
  · exact .read fun _ => .read fun label => .pure rfl
  · exact deleteStatement
  · exact newStatement
  · exact blockBody.bind fun b => .pure rfl
  · refine .read fun isMethod => .ite ?_ (.read fun isLabel => .ite labelStatement simpleStatement)
    exact prototypeMethod.bind fun d => .pure rfl
  · exact simpleStatement
  · exact .fail _ _
  · exact .failHere _

theorem statementBody : Follows tailCalls.stmt g.statementBody g.statementBody := by
  unfold Grammar.statementBody
  exact bareStatement.bind fun s => .read fun _ => .pure rfl

theorem blockItem : Follows (Option.map tailCalls.stmt) g.blockItem g.blockItem := by
  unfold Grammar.blockItem
  refine .read fun isAlias => .ite (.read fun _ => .pure rfl) (.read fun isInterface => .ite ?_ ?_)
  · exact .read fun _ => .pure rfl
  · exact statementBody.bind fun s => .pure rfl

end Marks

/-! ## The whole grammar -/

theorem Marks.around (g : Grammar) [g.Marks] : g.around.Marks where
  value := valueExpression
  expression := conditional
  binary := binaryExpression
  unary := unaryExpression
  block := blockBody
  item := blockItem
  type := Unswitched.unionType
  ascription := Unswitched.ascribedType
  casts := Unswitched.asTypes

theorem Marks.empty : Grammar.empty.Marks where
  value := .read fun _ => .fail _ _
  expression := .read fun _ => .fail _ _
  binary := fun _ => .read fun _ => .fail _ _
  unary := .read fun _ => .fail _ _
  block := .read fun _ => .fail _ _
  item := .read fun _ => .fail _ _
  type := .bind
  ascription := .bind
  casts := .bind

/-- However deep the grammar is entered, the switch only marks tail calls. -/
instance marks_ofDepth (n : Nat) : (ofDepth n).Marks := by
  induction n with
  | zero => exact Marks.empty
  | succ n ih =>
    exact Marks.around (ofDepth n)

end Grammar

end ScriptFront
