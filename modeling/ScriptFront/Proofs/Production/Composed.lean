import ScriptFront.Production.SourceFile
import ScriptFront.Proofs.Expression.Parameters

/-!
# What productions are put together from

Every production of the grammar is put together from the productions that a grammar holds, from those that
ask for a type, and from productions that do not depend on the grammar. What holds of these and is kept by
sequences, repetitions and nesting holds of every production.
-/

namespace ScriptFront.Production

variable {α β σ : Type}

/-- Whether a production is put together from the productions of a grammar. -/
inductive Composed : {α : Type} → (Grammar → Production α) → Prop where
  | const {α : Type} (p : Production α) : Composed fun _ => p
  | typed {α : Type} (p : Production Unit → Production α) : Composed fun g => p g.type
  | value : Composed (·.value)
  | expression : Composed (·.expression)
  | binary (least : Level) : Composed (·.binary least)
  | unary : Composed (·.unary)
  | block : Composed (·.block)
  | item : Composed (·.item)
  | bind {α β : Type} {p : Grammar → Production α} {f : Grammar → α → Production β} (hp : Composed p)
      (hf : ∀ a, Composed fun g => f g a) : Composed fun g => p g >>= f g
  | nested {α : Type} {p : Grammar → Production α} (hp : Composed p) : Composed fun g => nested (p g)
  | loop {σ β : Type} {step : Grammar → σ → Production (Turn σ β)} (h : ∀ s, Composed fun g => step g s)
      (s : σ) : Composed fun g => loop (step g) s
  | «variable» (isConst : Bool) : Composed (·.variableDeclaration isConst)
  | parameter (fields : List Parameter) : Composed (·.parameterRound fields)
  | result (h : Composed (·.parameters)) : Composed (·.functionRest)
  | caught (keyword : Token) : Composed (·.catchClause keyword)
  | global (h : Composed (·.variableStatement)) : Composed (·.globalDeclaration)
  | operand (h : Composed (·.postfixExpression)) : Composed (·.operand)

namespace Composed

theorem map {p : Grammar → Production α} (f : α → β) (hp : Composed p) : Composed fun g => f <$> p g :=
  .bind hp fun a => .const (pure (f a))

theorem ite {c : Prop} [Decidable c] {p q : Grammar → Production α} (hp : Composed p) (hq : Composed q) :
    Composed fun g => if c then p g else q g := by
  split
  · exact hp
  · exact hq

theorem listed (close : Mark) {p : Grammar → Production α} (hp : Composed p) :
    Composed fun g => listed close (p g) := by
  unfold Production.listed
  refine .bind (.loop (fun items => ?_) []) fun items => .const _
  exact .bind (.const _) fun closed => .ite (.const _) (.bind hp fun a => .const _)

/-! ## Expressions -/

theorem parameters : Composed Grammar.parameters :=
  .bind (.const _) fun _ => .bind (.loop (fun fields => .parameter fields) []) fun _ => .const _

theorem arguments : Composed Grammar.arguments := by
  unfold Grammar.arguments
  refine .bind (.loop (fun items => ?_) []) fun _ => .const _
  refine .bind (.const _) fun closed => .ite (.const _) (.bind (.const _) fun dots => ?_)
  cases dots with
  | some dots => exact .bind .value fun e => .const _
  | none => exact .bind .value fun e => .const _

theorem index (target : Expr) (optional : Bool) : Composed (·.index target optional) := by
  unfold Grammar.index
  exact .bind (.const _) fun bracket => .bind .expression fun key => .const _

theorem call (callee : Expr) (optional : Bool) : Composed (·.call callee optional) := by
  unfold Grammar.call
  exact .bind (.const _) fun paren => .bind arguments fun _ => .const _

theorem link (e : Expr) : Composed (·.link e) := by
  unfold Grammar.link
  refine .bind (.const _) fun k => ?_
  split
  · exact .const _
  · refine .bind (.const _) fun _ => .bind (.const _) fun k => ?_
    split
    · exact .map _ (call e true)
    · exact .map _ (index e true)
    · exact .const _
  · exact .map _ (index e false)
  · exact .map _ (call e false)
  · exact .const _

theorem chain (e : Expr) : Composed (·.chain e) := by
  unfold Grammar.chain
  refine .loop (fun s => ?_) (e, false)
  refine .bind (link s.1) fun e => ?_
  cases e with
  | some e => exact .const _
  | none => exact .const _

theorem newInstance : Composed Grammar.newInstance := by
  unfold Grammar.newInstance
  dsimp only
  refine .bind (.const _) fun keyword => .bind (.const _) fun name => .bind (.const _) fun dot => .ite ?_ ?_
  all_goals
    exact .bind (.const _) fun typeName => .bind (.const _) fun _ => .bind (.const _) fun _ =>
      .bind arguments fun _ => .const _

theorem arrayLiteral : Composed Grammar.arrayLiteral := by
  unfold Grammar.arrayLiteral
  exact .bind (.const _) fun bracket => .bind (.listed _ .value) fun _ => .const _

theorem mapEntry : Composed Grammar.mapEntry := by
  unfold Grammar.mapEntry
  dsimp only
  refine .bind (.const _) fun k => .ite (.bind (.const _) fun _ => ?_) ?_
  all_goals exact .bind (.const _) fun key => .bind (.const _) fun _ => .bind .value fun _ => .const _

theorem mapLiteral : Composed Grammar.mapLiteral := by
  unfold Grammar.mapLiteral
  exact .bind (.const _) fun brace => .bind (.listed _ mapEntry) fun _ => .const _

theorem functionRest : Composed Grammar.functionRest := .result parameters

theorem functionLiteral : Composed Grammar.functionLiteral := by
  unfold Grammar.functionLiteral
  exact .bind (.const _) fun keyword => .bind functionRest fun _ => .const _

theorem primary : Composed Grammar.primary := by
  unfold Grammar.primary
  refine .bind (.const _) fun t => ?_
  split
  · exact .const _
  · split
    · exact .const _
    · exact .const _
    · exact .const _
    · exact .bind (.const _) fun _ => .bind .value fun e => .const _
    · exact newInstance
    · exact functionLiteral
    · exact arrayLiteral
    · exact mapLiteral
    · exact .const _

theorem postfixExpression : Composed Grammar.postfixExpression := by
  unfold Grammar.postfixExpression
  exact .bind (.typed _) fun _ => .bind primary fun e => chain e

theorem unaryExpression : Composed Grammar.unaryExpression := by
  unfold Grammar.unaryExpression
  refine .bind (.const _) fun k => ?_
  split
  · exact .const _
  · split
    · exact .bind (.const _) fun t => .map _ (.nested .unary)
    · exact .operand postfixExpression
  · exact .operand postfixExpression

theorem operation (least : Level) (left : Expr) : Composed (·.operation least left) := by
  unfold Grammar.operation
  refine .bind (.const _) fun operator => ?_
  cases operator with
  | none => exact .const _
  | some operator => exact .ite (.const _) (.bind (.const _) fun _ => .bind (.binary _) fun _ => .const _)

theorem binaryExpression (least : Level) : Composed (·.binaryExpression least) := by
  unfold Grammar.binaryExpression
  exact .bind unaryExpression fun first => .loop (operation least) first

theorem ternary (condition : Expr) : Composed (·.ternary condition) := by
  unfold Grammar.ternary
  exact .bind (.const _) fun question => .ite (.bind .value fun _ => .bind (.const _) fun _ => .map _ .value)
    (.const _)

theorem conditional : Composed Grammar.conditional := by
  unfold Grammar.conditional
  exact .bind (binaryExpression .logical) ternary

theorem arrowFunction : Composed Grammar.arrowFunction := by
  have hbody (ps : Parameters) (p : Position) : Composed fun g => (do
      discard (accept (.mark .arrow))
      let body ← if ← isAt (.mark .openBrace) then g.block else Block.returning <$> g.value
      return (Expr.function p ps body) : Production Expr) := by
    dsimp only
    refine .bind (.const _) fun _ => .bind (.const _) fun brace => .ite ?_ ?_
    · exact .bind .block fun _ => .const _
    · exact .bind (.map _ .value) fun _ => .const _
  unfold Grammar.arrowFunction
  dsimp only
  refine .bind (.const _) fun start => .ite ?_ ?_
  · exact .bind (.const _) fun _ => .bind (.const _) fun ps => hbody ps start.position
  · exact .bind parameters fun ps => .bind (.typed _) fun _ => .bind (.const _) fun ps =>
      hbody ps start.position

theorem valueExpression : Composed Grammar.valueExpression := by
  unfold Grammar.valueExpression
  exact .nested (.bind (.const _) fun arrow => .ite arrowFunction conditional)

/-! ## Declarations -/

theorem variableStatement : Composed Grammar.variableStatement := by
  unfold Grammar.variableStatement
  exact .bind (.const _) fun keyword => .variable _

theorem namedFunction (position : Position) (name : String) (exported : Bool) :
    Composed (·.namedFunction position name exported) := by
  unfold Grammar.namedFunction
  exact .bind functionRest fun _ => .const _

theorem functionDeclaration (exported : Bool) : Composed (·.functionDeclaration exported) := by
  unfold Grammar.functionDeclaration
  exact .bind (.const _) fun keyword => .bind (.const _) fun name => namedFunction ..

theorem prototypeMethod : Composed Grammar.prototypeMethod := by
  unfold Grammar.prototypeMethod
  exact .bind (.const _) fun receiver => .bind (.const _) fun _ => .bind (.const _) fun prototype =>
    .bind (.const _) fun _ => .bind (.const _) fun name => .bind (.const _) fun _ =>
    .bind (.const _) fun _ => .bind functionRest fun _ => .const _

theorem method (exported : Bool) : Composed (·.method exported) := by
  unfold Grammar.method
  exact .bind (.const _) fun name => namedFunction ..

theorem field (exported : Bool) : Composed (·.field exported) := by
  unfold Grammar.field
  exact .bind (.variable false) fun _ => .const _

theorem bareMember (exported : Bool) : Composed (·.bareMember exported) := by
  unfold Grammar.bareMember
  refine .bind (.const _) fun getter => .ite (.bind (.const _) fun _ => .map _ (method exported)) ?_
  refine .bind (.const _) fun setter => .ite (.bind (.const _) fun _ => .map _ (method exported)) ?_
  exact .bind (.const _) fun parens => .ite (.map _ (method exported)) (.map _ (field exported))

theorem classMembers : Composed Grammar.classMembers := by
  have hmember : Composed Grammar.classMember := by
    unfold Grammar.classMember
    exact .bind (.const _) fun isPrivate => .ite (.bind (.const _) fun _ => bareMember false) (bareMember true)
  unfold Grammar.classMembers
  refine .loop (fun members => ?_) []
  refine .bind (.const _) fun t => ?_
  split
  · exact .const _
  · exact .const _
  · exact .const _
  · exact .bind hmember fun _ => .const _
  · exact .bind hmember fun _ => .const _
  · exact .const _

theorem classDeclaration (exported : Bool) : Composed (·.classDeclaration exported) := by
  unfold Grammar.classDeclaration
  dsimp only
  refine .bind (.const _) fun keyword => .bind (.const _) fun name => .bind (.typed _) fun _ =>
    .bind (.const _) fun heritage => .ite (.bind (.typed _) fun _ => ?_) ?_
  all_goals exact .bind (.const _) fun _ => .bind classMembers fun members => .const _

theorem functionOrClass (exported : Bool) : Composed (·.functionOrClass exported) := by
  unfold Grammar.functionOrClass
  exact .bind (.const _) fun isClass => .ite (.map _ (classDeclaration exported))
    (.map _ (functionDeclaration exported))

/-! ## Statements -/

theorem simpleStatement : Composed Grammar.simpleStatement := by
  unfold Grammar.simpleStatement
  refine .bind (.operand postfixExpression) fun left => .bind (.const _) fun k => ?_
  split
  · exact .bind (.const _) fun _ => .map _ .value
  · split
    · exact .const _
    · exact .bind (.const _) fun _ => .map _ .value
    · exact .const _
  · exact .const _

theorem newStatement : Composed Grammar.newStatement := by
  unfold Grammar.newStatement
  exact .bind (.const _) fun t => .bind conditional fun e => .const _

theorem returnStatement : Composed Grammar.returnStatement := by
  unfold Grammar.returnStatement
  exact .bind (.const _) fun keyword => .bind (.const _) fun t => .ite (.const _) (.map _ .value)

theorem condition : Composed Grammar.condition := by
  unfold Grammar.condition
  exact .bind (.const _) fun _ => .bind .expression fun e => .const _

theorem branch : Composed Grammar.branch := by
  unfold Grammar.branch
  exact .bind condition fun condition => .map _ .block

theorem ifStatement : Composed Grammar.ifStatement := by
  unfold Grammar.ifStatement
  refine .bind (.const _) fun keyword => .bind branch fun first => .bind (.loop (fun branches => ?_) [first])
    fun _ => .const _
  refine .bind (.const _) fun hasElse => .ite (.const _) (.bind (.const _) fun hasIf => .ite ?_ ?_)
  · exact .bind branch fun _ => .const _
  · exact .bind .block fun _ => .const _

theorem whileStatement : Composed Grammar.whileStatement := by
  unfold Grammar.whileStatement
  exact .bind (.const _) fun keyword => .bind condition fun condition => .map _ .block

theorem forVariables : Composed Grammar.forVariables := by
  unfold Grammar.forVariables
  refine .bind variableStatement fun first => .loop (fun decls => ?_) _
  exact .bind (.const _) fun comma => .ite (.bind (.variable _) fun _ => .const _) (.const _)

theorem classicHeader : Composed Grammar.classicHeader := by
  have hstep (declarations : List Stmt) (condition : Option Expr) : Composed fun g => (do
      discard (accept (.mark .semicolon))
      let step ← if ← isAt (.mark .closeParen) then pure none else some <$> g.simpleStatement
      return (ForHeader.classic declarations condition step) : Production ForHeader) := by
    dsimp only
    exact .bind (.const _) fun _ => .bind (.const _) fun closed => .ite (.const _)
      (.bind (.map _ simpleStatement) fun _ => .const _)
  have hcondition (declarations : List Stmt) : Composed fun g => (do
      discard (accept (.mark .semicolon))
      let condition ← if ← isAt (.mark .semicolon) then pure none else some <$> g.expression
      discard (accept (.mark .semicolon))
      let step ← if ← isAt (.mark .closeParen) then pure none else some <$> g.simpleStatement
      return (ForHeader.classic declarations condition step) : Production ForHeader) := by
    dsimp only
    exact .bind (.const _) fun _ => .bind (.const _) fun missing => .ite
      (.bind (.const _) fun condition => hstep declarations condition)
      (.bind (.map _ .expression) fun condition => hstep declarations condition)
  unfold Grammar.classicHeader
  dsimp only
  refine .bind (.const _) fun k => .ite (.bind forVariables hcondition) (.ite (.bind (.const _) hcondition) ?_)
  exact .bind (.map _ simpleStatement) hcondition

theorem forStatement : Composed Grammar.forStatement := by
  have hiteration : Composed Grammar.iterationHeader := by
    unfold Grammar.iterationHeader
    exact .bind (.const _) fun _ => .bind (.const _) fun binding => .bind (.const _) fun joint =>
      .bind .expression fun subject => .const _
  have hheader : Composed Grammar.forHeader := by
    unfold Grammar.forHeader
    exact .bind (.const _) fun iterates => .ite hiteration classicHeader
  unfold Grammar.forStatement
  exact .bind (.const _) fun keyword => .bind (.const _) fun _ => .bind hheader fun header =>
    .bind (.const _) fun _ => .map _ .block

theorem blockBody : Composed Grammar.blockBody := by
  unfold Grammar.blockBody
  refine .nested (.bind (.const _) fun brace => .bind (.loop (fun items => ?_) []) fun items => .const _)
  refine .bind (.const _) fun k => ?_
  split
  · exact .const _
  · exact .const _
  · exact .bind .item fun s => .const _

theorem caseStatements (position : Position) : Composed (·.caseStatements position) := by
  unfold Grammar.caseStatements
  refine .loop (fun items => ?_) []
  refine .bind (.const _) fun k => ?_
  split
  · exact .const _
  · exact .const _
  · exact .const _
  · exact .const _
  · exact .bind .item fun s => .const _

theorem caseBlock (before : List CaseBlock) : Composed (·.caseBlock before) := by
  unfold Grammar.caseBlock
  dsimp only
  refine .bind (.const _) fun t => ?_
  split
  · have hstatements (label : Expr) : Composed fun g =>
        (do return some ⟨t.position, some label, ← g.caseStatements t.position⟩ :
          Production (Option CaseBlock)) := .map _ (caseStatements _)
    refine .bind (.const _) fun _ => .bind .expression fun label => .bind (.const _) fun _ => ?_
    split
    · exact .ite (.bind (.const _) fun _ => hstatements _) (hstatements _)
    · exact hstatements label
  · have hdefault : Composed fun g => (do
        discard (accept (.mark .colon))
        return some ⟨t.position, none, ← g.caseStatements t.position⟩ : Production (Option CaseBlock)) :=
      .bind (.const _) fun _ => .map _ (caseStatements _)
    exact .bind (.const _) fun _ => .ite (.bind (.const _) fun _ => hdefault) hdefault
  · exact .const _

theorem switchStatement : Composed Grammar.switchStatement := by
  have hblocks : Composed Grammar.caseBlocks := by
    unfold Grammar.caseBlocks
    refine .bind (.loop (fun blocks => ?_) []) fun blocks => .const _
    exact .bind (caseBlock blocks) fun b => .const _
  unfold Grammar.switchStatement
  exact .bind (.const _) fun keyword => .bind condition fun subject => .bind (.const _) fun _ =>
    .bind hblocks fun blocks => .const _

theorem tryStatement : Composed Grammar.tryStatement := by
  unfold Grammar.tryStatement
  dsimp only
  refine .bind (.const _) fun keyword => .bind .block fun body => .bind (.const _) fun caught => ?_
  have hfinally (handler : Option CatchClause) : Composed fun g => (do
      let finalizer ← if ← skips (.keyword .finallyWord) then some <$> g.block else pure none
      return (Stmt.tryCatch keyword.position body handler finalizer) : Production Stmt) := by
    dsimp only
    exact .bind (.const _) fun hasFinally => .ite (.bind (.map _ .block) fun _ => .const _) (.const _)
  cases caught with
  | some t => exact .bind (.map _ (.caught t)) hfinally
  | none => exact .bind (.const _) hfinally

theorem labelStatement : Composed Grammar.labelStatement := by
  unfold Grammar.labelStatement
  dsimp only
  refine .bind (.const _) fun name => .bind (.const _) fun _ => .bind (.const _) fun t => ?_
  split
  · exact .bind forStatement fun _ => .const _
  · exact .bind whileStatement fun _ => .const _
  · exact .bind switchStatement fun _ => .const _
  · exact .const _

theorem bareStatement : Composed Grammar.bareStatement := by
  unfold Grammar.bareStatement
  refine .bind (.const _) fun t => ?_
  split
  · exact .map _ variableStatement
  · exact .map _ variableStatement
  · exact .map _ variableStatement
  · exact .const _
  · exact .map _ (functionDeclaration false)
  · exact ifStatement
  · exact whileStatement
  · exact forStatement
  · exact switchStatement
  · exact tryStatement
  · exact returnStatement
  · exact .bind (.const _) fun _ => .map _ .value
  · exact .const _
  · exact .const _
  · exact .const _
  · exact newStatement
  · exact .map _ blockBody
  · exact .bind (.const _) fun isMethod => .ite (.map _ prototypeMethod)
      (.bind (.const _) fun isLabel => .ite labelStatement simpleStatement)
  · exact simpleStatement
  · exact .const _
  · exact .const _

theorem statementBody : Composed Grammar.statementBody := by
  unfold Grammar.statementBody
  exact .bind bareStatement fun s => .const _

theorem blockItem : Composed Grammar.blockItem := by
  unfold Grammar.blockItem
  refine .bind (.const _) fun isAlias => .ite (.bind (.typed _) fun _ => .const _) ?_
  exact .bind (.const _) fun isInterface => .ite (.bind (.typed _) fun _ => .const _) (.map _ statementBody)

/-! ## Files -/

theorem exportDeclaration : Composed Grammar.exportDeclaration := by
  have hvariable : Composed fun g => (do
      let decl ← g.variableStatement
      semicolon
      return some (Stmt.varDecl { decl with exported := true }) : Production (Option Stmt)) :=
    .bind variableStatement fun decl => .const _
  unfold Grammar.exportDeclaration
  refine .bind (.const _) fun _ => .bind (.const _) fun t => ?_
  split
  · exact .const _
  · exact .map _ (functionOrClass true)
  · exact .map _ (functionOrClass true)
  · exact hvariable
  · exact hvariable
  · exact hvariable
  · exact .bind (.typed _) fun _ => .const _
  · exact .bind (.const _) fun isAlias => .ite (.bind (.typed _) fun _ => .const _) (.const _)
  · exact .const _

theorem globalBlock : Composed Grammar.globalBlock := by
  unfold Grammar.globalBlock
  dsimp only
  refine .bind (.const _) fun _ => .bind (.const _) fun t => .ite (.bind (.const _) fun _ => ?_) ?_
  all_goals
    refine .ite (.bind (.const _) fun _ => ?_) ?_
    all_goals
      refine .bind (.const _) fun _ => .bind (.const _) fun _ => .loop (fun decls => ?_) []
      exact .bind (.const _) fun closed => .ite (.const _)
        (.bind (.global variableStatement) fun s => .const _)

theorem attributed (d : Draft) (p : Position) {declaration : Grammar → Production (Option Stmt)}
    (h : Composed declaration) : Composed fun g => Grammar.attributed d p (declaration g) := by
  unfold Grammar.attributed
  exact .bind h fun s => .const _

theorem construct (d : Draft) (t : Token) : Composed (·.construct d t) := by
  have hother : Composed (Grammar.construct.other · d t.position) := by
    unfold Grammar.construct.other
    exact .bind (.const _) fun d => .map _ statementBody
  unfold Grammar.construct
  split
  · exact .const _
  · exact attributed _ _ (.map _ (functionOrClass false))
  · exact attributed _ _ (.map _ (functionOrClass false))
  · refine .bind (.const _) fun isAttributed => .ite (attributed _ _ exportDeclaration) ?_
    exact .bind (.const _) fun d => .bind exportDeclaration fun s => .const _
  · exact .bind (.const _) fun d => .bind (.typed _) fun _ => .const _
  · refine .bind (.const _) fun isAlias => .ite (.bind (.const _) fun d => .bind (.typed _) fun _ => .const _) ?_
    refine .bind (.const _) fun isGlobal => .ite (.bind (.const _) fun d => .map _ globalBlock) ?_
    exact .bind (.const _) fun isNamespace => .ite (.const _) hother
  · exact hother

end Composed

end ScriptFront.Production
