import ScriptFront.Production.Statement
import ScriptFront.Proofs.Production.ExpressionsRead

/-!
# What statements read

Every statement, block and declaration is one token long at least. With that the whole grammar reads
what its trees stand for, however deep it is entered.
-/

set_option synthInstance.maxSize 4000

namespace ScriptFront

open Production

namespace Production

/-! ## Enums -/

instance : Advances enumInitializer := by
  unfold enumInitializer
  refine @Advances.bind _ _ _ _ _ fun negative => @Advances.bind _ _ _ _ _ fun t => ?_
  split <;> infer_instance

instance (isFirst : Bool) (counter : Int) : Consumes (enumMember isFirst counter) := by
  unfold enumMember
  dsimp only
  refine @Consumes.bind_left _ _ _ _ _ fun name => @Advances.bind _ _ _ _ _ fun b => ?_
  refine @Advances.ite _ _ _ _ _ (@Advances.bind _ _ _ _ _ fun initializer => ?_) _
  split
  · split <;> infer_instance
  · infer_instance

instance : Advances enumMembers := by
  unfold enumMembers
  dsimp only
  infer_instance

instance (exported : Bool) : Consumes (enumDeclaration exported) := by
  unfold enumDeclaration
  infer_instance

end Production

namespace Grammar

variable {g : Grammar} [hg : g.Progress]

/-! ## Declarations -/

instance (isConst : Bool) : Consumes (g.variableDeclaration isConst) := by
  unfold variableDeclaration
  dsimp only
  infer_instance

instance : Advances g.variableStatement := by
  unfold variableStatement
  infer_instance

instance (position : Position) (name : String) (exported : Bool) :
    Advances (g.namedFunction position name exported) := by
  unfold namedFunction
  dsimp only
  infer_instance

instance (exported : Bool) : Consumes (g.functionDeclaration exported) := by
  unfold functionDeclaration
  infer_instance

instance : Consumes g.prototypeMethod := by
  unfold prototypeMethod
  infer_instance

instance (exported : Bool) : Consumes (g.method exported) := by
  unfold method
  infer_instance

instance (exported : Bool) : Consumes (g.field exported) := by
  unfold field
  infer_instance

instance (exported : Bool) : Consumes (g.bareMember exported) := by
  unfold bareMember
  infer_instance

instance : Consumes g.classMember := by
  unfold classMember
  infer_instance

instance : Advances g.classMembers := by
  unfold classMembers
  refine @Advances.loop _ _ _ (fun members => @Advances.bind _ _ _ _ _ fun t => ?_) _
  split <;> infer_instance

instance (exported : Bool) : Consumes (g.classDeclaration exported) := by
  unfold classDeclaration
  dsimp only
  infer_instance

instance (exported : Bool) : Consumes (g.functionOrClass exported) := by
  unfold functionOrClass
  infer_instance

/-! ## Statements -/

instance (left : Expr) (k : Kind) : Advances (simpleStatement.asCall left k) := by
  unfold simpleStatement.asCall
  split
  · infer_instance
  · split <;> infer_instance

instance : Consumes g.operand := consumes_of_width operand_reads

instance : Consumes g.conditional := consumes_of_width conditional_reads

instance : Consumes g.simpleStatement := by
  unfold simpleStatement
  refine @Consumes.bind_left _ _ _ _ _ fun left => @Advances.bind _ _ _ _ _ fun k => ?_
  split
  · infer_instance
  · split <;> infer_instance
  · infer_instance

instance : Consumes g.newStatement := by
  unfold newStatement
  refine @Consumes.bind_right _ _ _ _ _ fun t => @Consumes.bind_left _ _ _ _ _ fun e => ?_
  split <;> infer_instance

instance : Consumes deleteStatement := by
  unfold deleteStatement
  dsimp only
  infer_instance

instance (keyword : Token) : Advances (jumpLabel keyword) := by
  unfold jumpLabel
  infer_instance

instance : Consumes g.returnStatement := by
  unfold returnStatement
  infer_instance

instance : Consumes g.condition := by
  unfold condition
  infer_instance

instance : Consumes g.branch := by
  unfold branch
  infer_instance

instance : Consumes g.ifStatement := by
  unfold ifStatement
  dsimp only
  infer_instance

instance : Consumes g.whileStatement := by
  unfold whileStatement
  infer_instance

instance : Advances g.forVariables := by
  unfold forVariables
  infer_instance

instance : Advances g.classicHeader := by
  unfold classicHeader
  dsimp only
  infer_instance

instance : Advances g.iterationHeader := by
  unfold iterationHeader
  infer_instance

instance : Advances g.forHeader := by
  unfold forHeader
  infer_instance

instance : Consumes g.forStatement := by
  unfold forStatement
  infer_instance

instance : Consumes g.blockBody := by
  unfold blockBody
  refine @Consumes.nested _ _ (@Consumes.bind_left _ _ _ _ _ fun brace => ?_)
  refine @Advances.bind _ _ _ _ (@Advances.loop _ _ _ (fun items => ?_) _) _
  refine @Advances.bind _ _ _ _ _ fun kind => ?_
  split
  · infer_instance
  · infer_instance
  · refine @Advances.bind _ _ _ _ _ fun item => ?_
    split <;> infer_instance

instance (position : Position) : Advances (g.caseStatements position) := by
  unfold caseStatements
  refine @Advances.loop _ _ _ (fun items => @Advances.bind _ _ _ _ _ fun kind => ?_) _
  split
  case h_5 =>
    refine @Advances.bind _ _ _ _ _ fun item => ?_
    split <;> infer_instance
  all_goals infer_instance

instance (before : List CaseBlock) : Advances (g.caseBlock before) := by
  unfold caseBlock
  dsimp only
  refine @Advances.bind _ _ _ _ _ fun t => ?_
  split
  · refine @Advances.bind _ _ _ _ _ fun _ => @Advances.bind _ _ _ _ _ fun label =>
      @Advances.bind _ _ _ _ _ fun colon => ?_
    split <;> infer_instance
  · infer_instance
  · infer_instance

instance : Advances g.caseBlocks := by
  unfold caseBlocks
  refine @Advances.bind _ _ _ _ (@Advances.loop _ _ _ (fun blocks => ?_) _) fun blocks => ?_
  · refine @Advances.bind _ _ _ _ _ fun block => ?_
    split <;> infer_instance
  · refine @Advances.bind _ _ _ _ _ fun _ => ?_
    split <;> infer_instance

instance : Consumes g.switchStatement := by
  unfold switchStatement
  infer_instance

instance (keyword : Token) : Consumes (g.catchClause keyword) := by
  unfold catchClause
  dsimp only
  infer_instance

instance : Consumes g.tryStatement := by
  unfold tryStatement
  dsimp only
  refine @Consumes.bind_left _ _ _ _ _ fun keyword => @Advances.bind _ _ _ _ _ fun body =>
    @Advances.bind _ _ _ _ _ fun handler => ?_
  split <;> infer_instance

instance : Consumes g.labelStatement := by
  unfold labelStatement
  refine @Consumes.bind_left _ _ _ _ _ fun name => @Advances.bind _ _ _ _ _ fun colon =>
    @Advances.bind _ _ _ _ _ fun t => ?_
  split <;> infer_instance

instance : Consumes g.bareStatement := by
  have hvariable : ConsumesInside g.variableStatement := by
    unfold variableStatement
    infer_instance
  unfold bareStatement
  refine ⟨.peekThen (fun t ht => ?_) fun t => ?_⟩
  · rw [ht]
    exact .failHere _
  · split <;> exact ConsumesInside.reads

instance : Consumes g.statementBody := by
  unfold statementBody
  infer_instance

instance : Consumes g.blockItem := by
  unfold blockItem
  infer_instance

/-! ## The whole grammar -/

theorem progress_empty : empty.Progress where
  value := .bind_right fun _ => .fail _ _
  expression := .bind_right fun _ => .fail _ _
  binary _ := .bind_right fun _ => .fail _ _
  unary := .bind_right fun _ => .fail _ _
  block := .bind_right
  item := .bind_right
  type := .bind_right
  ascription := .bind
  casts := .bind

instance Progress.around : g.around.Progress where
  value := valueExpression_reads
  expression := conditional_reads
  binary := binaryExpression_reads
  unary := unaryExpression_reads
  block := inferInstanceAs (Consumes g.blockBody)
  item := inferInstanceAs (Consumes g.blockItem)
  type := inferInstanceAs (Consumes (unionType g.type))
  ascription := inferInstanceAs (Advances (ascribedType g.type))
  casts := inferInstanceAs (Advances (asTypes g.type))

theorem ofDepth_succ (n : Nat) : ofDepth (n + 1) = (ofDepth n).around := by
  unfold ofDepth
  rw [Nat.repeat]

/-- However deep the grammar is entered, every construct reads what its tree stands for. -/
instance progress_ofDepth (n : Nat) : (ofDepth n).Progress := by
  induction n with
  | zero => exact progress_empty
  | succ n ih =>
    rw [ofDepth_succ]
    infer_instance

end Grammar

end ScriptFront
