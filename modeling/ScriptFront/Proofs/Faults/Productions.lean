import ScriptFront.Production.SourceFile
import ScriptFront.Proofs.Faults.Kinds
import ScriptFront.Proofs.Production.StatementsRead
import ScriptFront.Proofs.Token.Extents

/-!
# Every production blames the text

All that the grammar is made of fails for what is in the text of a file only, so a file that does not
parse is to blame for it itself (`File.isOfText_of_ofSource`).
-/

set_option synthInstance.maxSize 4000

namespace ScriptFront

open Production Blames

namespace Production

/-! ## Types -/

instance : Blames qualifiedName := by
  unfold qualifiedName
  infer_instance

instance : Blames genericArguments := by
  unfold genericArguments
  refine andThen inferInstance fun l => ?_
  split <;> infer_instance

section

variable {type : Production Unit} [Blames type]

instance : Blames (ascribedType type) := by
  unfold ascribedType
  infer_instance

instance : Blames (asTypes type) := by
  unfold asTypes
  infer_instance

instance : Blames (typeParameters type) := by
  unfold typeParameters
  dsimp only
  infer_instance

instance : Blames (typeArguments type) := by
  unfold typeArguments
  infer_instance

instance : Blames (typeAssertion type) := by
  unfold typeAssertion
  infer_instance

instance : Blames (typeParameterList type) := by
  unfold typeParameterList
  infer_instance

instance : Blames (functionType type) := by
  unfold functionType
  infer_instance

instance : Blames (tupleType type) := by
  unfold tupleType
  infer_instance

instance : Blames (signature type) := by
  unfold signature
  infer_instance

instance : Blames (bracketMember type) := by
  unfold bracketMember
  dsimp only
  infer_instance

instance : Blames (namedMember type) := by
  unfold namedMember
  infer_instance

instance : Blames (bareTypeMember type) := by
  unfold bareTypeMember
  refine andThen inferInstance fun kind => ?_
  split <;> infer_instance

instance : Blames (typeMember type) := by
  unfold typeMember
  infer_instance

instance : Blames (namedType type) := by
  unfold namedType
  infer_instance

instance : Blames (objectType type) := by
  unfold objectType
  refine andThen inferInstance fun brace => @Blames.rounds _ (andThen inferInstance fun kind => ?_)
  split <;> infer_instance

instance : Blames (primaryType type) := by
  unfold primaryType
  refine andThen inferInstance fun kind => ?_
  split <;> infer_instance

instance : Blames (arrayType type) := by
  unfold arrayType
  dsimp only
  infer_instance

instance : Blames (unionType type) := by
  unfold unionType
  dsimp only
  infer_instance

instance : Blames (heritage type) := by
  unfold heritage
  infer_instance

instance : Blames (interfaceDeclaration type) := by
  unfold interfaceDeclaration
  dsimp only
  infer_instance

instance : Blames (typeAlias type) := by
  unfold typeAlias
  infer_instance

instance : Blames (functionSignature type) := by
  unfold functionSignature
  infer_instance

end

/-! ## Enums -/

instance : Blames enumInitializer := by
  unfold enumInitializer
  refine andThen inferInstance fun negative => andThen inferInstance fun t => ?_
  split <;> infer_instance

instance (isFirst : Bool) (counter : Int) : Blames (enumMember isFirst counter) := by
  unfold enumMember
  dsimp only
  refine andThen inferInstance fun name => andThen inferInstance fun b => ?_
  refine @Blames.ite _ _ _ _ _ (andThen inferInstance fun initializer => ?_) inferInstance
  split
  · split <;> infer_instance
  · infer_instance

instance : Blames enumMembers := by
  unfold enumMembers
  dsimp only
  infer_instance

instance (exported : Bool) : Blames (enumDeclaration exported) := by
  unfold enumDeclaration
  infer_instance

end Production

namespace Grammar

/-- Whether every construct of a grammar blames the text. -/
class AllBlame (g : Grammar) : Prop where
  value : Blames g.value
  expression : Blames g.expression
  binary : ∀ least, Blames (g.binary least)
  unary : Blames g.unary
  block : Blames g.block
  item : Blames g.item
  type : Blames g.type
  ascription : Blames g.ascription
  casts : Blames g.casts

attribute [instance] AllBlame.value AllBlame.expression AllBlame.binary AllBlame.unary AllBlame.block
  AllBlame.item AllBlame.type AllBlame.ascription AllBlame.casts

variable {g : Grammar} [g.AllBlame]

/-! ## Expressions -/

instance (target : Expr) (optional : Bool) : Blames (selector target optional) := by
  unfold selector
  infer_instance

instance : Blames g.parameters := by
  unfold parameters
  dsimp only
  infer_instance

instance : Blames g.arguments := by
  unfold arguments
  refine andThen (@Blames.loop _ _ _ (fun items => ?_) _) inferInstance
  refine andThen inferInstance fun closed => @Blames.ite _ _ _ _ _ inferInstance ?_
  refine andThen inferInstance fun dots => ?_
  split <;> infer_instance

instance (target : Expr) (optional : Bool) : Blames (g.index target optional) := by
  unfold index
  infer_instance

instance (callee : Expr) (optional : Bool) : Blames (g.call callee optional) := by
  unfold call
  infer_instance

instance (e : Expr) : Blames (g.link e) := by
  unfold link
  refine andThen inferInstance fun kind => ?_
  split
  · infer_instance
  · refine andThen inferInstance fun _ => andThen inferInstance fun kind => ?_
    split <;> infer_instance
  all_goals infer_instance

instance (e : Expr) : Blames (g.chain e) := by
  unfold chain
  refine @Blames.loop _ _ _ (fun s => andThen inferInstance fun e' => ?_) _
  split <;> infer_instance

instance : Blames g.newInstance := by
  unfold newInstance
  dsimp only
  infer_instance

instance : Blames g.arrayLiteral := by
  unfold arrayLiteral
  infer_instance

instance : Blames g.mapEntry := by
  unfold mapEntry
  dsimp only
  infer_instance

instance : Blames g.mapLiteral := by
  unfold mapLiteral
  infer_instance

instance : Blames g.functionRest := by
  unfold functionRest
  infer_instance

instance : Blames g.functionLiteral := by
  unfold functionLiteral
  infer_instance

instance : Blames g.primary := by
  unfold primary
  refine andThen inferInstance fun t => ?_
  split
  · infer_instance
  · split
    · refine andThen inferInstance fun _ => ?_
      split <;> infer_instance
    all_goals infer_instance

instance : Blames g.postfixExpression := by
  unfold postfixExpression
  infer_instance

instance : Blames g.operand := by
  unfold operand
  infer_instance

instance : Blames g.unaryExpression := by
  unfold unaryExpression
  refine andThen inferInstance fun kind => ?_
  split
  · infer_instance
  · split <;> infer_instance
  · infer_instance

instance (least : Level) (left : Expr) : Blames (g.operation least left) := by
  unfold operation
  refine andThen inferInstance fun seen => ?_
  split <;> infer_instance

instance (least : Level) : Blames (g.binaryExpression least) := by
  unfold binaryExpression
  infer_instance

instance (condition : Expr) : Blames (g.ternary condition) := by
  unfold ternary
  infer_instance

instance : Blames g.conditional := by
  unfold conditional
  infer_instance

instance : Blames g.arrowFunction := by
  unfold arrowFunction
  dsimp only
  infer_instance

instance : Blames g.valueExpression := by
  unfold valueExpression
  infer_instance

/-! ## Declarations -/

instance (isConst : Bool) : Blames (g.variableDeclaration isConst) := by
  unfold variableDeclaration
  dsimp only
  infer_instance

instance : Blames g.variableStatement := by
  unfold variableStatement
  infer_instance

instance (position : Position) (name : String) (exported : Bool) : Blames (g.namedFunction position name exported) := by
  unfold namedFunction
  dsimp only
  infer_instance

instance (exported : Bool) : Blames (g.functionDeclaration exported) := by
  unfold functionDeclaration
  infer_instance

instance : Blames g.prototypeMethod := by
  unfold prototypeMethod
  infer_instance

instance (exported : Bool) : Blames (g.method exported) := by
  unfold method
  infer_instance

instance (exported : Bool) : Blames (g.field exported) := by
  unfold field
  infer_instance

instance (exported : Bool) : Blames (g.bareMember exported) := by
  unfold bareMember
  infer_instance

instance : Blames g.classMember := by
  unfold classMember
  infer_instance

instance : Blames g.classMembers := by
  unfold classMembers
  refine @Blames.loop _ _ _ (fun members => andThen inferInstance fun t => ?_) _
  split <;> infer_instance

instance (exported : Bool) : Blames (g.classDeclaration exported) := by
  unfold classDeclaration
  dsimp only
  infer_instance

instance (exported : Bool) : Blames (g.functionOrClass exported) := by
  unfold functionOrClass
  infer_instance

/-! ## Statements -/

instance : Blames deleteStatement := by
  unfold deleteStatement
  dsimp only
  infer_instance

instance (keyword : Token) : Blames (jumpLabel keyword) := by
  unfold jumpLabel
  infer_instance

instance (left : Expr) (k : Kind) : Blames (simpleStatement.asCall left k) := by
  unfold simpleStatement.asCall
  split
  · infer_instance
  · split <;> infer_instance

instance : Blames g.simpleStatement := by
  unfold simpleStatement
  refine andThen inferInstance fun left => andThen inferInstance fun k => ?_
  split
  · infer_instance
  · split <;> infer_instance
  · infer_instance

instance : Blames g.newStatement := by
  unfold newStatement
  refine andThen inferInstance fun t => andThen inferInstance fun e => ?_
  split <;> infer_instance

instance : Blames g.returnStatement := by
  unfold returnStatement
  infer_instance

instance : Blames g.condition := by
  unfold condition
  infer_instance

instance : Blames g.branch := by
  unfold branch
  infer_instance

instance : Blames g.ifStatement := by
  unfold ifStatement
  dsimp only
  infer_instance

instance : Blames g.whileStatement := by
  unfold whileStatement
  infer_instance

instance : Blames g.forVariables := by
  unfold forVariables
  infer_instance

instance : Blames g.classicHeader := by
  unfold classicHeader
  dsimp only
  infer_instance

instance : Blames g.iterationHeader := by
  unfold iterationHeader
  infer_instance

instance : Blames g.forHeader := by
  unfold forHeader
  infer_instance

instance : Blames g.forStatement := by
  unfold forStatement
  infer_instance

instance : Blames g.blockBody := by
  unfold blockBody
  refine @Blames.nested _ _ (andThen inferInstance fun brace => andThen
    (@Blames.loop _ _ _ (fun items => andThen inferInstance fun kind => ?_) _) inferInstance)
  split
  case h_3 =>
    refine andThen inferInstance fun item => ?_
    split <;> infer_instance
  all_goals infer_instance

instance (position : Position) : Blames (g.caseStatements position) := by
  unfold caseStatements
  refine @Blames.loop _ _ _ (fun items => andThen inferInstance fun kind => ?_) _
  split
  case h_5 =>
    refine andThen inferInstance fun item => ?_
    split <;> infer_instance
  all_goals infer_instance

instance (before : List CaseBlock) : Blames (g.caseBlock before) := by
  unfold caseBlock
  dsimp only
  refine andThen inferInstance fun t => ?_
  split
  · refine andThen inferInstance fun _ => andThen inferInstance fun label =>
      andThen inferInstance fun colon => ?_
    split <;> infer_instance
  all_goals infer_instance

instance : Blames g.caseBlocks := by
  unfold caseBlocks
  refine andThen (@Blames.loop _ _ _ (fun blocks => andThen inferInstance fun block => ?_) _)
    fun blocks => andThen inferInstance fun _ => ?_
  all_goals split <;> infer_instance

instance : Blames g.switchStatement := by
  unfold switchStatement
  infer_instance

instance (keyword : Token) : Blames (g.catchClause keyword) := by
  unfold catchClause
  dsimp only
  infer_instance

instance : Blames g.tryStatement := by
  unfold tryStatement
  dsimp only
  refine andThen inferInstance fun keyword => andThen inferInstance fun body =>
    andThen inferInstance fun handler => ?_
  split <;> infer_instance

instance : Blames g.labelStatement := by
  unfold labelStatement
  refine andThen inferInstance fun name => andThen inferInstance fun colon =>
    andThen inferInstance fun t => ?_
  split <;> infer_instance

instance : Blames g.bareStatement := by
  unfold bareStatement
  refine andThen inferInstance fun t => ?_
  split <;> infer_instance

instance : Blames g.statementBody := by
  unfold statementBody
  infer_instance

instance : Blames g.blockItem := by
  unfold blockItem
  infer_instance

/-! ## Files -/

instance : Blames importDeclaration := by
  unfold importDeclaration
  refine andThen inferInstance fun keyword => andThen inferInstance fun kind => ?_
  split <;> infer_instance

instance (d : Draft) (p : Position) : Blames (settled d p) := by
  unfold settled
  refine ⟨fun {_ _ _} herror => ?_⟩
  split at herror
  · cases herror
  · next hsettle =>
    cases herror
    unfold AttributeRun.settle at hsettle
    split at hsettle
    · split at hsettle
      · cases hsettle
        rfl
      · cases hsettle
    · cases hsettle

instance (d : Draft) (p : Position) (declaration : Production (Option Stmt)) [Blames declaration] : Blames (attributed d p declaration) := by
  unfold attributed
  refine andThen inferInstance fun item => ?_
  split <;> infer_instance

instance : Blames g.exportDeclaration := by
  unfold exportDeclaration
  refine andThen inferInstance fun _ => andThen inferInstance fun t => ?_
  split <;> infer_instance

instance : Blames g.globalDeclaration := by
  unfold globalDeclaration
  refine andThen inferInstance fun kind => ?_
  split <;> infer_instance

instance : Blames g.globalBlock := by
  have hbody : Blames (loop (fun (decls : List Stmt) => do
      if ← isAt (.mark .closeBrace) then
        discard next
        return .done decls.reverse
      match ← g.globalDeclaration with
      | some s => return .again (s :: decls)
      | none => return .again decls) []) := by
    refine @Blames.loop _ _ _ (fun decls => andThen inferInstance fun closed =>
      @Blames.ite _ _ _ _ _ inferInstance (andThen inferInstance fun item => ?_)) _
    split <;> infer_instance
  unfold globalBlock
  dsimp only
  infer_instance

instance (d : Draft) (p : Position) : Blames (construct.other g d p) := by
  unfold construct.other
  infer_instance

instance (d : Draft) (t : Token) : Blames (g.construct d t) := by
  unfold construct
  split
  case h_4 =>
    refine andThen inferInstance fun isAttributed => @Blames.ite _ _ _ _ _ inferInstance
      (andThen inferInstance fun d => andThen inferInstance fun item => ?_)
    split <;> infer_instance
  all_goals infer_instance

instance : Blames g.constructs := by
  unfold constructs
  unfold constructsOf
  infer_instance

instance : Blames g.wholeExpression := by
  unfold wholeExpression
  dsimp only
  infer_instance

/-! ## The whole grammar -/

instance : g.around.AllBlame where
  value := inferInstanceAs (Blames g.valueExpression)
  expression := inferInstanceAs (Blames g.conditional)
  binary least := inferInstanceAs (Blames (g.binaryExpression least))
  unary := inferInstanceAs (Blames g.unaryExpression)
  block := inferInstanceAs (Blames g.blockBody)
  item := inferInstanceAs (Blames g.blockItem)
  type := inferInstanceAs (Blames (unionType g.type))
  ascription := inferInstanceAs (Blames (ascribedType g.type))
  casts := inferInstanceAs (Blames (asTypes g.type))

instance allBlame_ofDepth (n : Nat) : (ofDepth n).AllBlame := by
  induction n with
  | zero =>
    have hstop : ∀ {α : Type}, Blames (peek >>= fun t => fail .stalled t.position : Production α) :=
      inferInstance
    exact ⟨hstop, hstop, fun _ => hstop, hstop, hstop, hstop, hstop, hstop, hstop⟩
  | succ n ih =>
    rw [ofDepth_succ]
    infer_instance

end Grammar

/-! ## Whole inputs -/

theorem Production.isOfText_of_runOn {α : Type} {p : Grammar → Production α}
    (h : ∀ n, Blames (p (.ofDepth n))) {options : Options} {tokens : List Token} {e : Error}
    (herror : runOn p options tokens = .error e) : e.cause.isOfText = true := by
  unfold runOn at herror
  dsimp only at herror
  generalize (Cursor.ofTokens tokens).remaining + 1 = n at herror
  cases hrun : p (.ofDepth n) ⟨options.optimize, 0⟩ (Cursor.ofTokens tokens) with
  | ok r =>
    rw [hrun] at herror
    cases herror
  | error e' =>
    rw [hrun] at herror
    cases herror
    exact (h n).ofText hrun

/-- A file that does not parse is to blame for it itself. -/
theorem File.isOfText_of_ofSource {source path : String} {options : Options} {e : Error}
    (h : ofSource source path options = .error e) : e.cause.isOfText = true := by
  unfold ofSource at h
  cases htokens : Source.tokenize (Source.prepare source) with
  | error e' =>
    rw [htokens] at h
    cases h
    have hkind : e.cause.kind = .lexical := Source.tokensFrom_error (Nat.lt_succ_self _) htokens
    rw [Cause.isOfText_iff, hkind]
    exact ⟨nofun, nofun, nofun⟩
  | ok tokens =>
    rw [htokens] at h
    change ofTokens tokens path options = .error e at h
    unfold ofTokens at h
    cases hdraft : runOn Grammar.constructs options tokens with
    | error e' =>
      rw [hdraft] at h
      cases h
      exact isOfText_of_runOn (fun n => inferInstance) hdraft
    | ok d =>
      rw [hdraft] at h
      cases h

end ScriptFront
