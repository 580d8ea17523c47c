import ScriptFront.Proofs.Progress.Expressions

/-!
# Statements are steady

A statement inside another one is read behind a keyword or a bracket of the outer one. With that the whole
grammar ends, however deep it is entered.
-/

set_option synthInstance.maxSize 4000

namespace ScriptFront

open Production Steady

namespace Production

variable {g : Grammar} [hg : g.Progress] {keep : Token → Bool}

/-! ## Enums -/

instance : Steady g keep .start enumInitializer := by
  unfold enumInitializer
  refine startThen inferInstance fun negative => startThen inferInstance fun t => ?_
  split <;> infer_instance

instance (isFirst : Bool) (counter : Int) : Steady g keep .start (enumMember isFirst counter) := by
  unfold enumMember
  dsimp only
  refine startThen inferInstance fun name => startThen inferInstance fun b => ?_
  refine @Steady.ite _ _ _ _ _ _ _ _ (startThen inferInstance fun initializer => ?_) inferInstance
  split
  · split <;> infer_instance
  · infer_instance

instance : Steady g keep .start enumMembers := by
  unfold enumMembers
  dsimp only
  infer_instance

instance (exported : Bool) : Steady g keep .start (enumDeclaration exported) := by
  unfold enumDeclaration
  infer_instance

end Production

namespace Grammar

variable {g : Grammar} [hg : g.Progress] {keep : Token → Bool}

/-! ## Declarations -/

instance (isConst : Bool) : Steady g keep .start (g.variableDeclaration isConst) := by
  unfold variableDeclaration
  dsimp only
  infer_instance

instance : Steady g keep .start g.variableStatement := by
  unfold variableStatement
  infer_instance

instance (position : Position) (name : String) (exported : Bool) :
    Steady g keep .start (g.namedFunction position name exported) := by
  unfold namedFunction
  dsimp only
  infer_instance

instance (exported : Bool) : Steady g keep .start (g.functionDeclaration exported) := by
  unfold functionDeclaration
  infer_instance

instance : Steady g keep .start g.prototypeMethod := by
  unfold prototypeMethod
  infer_instance

instance (exported : Bool) : Steady g keep .start (g.method exported) := by
  unfold method
  infer_instance

instance (exported : Bool) : Steady g keep .start (g.field exported) := by
  unfold field
  infer_instance

instance (exported : Bool) : Steady g keep .start (g.bareMember exported) := by
  unfold bareMember
  infer_instance

instance : Steady g keep .start g.classMember := by
  unfold classMember
  infer_instance

instance : Steady g keep .start g.classMembers := by
  unfold classMembers
  refine .loop (by decide) (fun members => startThen inferInstance fun t => ?_) (fun members => ⟨?_⟩) _
  · split <;> infer_instance
  · refine .peekThen (fun t ht => ?_) fun t => ?_
    · rw [ht]
      exact .fail _ _
    · split <;> exact ConsumesInside.inside Spends.turn_le

instance (exported : Bool) : Steady g keep .start (g.classDeclaration exported) := by
  unfold classDeclaration
  dsimp only
  infer_instance

instance (exported : Bool) : Steady g keep .start (g.functionOrClass exported) := by
  unfold functionOrClass
  infer_instance

/-! ## Statements -/

instance (left : Expr) (k : Kind) : Steady g keep .start (simpleStatement.asCall left k) := by
  unfold simpleStatement.asCall
  split
  · infer_instance
  · split <;> infer_instance

instance : Steady g keep .start g.simpleStatement := by
  unfold simpleStatement
  refine consumesThen inferInstance fun left => readThen inferInstance fun k => ?_
  split
  · infer_instance
  · split <;> infer_instance
  · infer_instance

instance : Steady g keep .start g.newStatement := by
  unfold newStatement
  refine startThen inferInstance fun t => startThen inferInstance fun e => ?_
  split <;> infer_instance

instance : Steady g keep .start deleteStatement := by
  unfold deleteStatement
  dsimp only
  infer_instance

instance (keyword : Token) : Steady g keep .start (jumpLabel keyword) := by
  unfold jumpLabel
  infer_instance

instance : Steady g keep .start g.returnStatement := by
  unfold returnStatement
  infer_instance

instance : Steady g keep .start g.condition := by
  unfold condition
  infer_instance

instance : Steady g keep .start g.branch := by
  unfold branch
  infer_instance

instance : Steady g keep .start g.ifStatement := by
  unfold ifStatement
  dsimp only
  infer_instance

instance : Steady g keep .start g.whileStatement := by
  unfold whileStatement
  infer_instance

instance : Steady g keep .start g.forVariables := by
  unfold forVariables
  infer_instance

instance : Steady g keep .read g.classicHeader := by
  unfold classicHeader
  dsimp only
  infer_instance

instance : Steady g keep .start g.iterationHeader := by
  unfold iterationHeader
  infer_instance

instance : Steady g keep .read g.forHeader := by
  unfold forHeader
  infer_instance

instance : Steady g keep .start g.forStatement := by
  unfold forStatement
  infer_instance

instance : Steady g keep .start g.blockBody := by
  unfold blockBody
  refine .nested (consumesThen inferInstance fun brace => ?_)
  refine readThen (.loop (by decide) (fun items => readThen inferInstance fun kind => ?_)
    (fun items => @Spends.bind _ _ _ _ _ _ fun kind => ?_) _) inferInstance
  · split
    case h_3 =>
      refine readThen inferInstance fun item => ?_
      split <;> infer_instance
    all_goals infer_instance
  · split
    case h_3 =>
      refine @Spends.of_consumes _ _ _ (@Consumes.bind_left _ _ _ _ _ fun item => ?_)
      split <;> infer_instance
    all_goals infer_instance

instance (position : Position) : Steady g keep .read (g.caseStatements position) := by
  unfold caseStatements
  refine .loop (by decide) (fun items => readThen inferInstance fun kind => ?_)
    (fun items => @Spends.bind _ _ _ _ _ _ fun kind => ?_) _
  · split
    case h_5 =>
      refine readThen inferInstance fun item => ?_
      split <;> infer_instance
    all_goals infer_instance
  · split
    case h_5 =>
      refine @Spends.of_consumes _ _ _ (@Consumes.bind_left _ _ _ _ _ fun item => ?_)
      split <;> infer_instance
    all_goals infer_instance

instance (before : List CaseBlock) : Steady g keep .read (g.caseBlock before) := by
  unfold caseBlock
  dsimp only
  refine readThen inferInstance fun t => ?_
  split
  · refine readThen inferInstance fun _ => readThen inferInstance fun label =>
      readThen inferInstance fun colon => ?_
    split <;> infer_instance
  · infer_instance
  · infer_instance

/-- There is a token at least to a case. -/
theorem caseBlock_pays (before : List CaseBlock) :
    Reads (fun b => b.isSome.toNat) (g.caseBlock before) := by
  have hsome : ∀ b : Option CaseBlock, b.isSome.toNat ≤ 1 := fun b => Bool.toNat_le _
  unfold caseBlock
  dsimp only
  refine .peekThen (fun t ht => ?_) fun t => ?_
  · rw [ht]
    exact .pure rfl
  · split
    · refine @ConsumesInside.inside _ _ (@ConsumesInside.bind_left _ _ _ _ _ fun _ => ?_) _ hsome
      refine @Advances.bind _ _ _ _ _ fun label => @Advances.bind _ _ _ _ _ fun colon => ?_
      split <;> infer_instance
    · exact ConsumesInside.inside hsome
    · exact Reads.inside (.pure rfl)

instance : Steady g keep .read g.caseBlocks := by
  unfold caseBlocks
  refine readThen (.loop (by decide) (fun blocks => readThen inferInstance fun block => ?_)
    (fun blocks => ⟨?_⟩) _) fun blocks => readThen inferInstance fun _ => ?_
  · split <;> infer_instance
  · refine (caseBlock_pays blocks).bind fun block => ?_
    cases block <;> exact .pure rfl
  · split <;> infer_instance

instance : Steady g keep .start g.switchStatement := by
  unfold switchStatement
  infer_instance

instance (keyword : Token) : Steady g keep .read (g.catchClause keyword) := by
  unfold catchClause
  dsimp only
  infer_instance

instance : Steady g keep .start g.tryStatement := by
  unfold tryStatement
  dsimp only
  refine consumesThen inferInstance fun keyword => readThen inferInstance fun body =>
    readThen inferInstance fun handler => ?_
  split <;> infer_instance

instance : Steady g keep .start g.labelStatement := by
  unfold labelStatement
  refine consumesThen inferInstance fun name => readThen inferInstance fun colon =>
    readThen inferInstance fun t => ?_
  split <;> infer_instance

instance : Steady g keep .start g.bareStatement := by
  unfold bareStatement
  refine peekThen (fun t ht => ?_) fun t => ?_
  · rw [ht]
    exact failHere_instance _
  · split <;> infer_instance

instance : Steady g keep .start g.statementBody := by
  unfold statementBody
  infer_instance

instance : Steady g keep .start g.blockItem := by
  unfold blockItem
  infer_instance

/-! ## The whole grammar -/

/-- Whether what the grammar puts around `g` is steady over `g`. -/
structure SteadyAround (keep : Token → Bool) (g : Grammar) : Prop where
  value : Steady g keep .start g.around.value
  expression : Steady g keep .start g.around.expression
  binary : ∀ least, Steady g keep .start (g.around.binary least)
  unary : Steady g keep .start g.around.unary
  block : Steady g keep .start g.around.block
  item : Steady g keep .start g.around.item
  type : Steady g keep .start g.around.type
  ascription : Steady g keep .start g.around.ascription
  casts : Steady g keep .start g.around.casts

theorem steady_around : SteadyAround keep g where
  value := inferInstanceAs (Steady g keep .start g.valueExpression)
  expression := inferInstanceAs (Steady g keep .start g.conditional)
  binary least := inferInstanceAs (Steady g keep .start (g.binaryExpression least))
  unary := inferInstanceAs (Steady g keep .start g.unaryExpression)
  block := inferInstanceAs (Steady g keep .start g.blockBody)
  item := inferInstanceAs (Steady g keep .start g.blockItem)
  type := inferInstanceAs (Steady g keep .start (unionType g.type))
  ascription := inferInstanceAs (Steady g keep .start (ascribedType g.type))
  casts := inferInstanceAs (Steady g keep .start (asTypes g.type))

/-- The bottom of the grammar is out of reach of fewer than no tokens, and each level around it adds one:
whoever goes back to the grammar has read a token. -/
theorem ends_ofDepth (n : Nat) : EndsWithin (ofDepth n) n := by
  induction n with
  | zero =>
    have hnone : ∀ {α : Type} {p : Production α}, Ends 0 .read p :=
      ⟨fun _ hs => absurd hs (Nat.not_lt_zero _)⟩
    exact ⟨hnone, hnone, fun _ => hnone, hnone, hnone, hnone, hnone, hnone, hnone⟩
  | succ n ih =>
    have hlevel : ∀ {α : Type} {p : Production α}, Steady (ofDepth n) (fun _ => false) .start p →
        Ends (n + 1) .read p := fun h =>
      ⟨fun hc hs => (h.ends ih).cause hc (Nat.le_of_lt_succ hs)⟩
    have h : SteadyAround (fun _ => false) (ofDepth n) := steady_around
    rw [ofDepth_succ]
    exact ⟨hlevel h.value, hlevel h.expression, fun least => hlevel (h.binary least), hlevel h.unary,
      hlevel h.block, hlevel h.item, hlevel h.type, hlevel h.ascription, hlevel h.casts⟩

end Grammar

end ScriptFront
