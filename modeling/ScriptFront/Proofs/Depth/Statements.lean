import ScriptFront.Proofs.Brackets.Statements
import ScriptFront.Proofs.Depth.Expressions
import ScriptFront.Proofs.Production.StatementsRead

/-!
# How many brackets declarations and statements hold open

A block is nested. A statement rises by three at most: by the parentheses of a condition and what an
expression rises by. The cases of a switch are no block; they do not count, because the brace in front
of them stands behind the subject of the switch.
-/

set_option synthInstance.maxSize 4000

namespace ScriptFront.Grammar.Limited

open Production

variable {g : Grammar} [hb : g.Brackets] [hr : g.Progress] [hg : g.Limited] {k : Nat}

/-! ## Variables and functions -/

instance variableDeclaration (isConst : Bool) : Rises k (g.variableDeclaration isConst) := by
  unfold Grammar.variableDeclaration
  infer_instance

instance variableStatement : Rises (k + 1) g.variableStatement := by
  unfold Grammar.variableStatement
  infer_instance

instance variableStatement_lifts : Lifts g.variableStatement := by
  unfold Grammar.variableStatement
  exact ⟨Lifts.next.leaves.bind fun _ => .settles⟩

instance namedFunction (position : Position) (name : String) (exported : Bool) :
    Rises (k + 1) (g.namedFunction position name exported) := by
  unfold Grammar.namedFunction
  infer_instance

instance functionDeclaration (exported : Bool) : Rises (k + 1) (g.functionDeclaration exported) := by
  unfold Grammar.functionDeclaration
  infer_instance

instance prototypeMethod : Rises (k + 1) g.prototypeMethod := by
  unfold Grammar.prototypeMethod
  infer_instance

/-! ## Classes -/

instance method (exported : Bool) : Rises (k + 1) (g.method exported) := by
  unfold Grammar.method
  infer_instance

instance field (exported : Bool) : Rises k (g.field exported) := by
  unfold Grammar.field
  infer_instance

instance bareMember (exported : Bool) : Rises (k + 2) (g.bareMember exported) := by
  unfold Grammar.bareMember
  infer_instance

instance classMember : Rises (k + 3) g.classMember := by
  unfold Grammar.classMember
  infer_instance

/-- The brace of a class is closed by its last round. -/
instance classMembers : Rises (k + 3) g.classMembers := by
  unfold Grammar.classMembers
  refine @Rises.loop _ _ _ _ (fun members => ⟨.peek fun t => ?_⟩)
    (fun members => @Rises.bind _ _ _ _ _ _ _ fun t => ?_) []
  · have hdrop : ∀ {kind : Kind} {turn : Turn (List ClassMember) (List ClassMember)},
        t.kind = kind → kind.opens? = none →
        Leaves (fun c s => Everywhere c s ∧ c.peek = t) 0 (do
          discard next
          return turn) := by
      intro kind turn ht hkind
      refine (Leaves.drop fun c s hc => ?_).bind fun _ => .looks
      rw [Cursor.peekKind, hc.2, ht]
      exact hkind
    split
    · next hbrace => exact hdrop hbrace rfl
    · exact .fail _ _
    · next hsemicolon => exact hdrop hsemicolon rfl
    · exact .settles
    · exact .settles
    · exact .failHere _
  · split <;> infer_instance

instance classDeclaration (exported : Bool) : Rises (k + 4) (g.classDeclaration exported) := by
  unfold Grammar.classDeclaration
  dsimp only
  refine ⟨.behind fun _ => .behind fun _ => .behind fun _ =>
    .asks (h := fun c => c.peek.isWord "implements") fun isHeir => .ite (fun h => ?_) fun _ => .rises⟩
  exact heritageThen (fun c s hc => Cursor.openBehind_of_isWord (hc.2.trans h) []) fun _ => .rises

instance functionOrClass (exported : Bool) : Rises (k + 4) (g.functionOrClass exported) := by
  unfold Grammar.functionOrClass
  infer_instance

/-! ## Enums -/

omit hb hr hg in
instance enumInitializer : Rises (k + 1) enumInitializer := by
  unfold Production.enumInitializer
  refine @Rises.bind _ _ _ _ _ _ _ fun negative => @Rises.bind _ _ _ _ _ _ _ fun t => ?_
  split <;> infer_instance

omit hb hr hg in
instance enumMember (isFirst : Bool) (counter : Int) : Rises (k + 1) (enumMember isFirst counter) := by
  unfold Production.enumMember
  refine @Rises.bind _ _ _ _ _ _ _ fun name => @Rises.bind _ _ _ _ _ _ _ fun given =>
    @Rises.ite _ _ _ _ _ _ (@Rises.bind _ _ _ _ _ _ _ fun value => ?_) inferInstance
  dsimp only
  refine @Rises.ite _ _ _ _ _ _ ?_ inferInstance
  split <;> infer_instance

omit hb hr hg in
instance enumDeclaration (exported : Bool) : Rises (k + 2) (enumDeclaration exported) := by
  have hmembers : Rises (k + 1) enumMembers := by
    unfold enumMembers
    infer_instance
  unfold Production.enumDeclaration
  infer_instance

/-! ## Expressions as statements -/

omit hb hr hg in
instance asCall (left : Expr) (kind : Kind) : Rises k (simpleStatement.asCall left kind) := by
  unfold simpleStatement.asCall
  split
  · infer_instance
  · split <;> infer_instance

instance simpleStatement : Rises (k + 2) g.simpleStatement := by
  unfold Grammar.simpleStatement
  refine @Rises.bind _ _ _ _ _ _ _ fun left => @Rises.bind _ _ _ _ _ _ _ fun kind => ?_
  split
  · infer_instance
  · split <;> infer_instance
  · infer_instance

instance newStatement : Rises (k + 2) g.newStatement := by
  unfold Grammar.newStatement
  refine @Rises.bind _ _ _ _ _ _ _ fun t => @Rises.bind _ _ _ _ _ _ _ fun e => ?_
  split <;> infer_instance

instance deleteStatement : Rises k deleteStatement := by
  unfold Grammar.deleteStatement
  dsimp only
  infer_instance

/-! ## Jumps -/

instance jumpLabel (keyword : Token) : Rises (k + 1) (jumpLabel keyword) := by
  unfold Grammar.jumpLabel
  infer_instance

instance returnStatement : Rises k g.returnStatement := by
  unfold Grammar.returnStatement
  dsimp only
  infer_instance

/-! ## Conditions and loops -/

instance condition : Rises (k + 3) g.condition := by
  unfold Grammar.condition
  infer_instance

instance branch : Rises (k + 3) g.branch := by
  unfold Grammar.branch
  infer_instance

instance ifStatement : Rises (k + 3) g.ifStatement := by
  unfold Grammar.ifStatement
  dsimp only
  infer_instance

instance whileStatement : Rises (k + 3) g.whileStatement := by
  unfold Grammar.whileStatement
  infer_instance

instance forVariables : Rises (k + 1) g.forVariables := by
  unfold Grammar.forVariables
  infer_instance

instance classicHeader : Rises (k + 2) g.classicHeader := by
  unfold Grammar.classicHeader
  refine ⟨.peekKind fun kind => ?_⟩
  dsimp only
  refine .ite (fun h => ?_) fun _ => .rises
  have htakes : Takes (fun c => c.peekKind = kind) [] g.forVariables fun _ => [] := by
    refine Brackets.forVariables fun c hc => ?_
    rw [hc]
    exact Brackets.openBehind_of_declaresVariable h []
  exact .bind .rises ((htakes.leaves fun _ => Nat.le_refl 0).under fun _ _ hc => hc.2)
    (fun _ => .rises) (Nat.le_of_eq (Nat.zero_add _))

omit hb hr in
/-- The keyword and the word between the name and what is run through have been seen. -/
theorem iterationHeader :
    Climbs (fun c _ => c.startsIteration = true) (k + 2) g.iterationHeader := by
  unfold Grammar.iterationHeader
  have hkeyword : ∀ (c : Cursor) (s : Place), c.startsIteration = true → c.peekKind.opens? = none :=
    fun c _ h => Kind.opens_of_openBehind (Brackets.openBehind_of_startsIteration h [])
  refine .bindAt (R := fun _ d _ => ∃ c : Cursor, c.startsIteration = true ∧ c.next = d)
    (.drop hkeyword) (.drop hkeyword) (.of_run fun {_ c _ _ _} hc hok => ?_) (fun _ => ?_)
    (Nat.le_of_eq (Nat.zero_add _))
  · cases hok
    exact ⟨c, hc, rfl⟩
  · refine .bindAt (R := fun _ d _ => d.peekKind.opens? = none) .rises .settles
      (.of_run fun hR hok => ?_) (fun name => ?_) (Nat.le_of_eq (Nat.zero_add _))
    · obtain ⟨c, hc, rfl⟩ := hR
      exact Kind.opens_of_openBehind (Brackets.openBehind_of_iterates hc hok [])
    · have hword : ∀ (c : Cursor) (s : Place), c.peekKind.opens? = none →
          (s.read c.peekKind).held ≤ s.held := fun _ s h => s.held_read_of_not_opens h
      exact .bind (.next fun c s h => Nat.le_add_right_of_le (hword c s h)) (.next hword)
        (fun _ => .rises) (Nat.le_of_eq (Nat.zero_add _))

instance forHeader : Rises (k + 2) g.forHeader := by
  unfold Grammar.forHeader
  exact ⟨.asks fun iterates => .ite
    (fun h => iterationHeader.under fun c s hc => hc.2.trans h) fun _ => .rises⟩

instance forStatement : Rises (k + 3) g.forStatement := by
  unfold Grammar.forStatement
  infer_instance

/-! ## Blocks and switches -/

instance itemTurn (items : List Stmt) : Rises (k + 3) (do
    match ← g.item with
    | some s => return Turn.again (β := List Stmt) (s :: items)
    | none => return .again items) := by
  refine @Rises.bind _ _ _ _ _ _ _ fun s => ?_
  cases s <;> infer_instance

instance blockBody : Rises k g.blockBody := by
  unfold Grammar.blockBody
  refine @Rises.nested _ _ _ (@Rises.bind_lifts _ _ 3 _ _ _ _ fun brace => ?_)
  refine .loopThen (fun items => ?_) (fun items => ?_) (fun items => ?_) []
  · refine @Nests.bind _ _ _ _ _ fun kind => ?_
    split
    · infer_instance
    · infer_instance
    · exact Brackets.itemTurn items
  · refine @Rises.bind _ _ _ _ _ _ _ fun kind => ?_
    split
    · infer_instance
    · infer_instance
    · exact itemTurn items
  · infer_instance

instance blockBody_ends : EndsOperand g.blockBody := by
  unfold Grammar.blockBody
  refine @EndsOperand.nested _ _ (@EndsOperand.bind_right _ _ _ _ _ fun brace =>
    @EndsOperand.bind_right _ _ _ _ (@Advances.loop _ _ _ (fun items => ?_) _) _)
  refine @Advances.bind _ _ _ _ _ fun kind => ?_
  split
  · infer_instance
  · infer_instance
  · refine @Advances.bind _ _ _ _ _ fun s => ?_
    cases s <;> infer_instance

instance caseStatements (position : Position) : Rises (k + 3) (g.caseStatements position) := by
  unfold Grammar.caseStatements
  refine @Rises.loop _ _ _ _ (fun items => ?_) (fun items => ?_) _
  · refine @Settles.nests _ _ (@Nests.bind _ _ _ _ _ fun kind => ?_)
    split <;> infer_instance
  · refine @Rises.bind _ _ _ _ _ _ _ fun kind => ?_
    split <;> infer_instance

instance caseBlock (blocks : List CaseBlock) : Rises (k + 3) (g.caseBlock blocks) := by
  unfold Grammar.caseBlock
  refine ⟨.peek fun t => ?_⟩
  split
  · next hcase =>
    refine .skipToken hcase rfl fun _ => .behind fun label => .behind fun _ => ?_
    dsimp only
    split <;> exact .rises
  · next hdefault =>
    refine .skipToken hdefault rfl fun _ => ?_
    dsimp only
    exact .rises
  · exact .rises

/-- The brace in front of the cases has been read. -/
instance caseBlocks : Rises (k + 3) g.caseBlocks := by
  unfold Grammar.caseBlocks
  refine .loopThen (fun blocks => ?_) (fun blocks => ?_) (fun blocks => ?_) []
  · refine @Nests.bind _ _ _ _ _ fun b => ?_
    cases b <;> infer_instance
  · refine @Rises.bind _ _ _ _ _ _ _ fun b => ?_
    cases b <;> infer_instance
  · refine @Rises.bind _ _ _ _ _ _ _ fun _ => ?_
    split <;> infer_instance

/-- Behind the subject of a switch. -/
def BehindSubject : Cursor → Place → Prop := fun _ s => s.subject = true

omit hr hg in
theorem condition_ends :
    Lands (fun _ s => s.behind = .keyword .switchWord) g.condition fun _ => BehindSubject := by
  unfold Grammar.condition
  have hopen : Lands (fun _ s => s.behind = .keyword .switchWord) (accept (.mark .openParen))
      fun _ _ s => s.roles.head? = some .subject := by
    refine .accept Kind.noConfusion fun _ s hs => ?_
    rw [Place.roles_read_of_opens (b := .round) rfl, List.head?_cons, Place.role, if_pos hs]
  have hclose : Lands (fun _ s => s.roles.head? = some .subject) (accept (.mark .closeParen))
      fun _ => BehindSubject :=
    .accept Kind.noConfusion fun _ s hs => by simp [BehindSubject, Place.read, hs]
  exact hopen.discard.bind fun _ => (Lands.nests (Q := fun roles => roles.head? = some .subject)).bind
    fun _ => hclose.discard.bind_looks

instance switchStatement : Rises (k + 3) g.switchStatement := by
  unfold Grammar.switchStatement
  have hbrace : ∀ (c : Cursor) (s : Place), BehindSubject c s →
      (s.read (.mark .openBrace)).held ≤ s.held := fun _ _ h => Nat.le_of_eq (Place.held_read_cases h)
  refine ⟨.bindAt .rises .settles (.accept (Q := fun _ s => s.behind = .keyword .switchWord) Kind.noConfusion fun _ _ _ => rfl)
    (fun keyword => .bindAt .rises .settles condition_ends (fun subject => ?_) (Nat.le_of_eq (Nat.zero_add _))) (Nat.le_of_eq (Nat.zero_add _))⟩
  exact .bind (Climbs.accept fun c s h => Nat.le_add_right_of_le (hbrace c s h)).discard
    (Leaves.accept hbrace).discard (fun _ => .rises) (Nat.le_of_eq (Nat.zero_add _))

/-! ## Other statements -/

instance catchClause (keyword : Token) : Rises (k + 1) (g.catchClause keyword) := by
  unfold Grammar.catchClause
  dsimp only
  infer_instance

instance tryStatement : Rises (k + 1) g.tryStatement := by
  unfold Grammar.tryStatement
  dsimp only
  refine @Rises.bind _ _ _ _ _ _ _ fun keyword => @Rises.bind _ _ _ _ _ _ _ fun body =>
    @Rises.bind _ _ _ _ _ _ _ fun caught => ?_
  cases caught <;> infer_instance

instance labelStatement : Rises (k + 3) g.labelStatement := by
  unfold Grammar.labelStatement
  dsimp only
  refine @Rises.bind _ _ _ _ _ _ _ fun name => @Rises.bind _ _ _ _ _ _ _ fun _ =>
    @Rises.bind _ _ _ _ _ _ _ fun t => ?_
  split <;> infer_instance

instance bareStatement : Rises (k + 3) g.bareStatement := by
  unfold Grammar.bareStatement
  refine @Rises.bind _ _ _ _ _ _ _ fun t => ?_
  split <;> infer_instance

instance statementBody : Rises (k + 3) g.statementBody := by
  unfold Grammar.statementBody
  infer_instance

instance blockItem : Rises (k + 3) g.blockItem := by
  unfold Grammar.blockItem
  infer_instance

end ScriptFront.Grammar.Limited

namespace ScriptFront.Grammar

open Production

/-! ## The whole grammar -/

theorem Limited.around (g : Grammar) [g.Brackets] [g.Progress] [g.Limited] : g.around.Limited where
  value := fun _ => Limited.valueExpression
  expression := fun _ => Limited.conditional
  binary := fun least _ => Limited.binaryExpression least
  unary := fun _ => Limited.unaryExpression
  block := fun _ => Limited.blockBody
  blockEnds := Limited.blockBody_ends
  item := fun _ => Limited.blockItem
  type := fun _ => unionType_rises
  ascription := fun _ => ascribedType_rises
  casts := fun _ => asTypes_rises

theorem Limited.empty : Grammar.empty.Limited where
  value := fun _ => .bind
  expression := fun _ => .bind
  binary := fun _ _ => .bind
  unary := fun _ => .bind
  block := fun _ => .bind
  blockEnds := ⟨⟨fun _ _ hok => nomatch hok⟩⟩
  item := fun _ => .bind
  type := fun _ => .bind
  ascription := fun _ => .bind
  casts := fun _ => .bind

/-- However deep the grammar is entered, no construct has too many brackets held open. -/
instance limited_ofDepth (n : Nat) : (ofDepth n).Limited := by
  induction n with
  | zero => exact Limited.empty
  | succ n ih => exact Limited.around (ofDepth n)

end ScriptFront.Grammar
