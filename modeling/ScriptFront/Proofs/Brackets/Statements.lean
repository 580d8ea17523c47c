import ScriptFront.Production.Statement
import ScriptFront.Proofs.Brackets.Expressions

/-!
# Brackets in declarations and statements
-/

set_option synthInstance.maxSize 4000

namespace ScriptFront.Grammar.Brackets

open Production

variable {g : Grammar} [hg : g.Brackets]

/-! ## Variables and functions -/

instance variableDeclaration (isConst : Bool) : Nests (g.variableDeclaration isConst) := by
  unfold Grammar.variableDeclaration
  infer_instance

/-- The keyword of a variable has been seen. -/
theorem variableStatement {P : Cursor → Prop} {before : List Bracket}
    (h : ∀ c, P c → c.peekKind.openBehind before = some before) :
    Takes P before g.variableStatement fun _ => before := by
  unfold Grammar.variableStatement
  exact .nextThen h fun _ => .nests

instance namedFunction (position : Position) (name : String) (exported : Bool) :
    Nests (g.namedFunction position name exported) := by
  unfold Grammar.namedFunction
  infer_instance

instance functionDeclaration (exported : Bool) : Nests (g.functionDeclaration exported) := by
  unfold Grammar.functionDeclaration
  infer_instance

instance prototypeMethod : Nests g.prototypeMethod := by
  unfold Grammar.prototypeMethod
  infer_instance

/-! ## Classes -/

instance method (exported : Bool) : Nests (g.method exported) := by
  unfold Grammar.method
  infer_instance

instance field (exported : Bool) : Nests (g.field exported) := by
  unfold Grammar.field
  infer_instance

/-- A word in front of a member is read if it is one. -/
theorem modifiedThen {α : Type} {w : String} {f : Unit → Production α} {q : Production α}
    {before : List Bracket} {after : α → List Bracket}
    (hf : ∀ u, Takes Anywhere before (f u) after) (hq : Takes Anywhere before q after) :
    Takes Anywhere before (do
      if ← asks (Cursor.startsModified w) then discard next >>= f else q) after := by
  refine .asks fun modified => .ite (fun h => .skip (fun c hc => ?_) hf) fun _ => hq.anywhere
  have hword := hc.2.trans h
  unfold Cursor.startsModified at hword
  rw [Bool.and_eq_true] at hword
  exact Cursor.openBehind_of_isWord hword.1 before

instance bareMember (exported : Bool) : Nests (g.bareMember exported) := by
  unfold Grammar.bareMember
  exact ⟨fun before => modifiedThen (fun _ => .nests) (modifiedThen (fun _ => .nests) .nests)⟩

instance classMember : Nests g.classMember := by
  unfold Grammar.classMember
  exact ⟨fun before => modifiedThen (fun _ => .nests) .nests⟩

/-- The brace of a class is closed by its last round. -/
instance classMembers : Closes .curly g.classMembers := by
  unfold Grammar.classMembers
  refine ⟨fun before => .loop (fun _ => .curly :: before) (fun members => ?_) []⟩
  refine .peek fun t => ?_
  split
  · next hbrace => exact .skipToken hbrace rfl fun _ => .pure rfl
  · exact .fail _ _
  · next hsemicolon => exact .skipToken hsemicolon rfl fun _ => .pure rfl
  · exact .behind fun _ => .pure rfl
  · exact .behind fun _ => .pure rfl
  · exact .failHere _

instance classDeclaration (exported : Bool) : Nests (g.classDeclaration exported) := by
  unfold Grammar.classDeclaration
  dsimp only
  refine ⟨fun before => .behind fun _ => .behind fun _ => .behind fun _ =>
    .asks (h := fun c => c.peek.isWord "implements") fun isHeir => .ite (fun h => ?_) fun _ => .nests⟩
  refine (heritage_takes fun c hc => ?_).bind fun _ => .nests
  exact Cursor.openBehind_of_isWord (hc.2.trans h) before

instance functionOrClass (exported : Bool) : Nests (g.functionOrClass exported) := by
  unfold Grammar.functionOrClass
  infer_instance

/-! ## Enums -/

instance enumInitializer : Nests enumInitializer := by
  unfold Production.enumInitializer
  refine ⟨fun before => .behind fun negative => .peek fun t => ?_⟩
  split
  · next hint => exact .skipToken hint rfl fun _ => .nests
  · next hstring => exact .ite (fun _ => .failHere _) fun _ => .skipToken hstring rfl fun _ => .nests
  · exact .failHere _

instance enumMember (isFirst : Bool) (counter : Int) : Nests (enumMember isFirst counter) := by
  unfold Production.enumMember
  refine @Nests.bind _ _ _ _ _ fun name => @Nests.bind _ _ _ _ _ fun given =>
    @Nests.ite _ _ _ _ _ (@Nests.bind _ _ _ _ _ fun value => ?_) inferInstance
  dsimp only
  refine @Nests.ite _ _ _ _ _ ?_ inferInstance
  split <;> infer_instance

instance enumMembers : Nests enumMembers := by
  unfold Production.enumMembers
  infer_instance

/-- The members of an enum stop at its closing brace. -/
theorem enumMembers_stops {ctx : Context} {c d : Cursor} {members : List EnumMember}
    (h : Production.enumMembers ctx c = .ok (members, d)) : d.peekKind = .mark .closeBrace := by
  refine loop_stops (R := fun d => d.peekKind = .mark .closeBrace) (fun {s ctx c b d} hok => ?_) h
  rw [run_isAt_bind] at hok
  split at hok
  · next hbrace =>
    cases hok
    exact eq_of_beq hbrace
  · obtain ⟨_, _, _, hok⟩ := bind_ok.1 hok
    obtain ⟨_, _, _, hok⟩ := bind_ok.1 hok
    cases hok

instance enumDeclaration (exported : Bool) : Nests (enumDeclaration exported) := by
  unfold Production.enumDeclaration
  refine ⟨fun before => .behind fun _ => .behind fun _ => .opened fun _ => ?_⟩
  refine .bindAt (R := fun d => d.peekKind = .mark .closeBrace) .nests
    (fun _ h => enumMembers_stops h) fun members => .skip (m := before) (fun c hc => ?_)
      fun _ => .nests
  rw [hc]
  rfl

/-! ## Expressions as statements -/

instance asCall (left : Expr) (k : Kind) : Nests (simpleStatement.asCall left k) := by
  unfold simpleStatement.asCall
  split
  · infer_instance
  · split <;> infer_instance

theorem openBehind_of_step {m : Mark} {op : StepOperator} (h : StepOperator.ofMark? m = some op)
    (before : List Bracket) : (Kind.mark m).openBehind before = some before := by
  unfold StepOperator.ofMark? at h
  split at h <;> first | rfl | cases h

theorem openBehind_of_assignment {m : Mark} {op : BinaryOperator}
    (h : BinaryOperator.ofAssignment? m = some op) (before : List Bracket) :
    (Kind.mark m).openBehind before = some before := by
  unfold BinaryOperator.ofAssignment? at h
  split at h <;> first | rfl | cases h

instance simpleStatement : Nests g.simpleStatement := by
  unfold Grammar.simpleStatement
  refine ⟨fun before => .behind fun left => .peekKind fun k => ?_⟩
  split
  · exact .skipAt rfl fun _ => .nests
  · split
    · next op _ hop => exact .skipAt (openBehind_of_step ‹_› before) fun _ => .nests
    · next op _ hop => exact .skipAt (openBehind_of_assignment hop before) fun _ => .nests
    · exact .nests
  · exact .nests

instance newStatement : Nests g.newStatement := by
  unfold Grammar.newStatement
  refine @Nests.bind _ _ _ _ _ fun t => @Nests.bind _ _ _ _ _ fun e => ?_
  split <;> infer_instance

instance deleteStatement : Nests deleteStatement := by
  unfold Grammar.deleteStatement
  dsimp only
  infer_instance

/-! ## Jumps -/

instance jumpLabel (keyword : Token) : Nests (jumpLabel keyword) := by
  unfold Grammar.jumpLabel
  refine ⟨fun before => .peek fun t => .ite (fun h => .skip (fun c hc => ?_) fun _ => .nests)
    fun _ => .nests⟩
  rw [Cursor.peekKind, hc.2, h.1]
  rfl

instance returnStatement : Nests g.returnStatement := by
  unfold Grammar.returnStatement
  dsimp only
  infer_instance

/-! ## Conditions and loops -/

instance condition : Nests g.condition := by
  unfold Grammar.condition
  infer_instance

instance branch : Nests g.branch := by
  unfold Grammar.branch
  infer_instance

instance ifStatement : Nests g.ifStatement := by
  unfold Grammar.ifStatement
  dsimp only
  infer_instance

instance whileStatement : Nests g.whileStatement := by
  unfold Grammar.whileStatement
  infer_instance

theorem forVariables {P : Cursor → Prop} {before : List Bracket}
    (h : ∀ c, P c → c.peekKind.openBehind before = some before) :
    Takes P before g.forVariables fun _ => before := by
  unfold Grammar.forVariables
  exact (variableStatement h).bind fun _ => .nests

theorem openBehind_of_declaresVariable {k : Kind} (h : Cursor.declaresVariable k = true)
    (before : List Bracket) : k.openBehind before = some before := by
  unfold Cursor.declaresVariable at h
  split at h <;> first | rfl | cases h

instance classicHeader : Nests g.classicHeader := by
  unfold Grammar.classicHeader
  refine ⟨fun before => .peekKind fun k => ?_⟩
  dsimp only
  refine .ite (fun h => (forVariables fun c hc => ?_).bind fun _ => .nests) fun _ => .nests
  rw [hc.2]
  exact openBehind_of_declaresVariable h before

theorem openBehind_of_startsIteration {c : Cursor} (h : c.startsIteration = true)
    (before : List Bracket) : c.peekKind.openBehind before = some before := by
  unfold Cursor.startsIteration at h
  rw [Bool.and_eq_true] at h
  exact openBehind_of_declaresVariable h.1 before

/-- The word between the name and what is run through has been seen from the keyword on. -/
theorem openBehind_of_iterates {c d : Cursor} {ctx : Context} {name : Token}
    (h : c.startsIteration = true) (hname : identifier ctx c.next = .ok (name, d))
    (before : List Bracket) : d.peekKind.openBehind before = some before := by
  unfold Cursor.startsIteration at h
  rw [Bool.and_eq_true, Bool.or_eq_true] at h
  obtain ⟨hkeyword, hword⟩ := h
  have hend : c.peekKind ≠ .endOfFile := by
    intro hend
    rw [hend] at hkeyword
    cases hkeyword
  unfold identifier at hname
  rw [run_isAt_bind] at hname
  split at hname
  · next hidentifier =>
    have hend' : c.next.peekKind ≠ .endOfFile := by
      rw [show c.next.peekKind = .identifier from eq_of_beq hidentifier]
      exact Kind.noConfusion
    cases hname
    have hpeek : c.next.next.peek = c.peekNth 2 := by
      rw [Cursor.peek, c.next.peekNth_next hend', c.peekNth_next hend]
    rw [← hpeek] at hword
    exact hword.elim (Cursor.openBehind_of_isWord · before) (Cursor.openBehind_of_isWord · before)
  · cases hname

theorem iterationHeader {P : Cursor → Prop} {before : List Bracket}
    (h : ∀ c, P c → c.startsIteration = true) :
    Takes P before g.iterationHeader fun _ => before := by
  unfold Grammar.iterationHeader
  refine .bindAt (R := fun d => ∃ c : Cursor, c.startsIteration = true ∧ c.next = d)
    (.drop fun c hP => openBehind_of_startsIteration (h c hP) before) (fun {_ c _ _} hP hok => ?_)
    fun _ => .bindAt (R := fun d => d.peekKind.openBehind before = some before) .nests
      (fun hR hok => ?_) fun name => .nextThen (fun _ hR => hR) fun joint => .nests
  · cases hok
    exact ⟨c, h c hP, rfl⟩
  · obtain ⟨c, hc, rfl⟩ := hR
    exact openBehind_of_iterates hc hok before

instance forHeader : Nests g.forHeader := by
  unfold Grammar.forHeader
  exact ⟨fun before => .asks fun iterates => .ite
    (fun h => iterationHeader fun c hc => hc.2.trans h) fun _ => .nests⟩

instance forStatement : Nests g.forStatement := by
  unfold Grammar.forStatement
  infer_instance

/-! ## Blocks and switches -/

instance itemTurn (items : List Stmt) : Nests (do
    match ← g.item with
    | some s => return Turn.again (β := List Stmt) (s :: items)
    | none => return .again items) := by
  refine @Nests.bind _ _ _ _ _ fun s => ?_
  cases s <;> infer_instance

instance blockBody : Nests g.blockBody := by
  have hitems : ∀ p, Nests (loop (fun (items : List Stmt) => do
      match ← peekKind with
      | .mark .closeBrace => return .done items.reverse
      | .endOfFile => fail .unclosedBlock p
      | _ =>
        match ← g.item with
        | some s => return .again (s :: items)
        | none => return .again items) []) := by
    intro p
    refine @Nests.loop _ _ _ (fun items => @Nests.bind _ _ _ _ _ fun kind => ?_) _
    split
    · infer_instance
    · infer_instance
    · exact itemTurn items
  unfold Grammar.blockBody
  infer_instance

instance caseStatements (position : Position) : Nests (g.caseStatements position) := by
  unfold Grammar.caseStatements
  refine @Nests.loop _ _ _ (fun items => @Nests.bind _ _ _ _ _ fun kind => ?_) _
  split <;> infer_instance

instance caseBlock (blocks : List CaseBlock) : Nests (g.caseBlock blocks) := by
  unfold Grammar.caseBlock
  refine ⟨fun before => .peek fun t => ?_⟩
  split
  · next hcase =>
    refine .skipToken hcase rfl fun _ => .behind fun label => .behind fun _ => ?_
    dsimp only
    split <;> exact .nests
  · next hdefault =>
    refine .skipToken hdefault rfl fun _ => ?_
    dsimp only
    exact .nests
  · exact .nests

/-- The brace in front of the cases has been read. -/
instance caseBlocks : Closes .curly g.caseBlocks := by
  unfold Grammar.caseBlocks
  refine @Closes.bind_right _ _ _ _ _ (@Nests.loop _ _ _ (fun blocks => ?_) _) fun blocks => ?_
  · refine @Nests.bind _ _ _ _ _ fun b => ?_
    cases b <;> infer_instance
  · refine @Closes.bind_left _ _ _ _ _ _ fun _ => ?_
    split <;> infer_instance

instance switchStatement : Nests g.switchStatement := by
  unfold Grammar.switchStatement
  infer_instance

/-! ## Other statements -/

instance catchClause (keyword : Token) : Nests (g.catchClause keyword) := by
  unfold Grammar.catchClause
  dsimp only
  refine ⟨fun before => (Takes.skips (m := .round :: before) rfl).bind fun b => ?_⟩
  cases b with
  | true => exact .behind fun name => .behind fun _ => .closed fun _ => .nests
  | false => exact .ite (fun h => nomatch h) fun _ => .nests

instance tryStatement : Nests g.tryStatement := by
  unfold Grammar.tryStatement
  dsimp only
  refine @Nests.bind _ _ _ _ _ fun keyword => @Nests.bind _ _ _ _ _ fun body =>
    @Nests.bind _ _ _ _ _ fun caught => ?_
  cases caught <;> infer_instance

instance labelStatement : Nests g.labelStatement := by
  unfold Grammar.labelStatement
  dsimp only
  refine @Nests.bind _ _ _ _ _ fun name => @Nests.bind _ _ _ _ _ fun _ =>
    @Nests.bind _ _ _ _ _ fun t => ?_
  split <;> infer_instance

instance bareStatement : Nests g.bareStatement := by
  unfold Grammar.bareStatement
  refine ⟨fun before => .peek fun t => ?_⟩
  have hvariable : ∀ {k : Keyword}, t.kind = .keyword k →
      Takes (fun c => Anywhere c ∧ c.peek = t) before
        (do return Stmt.varDecl (← g.variableStatement)) fun _ => before := by
    intro k hk
    refine (variableStatement fun c hc => ?_).bind fun _ => .nests
    rw [Cursor.peekKind, hc.2, hk]
    rfl
  split
  · next hlet => exact hvariable hlet
  · next hvar => exact hvariable hvar
  · next hconst => exact hvariable hconst
  · exact .nests
  · exact .nests
  · exact .nests
  · exact .nests
  · exact .nests
  · exact .nests
  · exact .nests
  · exact .nests
  · next hthrow => exact .skipToken hthrow rfl fun _ => .nests
  · next hbreak => exact .skipToken hbreak rfl fun _ => .nests
  · next hcontinue => exact .skipToken hcontinue rfl fun _ => .nests
  · exact .nests
  · exact .nests
  · exact .nests
  · exact .nests
  · exact .nests
  · exact .nests
  · exact .nests

instance statementBody : Nests g.statementBody := by
  unfold Grammar.statementBody
  infer_instance

instance blockItem : Nests g.blockItem := by
  unfold Grammar.blockItem
  infer_instance

end ScriptFront.Grammar.Brackets

namespace ScriptFront.Grammar

open Production

/-! ## The whole grammar -/

theorem Brackets.around (g : Grammar) [g.Brackets] : g.around.Brackets where
  value := Brackets.valueExpression
  expression := Brackets.conditional
  binary := Brackets.binaryExpression
  unary := Brackets.unaryExpression
  block := Brackets.blockBody
  item := Brackets.blockItem
  type := unionType_nests
  ascription := ascribedType_nests
  casts := asTypes_nests

theorem Brackets.empty : Grammar.empty.Brackets where
  value := .bind
  expression := .bind
  binary := fun _ => .bind
  unary := .bind
  block := .bind
  item := .bind
  type := .bind
  ascription := .bind
  casts := .bind

/-- However deep the grammar is entered, every construct closes the brackets that it opens. -/
instance brackets_ofDepth (n : Nat) : (ofDepth n).Brackets := by
  induction n with
  | zero => exact Brackets.empty
  | succ n ih => exact Brackets.around (ofDepth n)

end ScriptFront.Grammar
