import ScriptFront.Production.Declaration

/-!
# Statements

Blocks, control flow, and the expressions that may stand as statements: calls, assignments and steps.
A semicolon may follow every statement.
-/

namespace ScriptFront

namespace Stmt

/-- The assignment that `left op= value` stands for. -/
def compound (left : Expr) (op : BinaryOperator) (value : Expr) : Stmt :=
  assign left (.binary op left value)

end Stmt

namespace CaseBlock

def isDefault (b : CaseBlock) : Bool := b.label.isNone

/-- Whether the block is labelled with a constant of this kind and text. -/
def isFor (b : CaseBlock) (kind : ConstantKind) (value : String) : Bool :=
  match b.label with
  | some (.constant _ k v) => k == kind && v == value
  | _ => false

/-- Whether control runs from the end of the block into the next one. An empty block shares the
statements of the next one instead. -/
def fallsThrough (b : CaseBlock) : Bool :=
  match b.statements.getLast? with
  | some s => !s.isControlTransfer
  | none => false

end CaseBlock

namespace Cursor

/-- Whether a declaration starts here that the word `w` introduces, and no expression with a variable of
that name. -/
def startsDeclaration (w : String) (c : Cursor) : Bool :=
  c.peek.isWord w && (c.peekNth 1).kind == .identifier

/-- Whether a variable is declared by a keyword of this kind. -/
def declaresVariable : Kind → Bool
  | .keyword .letWord | .keyword .varWord | .keyword .constWord => true
  | _ => false

/-- Whether a variable is declared here that runs through the keys or the values of something. -/
def startsIteration (c : Cursor) : Bool :=
  declaresVariable c.peekKind && ((c.peekNth 2).isWord "of" || (c.peekNth 2).isWord "in")

/-- Whether the name here is a label. -/
def startsLabel (c : Cursor) : Bool := (c.peekNth 1).kind == .mark .colon

end Cursor

namespace Grammar

open Production

variable (g : Grammar)

/-! ## Expressions as statements -/

/-- A call, an assignment or a step. -/
def simpleStatement : Production Stmt := do
  let left ← g.operand
  let k ← peekKind
  match k with
  | .mark .equals =>
    discard next
    return .assign left (← g.value)
  | .mark m =>
    match StepOperator.ofMark? m, BinaryOperator.ofAssignment? m with
    | some op, _ =>
      discard next
      return .step op left
    | none, some op =>
      discard next
      return .compound left op (← g.value)
    | none, none => asCall left k
  | _ => asCall left k
where
  /-- Only a call can stand alone. -/
  asCall (left : Expr) (k : Kind) : Production Stmt :=
    match left with
    | .call c => return .call c
    | _ =>
      match k with
      | .mark .semicolon | .mark .closeBrace | .endOfFile =>
        fail .invalidStatementExpression left.position
      | _ => failHere .unexpected

/-- A `new` expression, which must end in a call. -/
def newStatement : Production Stmt := do
  let t ← peek
  match ← g.conditional with
  | .call c => return .call c
  | _ => fail .invalidNewStatement t.position

def deleteStatement : Production Stmt := do
  let keyword ← accept (.keyword .deleteWord)
  let object ← identifier
  if !(← skips (.mark .dot)) then fail .invalidDelete keyword.position
  let property ← name
  return .delete keyword.position object.text property.text

/-! ## Jumps -/

/-- The label behind `break` or `continue`, on the same line. -/
def jumpLabel (keyword : Token) : Production (Option String) := do
  let t ← peek
  if t.kind = .identifier ∧ t.position.line = keyword.position.line then
    discard next
    return some t.text
  else return none

/-- A `return`. Its value starts on the same line. -/
def returnStatement : Production Stmt := do
  let keyword ← accept (.keyword .returnWord)
  let t ← peek
  let isEmpty :=
    match t.kind with
    | .mark .semicolon | .mark .closeBrace | .endOfFile => true
    | _ => t.position.line != keyword.position.line
  if isEmpty then return .returns keyword.position none
  else return .returns keyword.position (some (← g.value))

/-! ## Conditions and loops -/

/-- An expression in parentheses. -/
def condition : Production Expr := do
  discard (accept (.mark .openParen))
  let e ← g.expression
  discard (accept (.mark .closeParen))
  return e

def branch : Production Branch := do
  let condition ← g.condition
  return ⟨condition, ← g.block⟩

def ifStatement : Production Stmt := do
  let keyword ← accept (.keyword .ifWord)
  let first ← g.branch
  let (branches, otherwise) ← loop (fun (branches : List Branch) => do
    if !(← skips (.keyword .elseWord)) then return .done (branches.reverse, none)
    if ← skips (.keyword .ifWord) then return .again ((← g.branch) :: branches)
    return .done (branches.reverse, some (← g.block))) [first]
  return .ifElse keyword.position branches otherwise

def whileStatement : Production Stmt := do
  let keyword ← accept (.keyword .whileWord)
  let condition ← g.condition
  return .whileLoop keyword.position condition (← g.block)

/-- The variables of a `for`, which share the keyword of the first. -/
def forVariables : Production (List Stmt) := do
  let first ← g.variableStatement
  loop (fun (decls : List Stmt) => do
    if ← skips (.mark .comma) then
      return .again (.varDecl (← g.variableDeclaration first.isConst) :: decls)
    else return .done decls.reverse) [.varDecl first]

/-- Three parts between semicolons, each of which may be missing. -/
def classicHeader : Production ForHeader := do
  let k ← peekKind
  let declarations ←
    if Cursor.declaresVariable k then g.forVariables
    else if k = .mark .semicolon then pure []
    else List.singleton <$> g.simpleStatement
  discard (accept (.mark .semicolon))
  let condition ←
    if ← isAt (.mark .semicolon) then pure none else some <$> g.expression
  discard (accept (.mark .semicolon))
  let step ← if ← isAt (.mark .closeParen) then pure none else some <$> g.simpleStatement
  return .classic declarations condition step

/-- A name that runs through the keys or the values of something. -/
def iterationHeader : Production ForHeader := do
  discard next
  let binding ← identifier
  let joint ← next
  let subject ← g.expression
  return if joint.isWord "of" then .values binding.ident subject else .keys binding.ident subject

def forHeader : Production ForHeader := do
  if ← asks Cursor.startsIteration then g.iterationHeader else g.classicHeader

def forStatement : Production Stmt := do
  let keyword ← accept (.keyword .forWord)
  discard (accept (.mark .openParen))
  let header ← g.forHeader
  discard (accept (.mark .closeParen))
  return .forLoop keyword.position header (← g.block)

/-! ## Blocks -/

def blockBody : Production Block :=
  nested do
    let brace ← accept (.mark .openBrace)
    let items ← loop (fun (items : List Stmt) => do
      match ← peekKind with
      | .mark .closeBrace => return .done items.reverse
      | .endOfFile => fail .unclosedBlock brace.position
      | _ =>
        match ← g.item with
        | some s => return .again (s :: items)
        | none => return .again items) []
    let close ← accept (.mark .closeBrace)
    return ⟨brace.position, items, close.position⟩

/-! ## Switches -/

/-- The statements of a case, up to the next one or the end of the switch. -/
def caseStatements (position : Position) : Production (List Stmt) :=
  loop (fun (items : List Stmt) => do
    match ← peekKind with
    | .keyword .caseWord | .keyword .defaultWord | .mark .closeBrace => return .done items.reverse
    | .endOfFile => fail .unclosedCase position
    | _ =>
      match ← g.item with
      | some s => return .again (s :: items)
      | none => return .again items) []

/-- The case or default block here, if there is one. No constant may stand twice and no second default
may stand among `before`. -/
def caseBlock (before : List CaseBlock) : Production (Option CaseBlock) := do
  let t ← peek
  match t.kind with
  | .keyword .caseWord =>
    discard next
    let label ← g.expression
    discard (accept (.mark .colon))
    match label with
    | .constant _ kind value =>
      if before.any (·.isFor kind value) then fail (.duplicateCase value) t.position
    | _ => pure ()
    return some ⟨t.position, some label, ← g.caseStatements t.position⟩
  | .keyword .defaultWord =>
    discard next
    if before.any (·.isDefault) then fail (.duplicateCase "default") t.position
    discard (accept (.mark .colon))
    return some ⟨t.position, none, ← g.caseStatements t.position⟩
  | _ => return none

/-- The case and default blocks in source order. Every block but the last one must end in a jump or be
empty. -/
def caseBlocks : Production (List CaseBlock) := do
  let blocks ← loop (fun (blocks : List CaseBlock) => do
    match ← g.caseBlock blocks with
    | some b => return .again (b :: blocks)
    | none => return .done blocks.reverse) []
  discard (accept (.mark .closeBrace))
  match blocks.dropLast.find? (·.fallsThrough) with
  | some b => fail .fallthrough b.position
  | none => return blocks

def switchStatement : Production Stmt := do
  let keyword ← accept (.keyword .switchWord)
  let subject ← g.condition
  discard (accept (.mark .openBrace))
  let blocks ← g.caseBlocks
  return .switch keyword.position subject (blocks.filter (!·.isDefault)) (blocks.find? (·.isDefault))

/-! ## Other statements -/

def catchClause (keyword : Token) : Production CatchClause := do
  let binding ←
    if ← skips (.mark .openParen) then
      let name ← identifier
      g.ascription
      discard (accept (.mark .closeParen))
      pure (some name.ident)
    else pure none
  return ⟨keyword.position, binding, ← g.block⟩

def tryStatement : Production Stmt := do
  let keyword ← accept (.keyword .tryWord)
  let body ← g.block
  let handler ←
    match ← optional (.keyword .catchWord) with
    | some t => some <$> g.catchClause t
    | none => pure none
  let finalizer ← if ← skips (.keyword .finallyWord) then some <$> g.block else pure none
  return .tryCatch keyword.position body handler finalizer

/-- A label and the loop or switch that it names. -/
def labelStatement : Production Stmt := do
  let name ← identifier
  discard (accept (.mark .colon))
  let t ← peek
  let body ←
    match t.kind with
    | .keyword .forWord => g.forStatement
    | .keyword .whileWord => g.whileStatement
    | .keyword .switchWord => g.switchStatement
    | _ => fail .invalidLabelTarget t.position
  return .label name.position name.text body

/-- A statement without the semicolon behind it. -/
def bareStatement : Production Stmt := do
  let t ← peek
  match t.kind with
  | .keyword .letWord | .keyword .varWord | .keyword .constWord =>
    return .varDecl (← g.variableStatement)
  | .keyword .enumWord => return .enumDecl (← enumDeclaration false)
  | .keyword .functionWord => return .funcDecl (← g.functionDeclaration false)
  | .keyword .ifWord => g.ifStatement
  | .keyword .whileWord => g.whileStatement
  | .keyword .forWord => g.forStatement
  | .keyword .switchWord => g.switchStatement
  | .keyword .tryWord => g.tryStatement
  | .keyword .returnWord => g.returnStatement
  | .keyword .throwWord =>
    discard next
    return .throws t.position (← g.value)
  | .keyword .breakWord =>
    discard next
    return .breaks t.position (← jumpLabel t)
  | .keyword .continueWord =>
    discard next
    return .continues t.position (← jumpLabel t)
  | .keyword .deleteWord => deleteStatement
  | .keyword .newWord => g.newStatement
  | .mark .openBrace => return .block (← g.blockBody)
  | .identifier =>
    if ← asks Cursor.startsPrototypeMethod then return .funcDecl (← g.prototypeMethod)
    else if ← asks Cursor.startsLabel then g.labelStatement
    else g.simpleStatement
  | .mark .openParen => g.simpleStatement
  | .keyword .typeofWord => fail .typeofExpression t.position
  | _ => failHere .expectingStatement

def statementBody : Production Stmt := do
  let s ← g.bareStatement
  semicolon
  return s

/-- A statement in a block. Declarations of types are dropped. -/
def blockItem : Production (Option Stmt) := do
  if ← asks (Cursor.startsDeclaration "type") then
    typeAlias g.type
    return none
  else if ← isAt (.keyword .interfaceWord) then
    interfaceDeclaration g.type
    return none
  else return some (← g.statementBody)

/-! ## The whole grammar -/

/-- The grammar with `g` inside every construct. -/
def around : Grammar where
  value := g.valueExpression
  expression := g.conditional
  binary := g.binaryExpression
  unary := g.unaryExpression
  block := g.blockBody
  item := g.blockItem
  type := unionType g.type
  ascription := ascribedType g.type
  casts := asTypes g.type

/-- The grammar that can be entered `n` times, one inside the other. -/
def ofDepth (n : Nat) : Grammar := n.repeat around empty

end Grammar

end ScriptFront
