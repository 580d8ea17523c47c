import ScriptFront.Attribute.Run
import ScriptFront.Production.Statement
import ScriptFront.Token.Source
import ScriptFront.Tree.File

/-!
# Files

A file is a sequence of imports, declarations and statements. `File.ofTokens` and `Expr.ofTokens` read a
whole token list; `File.ofSource` and `Expr.ofSource` read a text.
-/

namespace ScriptFront

namespace Cursor

/-- The attributes before the current token. -/
def attributes (c : Cursor) : List Token :=
  (c.ahead.head?.getD c.last).leading.filter (·.kind = .attribute)

/-- At an `export`: whether attributes belong to what is exported, which is a function or a class. -/
def exportsAttributed (c : Cursor) : Bool :=
  match (c.peekNth 1).kind with
  | .keyword .functionWord | .keyword .classWord => true
  | _ => false

end Cursor

/-- A file as far as it has been read; lists are kept backwards. -/
structure Draft where
  attributes : AttributeRun
  started : Bool
  imports : List Import
  statements : List Stmt
  globals : List Stmt

namespace Draft

def empty : Draft := ⟨.empty, false, [], [], []⟩

def addStatement (d : Draft) (s : Stmt) : Draft := { d with statements := s :: d.statements }

end Draft

namespace Stmt

/-- Gives attributes to a function or a class. -/
def withAttributes (attributes : List String) : Stmt → Stmt
  | funcDecl f => funcDecl { f with attributes := attributes }
  | classDecl c => classDecl { c with attributes := attributes }
  | s => s

end Stmt

namespace Production

/-- An import of a whole file, for its effects or under a name. -/
def importDeclaration : Production Import := do
  let keyword ← accept (.keyword .importWord)
  match ← peekKind with
  | .string =>
    let path ← next
    semicolon
    return ⟨keyword.position, path.text, "", ""⟩
  | .mark .openBrace => fail .partialImport keyword.position
  | _ =>
    discard (accept (.mark .star))
    discard (word "as")
    let localName ← identifier
    discard (word "from")
    let path ← accept .string
    semicolon
    return ⟨keyword.position, path.text, localName.text, ""⟩

end Production

namespace Grammar

open Production

variable (g : Grammar)

/-! ## Declarations of a file -/

/-- What is exported, unless it is a type. -/
def exportDeclaration : Production (Option Stmt) := do
  discard (accept (.keyword .exportWord))
  let t ← peek
  match t.kind with
  | .keyword .enumWord => return some (.enumDecl (← enumDeclaration true))
  | .keyword .functionWord | .keyword .classWord => return some (← g.functionOrClass true)
  | .keyword .letWord | .keyword .varWord | .keyword .constWord =>
    let decl ← g.variableStatement
    semicolon
    return some (.varDecl { decl with exported := true })
  | .keyword .interfaceWord =>
    interfaceDeclaration g.type
    return none
  | .identifier =>
    if ← asks (Cursor.startsDeclaration "type") then
      typeAlias g.type
      return none
    else if ← asks (Cursor.startsDeclaration "namespace") then fail .namespaceDeclaration t.position
    else failHere .invalidExport
  | _ => failHere .invalidExport

/-- A declaration in a global block. Enums and constants are kept; the others only tell types. -/
def globalDeclaration : Production (Option Stmt) := do
  match ← peekKind with
  | .keyword .enumWord => return some (.enumDecl (← enumDeclaration false))
  | .keyword .constWord =>
    let decl ← g.variableStatement
    semicolon
    return some (.varDecl decl)
  | .keyword .letWord | .keyword .varWord =>
    discard next
    discard identifier
    g.ascription
    semicolon
    return none
  | .keyword .interfaceWord =>
    interfaceDeclaration g.type
    return none
  | .keyword .functionWord =>
    functionSignature g.type
    return none
  | _ =>
    if ← asks (Cursor.startsDeclaration "type") then
      typeAlias g.type
      return none
    else failHere .invalidGlobalDeclaration

/-- A `declare global` block. -/
def globalBlock : Production (List Stmt) := do
  discard (word "declare")
  let t ← peek
  if t.isWord "namespace" then fail .namespaceDeclaration t.position
  if !t.isWord "global" then fail .expectedGlobal t.position
  discard next
  discard (accept (.mark .openBrace))
  loop (fun (decls : List Stmt) => do
    if ← isAt (.mark .closeBrace) then
      discard next
      return .done decls.reverse
    match ← g.globalDeclaration with
    | some s => return .again (s :: decls)
    | none => return .again decls) []

/-! ## Constructs of a file -/

/-- Settles the attributes before a construct that takes none. -/
def settled (d : Draft) (p : Position) : Production Draft := fun _ c =>
  match d.attributes.settle p d.started with
  | .ok run => .ok ({ d with attributes := run }, c)
  | .error e => .error e

/-- A declaration with the attributes right above it. -/
def attributed (d : Draft) (p : Position) (declaration : Production (Option Stmt)) :
    Production Draft := do
  let (attributes, run) := d.attributes.takeFor p
  let d := { d with attributes := run }
  match ← declaration with
  | some s => return d.addStatement (s.withAttributes attributes)
  | none => return d

/-- The construct that starts with token `t`. -/
def construct (d : Draft) (t : Token) : Production Draft := do
  match t.kind with
  | .keyword .importWord =>
    if !d.statements.isEmpty then fail .importAfterStatements t.position
    let d ← settled d t.position
    return { d with imports := (← importDeclaration) :: d.imports }
  | .keyword .functionWord | .keyword .classWord =>
    attributed d t.position (some <$> g.functionOrClass false)
  | .keyword .exportWord =>
    if ← asks Cursor.exportsAttributed then attributed d t.position g.exportDeclaration
    else
      let d ← settled d t.position
      match ← g.exportDeclaration with
      | some s => return d.addStatement s
      | none => return d
  | .keyword .interfaceWord =>
    let d ← settled d t.position
    interfaceDeclaration g.type
    return d
  | .identifier =>
    if ← asks (Cursor.startsDeclaration "type") then
      let d ← settled d t.position
      typeAlias g.type
      return d
    else if ← asks (Cursor.startsDeclaration "declare") then
      let d ← settled d t.position
      return { d with globals := (← g.globalBlock).reverse ++ d.globals }
    else if ← asks (Cursor.startsDeclaration "namespace") then
      fail .namespaceDeclaration t.position
    else other d t.position
  | _ => other d t.position
where
  other (d : Draft) (p : Position) : Production Draft := do
    let d ← settled d p
    return d.addStatement (← g.statementBody)

/-- Everything up to the end of the file, with `construct` for the constructs. -/
def constructsOf (construct : Draft → Token → Production Draft) : Production Draft :=
  loop (fun (d : Draft) => do
    let d := { d with attributes := (← asks Cursor.attributes).foldl .push d.attributes }
    let t ← peek
    if t.kind = .endOfFile then return .done { d with attributes := d.attributes.flush }
    let d ← construct d t
    return .again { d with started := true }) .empty

/-- Everything up to the end of the file. -/
def constructs : Production Draft := constructsOf g.construct

/-- A single expression up to the end of the file. -/
def wholeExpression : Production Expr := do
  let e ← g.valueExpression
  semicolon
  if !(← isAt .endOfFile) then failHere .unexpected
  return e

end Grammar

/-! ## Whole inputs -/

/-- Settings of a parse. -/
structure Options where
  /-- Marks tail calls. -/
  optimize : Bool
deriving DecidableEq, Repr

namespace Production

/-- What a production of the grammar makes of a token list. The grammar is as deep as the list is
long, so its bottom is out of reach. -/
def runOn {α : Type} (p : Grammar → Production α) (options : Options) (tokens : List Token) :
    Except Error α :=
  let c := Cursor.ofTokens tokens
  (p (Grammar.ofDepth (c.remaining + 1)) ⟨options.optimize, 0⟩ c).map (·.1)

end Production

namespace File

def ofTokens (tokens : List Token) (path : String) (options : Options) : Except Error File := do
  let d ← Production.runOn Grammar.constructs options tokens
  return {
    path := path
    imports := d.imports.reverse
    statements := d.statements.reverse
    attributes := d.attributes.ofFile
    comments := Comment.ofTokens tokens
    globals := d.globals.reverse }

/-- The file that a source text holds. Its imports are recorded and not resolved. -/
def ofSource (source path : String) (options : Options) : Except Error File := do
  ofTokens (← Source.tokenize (Source.prepare source)) path options

end File

namespace Expr

def ofTokens (tokens : List Token) (options : Options) : Except Error Expr :=
  Production.runOn Grammar.wholeExpression options tokens

/-- The single expression that a source text holds. -/
def ofSource (source : String) : Except Error Expr := do
  ofTokens (← Source.tokenize (Source.prepare source)) ⟨false⟩

end Expr

end ScriptFront
