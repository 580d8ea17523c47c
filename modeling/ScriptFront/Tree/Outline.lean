import ScriptFront.Text.Quoted
import ScriptFront.Tree.File

/-!
# Outlines

An outline is the written form of a tree, with every part on a line of its own and indented by its
depth. Each node is written with its name, and its parts with theirs.
-/

namespace ScriptFront

/-- What is written of a value. -/
inductive Outline where
  | leaf (text : String)
  | list (items : List Outline)
  | wrapped (name : String) (item : Outline)
  | record (name : String) (fields : List (String × Outline))

namespace Outline

/-! ## Writing -/

/-- The blanks in front of a line. -/
def indentation (depth : Nat) : String := String.ofList (List.replicate (4 * depth) ' ')

mutual

/-- Writes an outline behind `out`. Its first line is started already, at the given depth. -/
def writeTo (depth : Nat) (out : String) : Outline → String
  | leaf text => out ++ text
  | list [] => out ++ "[]"
  | list (i :: items) =>
    writeItems (depth + 1) (out ++ "[\n") (i :: items) ++ indentation depth ++ "]"
  | wrapped name item =>
    writeTo (depth + 1) (out ++ name ++ "(\n" ++ indentation (depth + 1)) item ++ ",\n"
      ++ indentation depth ++ ")"
  | record name fields =>
    writeFields (depth + 1) (out ++ name ++ " \x7b\n") fields ++ indentation depth ++ "\x7d"

def writeItems (depth : Nat) (out : String) : List Outline → String
  | [] => out
  | i :: rest => writeItems depth (writeTo depth (out ++ indentation depth) i ++ ",\n") rest

def writeFields (depth : Nat) (out : String) : List (String × Outline) → String
  | [] => out
  | (name, i) :: rest =>
    writeFields depth (writeTo depth (out ++ indentation depth ++ name ++ ": ") i ++ ",\n") rest

end

def text (o : Outline) : String := writeTo 0 "" o

/-! ## Parts without expressions -/

def ofPosition (p : Position) : Outline := leaf p.text

def ofText (s : String) : Outline := leaf (Text.quoted s)

def ofBool (b : Bool) : Outline := leaf (if b then "true" else "false")

def ofTexts (ss : List String) : Outline := list (ss.map ofText)

/-- A part that may be missing. -/
def ofOption : Option Outline → Outline
  | some o => wrapped "Some" o
  | none => leaf "None"

def ofIdent (i : Ident) : Outline :=
  record "IdentExpr" [("position", ofPosition i.position), ("name", ofText i.name)]

def ofConstantKind : ConstantKind → Outline
  | .int => leaf "Int"
  | .float => leaf "Float"
  | .string => leaf "String"
  | .rune => leaf "Rune"
  | .true => leaf "True"
  | .false => leaf "False"
  | .null => leaf "Null"
  | .undefined => leaf "Undefined"

def ofBinaryOperator : BinaryOperator → Outline
  | .add => leaf "Add"
  | .sub => leaf "Sub"
  | .mul => leaf "Mul"
  | .div => leaf "Div"
  | .mod => leaf "Mod"
  | .exp => leaf "Exp"
  | .shiftLeft => leaf "Shl"
  | .shiftRight => leaf "Shr"
  | .bitAnd => leaf "BitAnd"
  | .bitOr => leaf "BitOr"
  | .bitXor => leaf "BitXor"
  | .logicalAnd => leaf "LogicalAnd"
  | .logicalOr => leaf "LogicalOr"
  | .nullish => leaf "Nullish"
  | .eq => leaf "Eq"
  | .notEq => leaf "NotEq"
  | .strictEq => leaf "StrictEq"
  | .strictNotEq => leaf "StrictNotEq"
  | .less => leaf "Lt"
  | .lessEq => leaf "LtEq"
  | .greater => leaf "Gt"
  | .greaterEq => leaf "GtEq"

def ofUnaryOperator : UnaryOperator → Outline
  | .plus => leaf "Plus"
  | .minus => leaf "Minus"
  | .bitNot => leaf "BitNot"
  | .not => leaf "Not"

def ofStepOperator : StepOperator → Outline
  | .increment => leaf "Increment"
  | .decrement => leaf "Decrement"

def ofParameter (p : Parameter) : Outline :=
  record "Field" [("position", ofPosition p.position), ("name", ofText p.name),
    ("optional", ofBool p.optional)]

def ofParameters (p : Parameters) : Outline :=
  record "Arguments" [("opening", ofPosition p.opening), ("fields", list (p.fields.map ofParameter)),
    ("variadic", ofBool p.variadic)]

def ofEnumMember (m : EnumMember) : Outline :=
  record "EnumValue" [("position", ofPosition m.position), ("name", ofText m.name),
    ("kind", leaf (match m.kind with | .int => "Int" | .string => "String")),
    ("value", ofText m.value)]

def ofEnumDecl (d : EnumDecl) : Outline :=
  record "EnumDeclStmt" [("position", ofPosition d.position), ("name", ofText d.name),
    ("exported", ofBool d.exported), ("values", list (d.members.map ofEnumMember))]

/-- A jump to a label or without one. -/
def ofJump (p : Position) (label : Option String) : Outline :=
  record "BranchStmt" [("position", ofPosition p), ("label", ofOption (label.map ofText))]

/-! ## Expressions and statements -/

mutual

def ofExpr : Expr → Outline
  | .constant p kind value => wrapped "Constant" <| record "ConstantExpr"
      [("position", ofPosition p), ("kind", ofConstantKind kind), ("value", ofText value)]
  | .identifier i => wrapped "Identifier" (ofIdent i)
  | .selector x member optional outermost => wrapped "Selector" <| record "SelectorExpr"
      [("x", ofExpr x), ("member", ofIdent member), ("optional", ofBool optional),
       ("first_in_chain", ofBool outermost)]
  | .index x bracket key optional outermost => wrapped "Index" <| record "IndexExpr"
      [("x", ofExpr x), ("lbrack", ofPosition bracket), ("index", ofExpr key),
       ("optional", ofBool optional), ("first_in_chain", ofBool outermost)]
  | .call c => wrapped "Call" (ofCall c)
  | .newInstance p typeName arguments spread => wrapped "NewInstance" <| record "NewInstanceExpr"
      [("position", ofPosition p), ("type_name", ofExpr typeName),
       ("args", list (ofExprs arguments)), ("spread", ofBool spread)]
  | .binary op left right => wrapped "Binary" <| record "BinaryExpr"
      [("op", ofBinaryOperator op), ("left", ofExpr left), ("right", ofExpr right)]
  | .unary p op operand => wrapped "Unary" <| record "UnaryExpr"
      [("position", ofPosition p), ("op", ofUnaryOperator op), ("operand", ofExpr operand)]
  | .ternary condition whenTrue whenFalse => wrapped "Ternary" <| record "TernaryExpr"
      [("condition", ofExpr condition), ("then_expr", ofExpr whenTrue),
       ("else_expr", ofExpr whenFalse)]
  | .mapLiteral p entries => wrapped "MapLiteral" <| record "MapLiteralExpr"
      [("position", ofPosition p), ("entries", list (ofEntries entries))]
  | .arrayLiteral p elements => wrapped "ArrayLiteral" <| record "ArrayLiteralExpr"
      [("position", ofPosition p), ("elements", list (ofExprs elements))]
  | .function p parameters body => wrapped "FuncLiteral" <| record "FuncLiteralExpr"
      [("position", ofPosition p), ("arguments", ofParameters parameters), ("body", ofBlock body)]

def ofExprs : List Expr → List Outline
  | [] => []
  | e :: rest => ofExpr e :: ofExprs rest

/-- An expression that may be missing. -/
def ofExpr? : Option Expr → Outline
  | none => ofOption none
  | some e => ofOption (some (ofExpr e))

def ofCall : Call → Outline
  | ⟨callee, paren, arguments, spread, optional, outermost⟩ => record "CallExpr"
      [("callee", ofExpr callee), ("lparen", ofPosition paren), ("args", list (ofExprs arguments)),
       ("spread", ofBool spread), ("optional", ofBool optional),
       ("first_in_chain", ofBool outermost)]

def ofEntries : List MapEntry → List Outline
  | [] => []
  | ⟨p, key, value⟩ :: rest => record "KeyValue"
      [("position", ofPosition p), ("key", ofText key), ("value", ofExpr value)] :: ofEntries rest

def ofStmt : Stmt → Outline
  | .varDecl d => wrapped "VarDecl" (ofVarDecl d)
  | .funcDecl d => wrapped "FuncDecl" (ofFuncDecl d)
  | .classDecl d => wrapped "ClassDecl" (ofClassDecl d)
  | .enumDecl d => wrapped "EnumDecl" (ofEnumDecl d)
  | .ifElse p branches otherwise => wrapped "If" <| record "IfStmt"
      [("position", ofPosition p), ("blocks", list (ofBranches branches)),
       ("else_block", ofBlock? otherwise)]
  | .whileLoop p condition body => wrapped "While" <| record "WhileStmt"
      [("position", ofPosition p), ("condition", ofExpr condition), ("body", ofBlock body)]
  | .forLoop p header body => wrapped "For" <| record "ForStmt"
      [("position", ofPosition p), ("kind", ofHeader header), ("body", ofBlock body)]
  | .switch p subject cases otherwise => wrapped "Switch" <| record "SwitchStmt"
      [("position", ofPosition p), ("expr", ofExpr subject), ("blocks", list (ofCases cases)),
       ("default", ofCase? otherwise)]
  | .breaks p label => wrapped "Break" (ofJump p label)
  | .continues p label => wrapped "Continue" (ofJump p label)
  | .returns p value => wrapped "Return" <| record "ReturnStmt"
      [("position", ofPosition p), ("value", ofExpr? value)]
  | .throws p value => wrapped "Throw" <| record "ThrowStmt"
      [("position", ofPosition p), ("value", ofExpr value)]
  | .tryCatch p body handler finalizer => wrapped "Try" <| record "TryStmt"
      [("position", ofPosition p), ("body", ofBlock body), ("catch", ofCatch? handler),
       ("finally", ofBlock? finalizer)]
  | .call c => wrapped "Call" (ofCall c)
  | .assign left value => wrapped "Assign" <| record "AssignStmt"
      [("left", ofExpr left), ("value", ofExpr value)]
  | .step op target => wrapped "IncDec" <| record "IncDecStmt"
      [("op", ofStepOperator op), ("target", ofExpr target)]
  | .tailCall c => wrapped "TailCall" (ofCall c)
  | .delete p object property => wrapped "Delete" <| record "DeleteStmt"
      [("position", ofPosition p), ("object", ofText object), ("property", ofText property)]
  | .block b => wrapped "Block" (ofBlock b)
  | .label p name body => wrapped "Label" <| record "LabelStmt"
      [("position", ofPosition p), ("name", ofText name), ("body", ofStmt body)]

def ofStmts : List Stmt → List Outline
  | [] => []
  | s :: rest => ofStmt s :: ofStmts rest

def ofStmt? : Option Stmt → Outline
  | none => ofOption none
  | some s => ofOption (some (ofStmt s))

def ofBlock : Block → Outline
  | ⟨openBrace, statements, closeBrace⟩ => record "BlockStmt"
      [("lbrace", ofPosition openBrace), ("statements", list (ofStmts statements)),
       ("rbrace", ofPosition closeBrace)]

def ofBlock? : Option Block → Outline
  | none => ofOption none
  | some b => ofOption (some (ofBlock b))

def ofVarDecl : VarDecl → Outline
  | ⟨p, name, value, exported, isConst⟩ => record "VarDeclStmt"
      [("position", ofPosition p), ("name", ofText name), ("value", ofExpr value),
       ("exported", ofBool exported), ("is_const", ofBool isConst)]

def ofVarDecls : List VarDecl → List Outline
  | [] => []
  | d :: rest => ofVarDecl d :: ofVarDecls rest

def ofFuncDecl : FuncDecl → Outline
  | ⟨p, name, parameters, exported, attributes, body, receiver⟩ => record "FuncDeclStmt"
      [("position", ofPosition p), ("name", ofText name), ("arguments", ofParameters parameters),
       ("exported", ofBool exported), ("attributes", ofTexts attributes), ("body", ofBlock body),
       ("receiver_type", ofOption (receiver.map ofText))]

def ofFuncDecls : List FuncDecl → List Outline
  | [] => []
  | d :: rest => ofFuncDecl d :: ofFuncDecls rest

def ofClassDecl : ClassDecl → Outline
  | ⟨p, name, exported, attributes, fields, methods, getters, setters⟩ => record "ClassDeclStmt"
      [("position", ofPosition p), ("name", ofText name), ("exported", ofBool exported),
       ("attributes", ofTexts attributes), ("fields", list (ofVarDecls fields)),
       ("functions", list (ofFuncDecls methods)), ("getters", list (ofFuncDecls getters)),
       ("setters", list (ofFuncDecls setters))]

def ofBranches : List Branch → List Outline
  | [] => []
  | ⟨condition, body⟩ :: rest => record "IfBlock"
      [("condition", ofExpr condition), ("body", ofBlock body)] :: ofBranches rest

def ofHeader : ForHeader → Outline
  | .classic declarations condition step => record "Classic"
      [("declarations", list (ofStmts declarations)), ("condition", ofExpr? condition),
       ("step", ofStmt? step)]
  | .keys binding subject => record "In" [("binding", ofIdent binding), ("expr", ofExpr subject)]
  | .values binding subject => record "Of" [("binding", ofIdent binding), ("expr", ofExpr subject)]

def ofCase : CaseBlock → Outline
  | ⟨p, label, statements⟩ => record "CaseBlock"
      [("position", ofPosition p), ("expr", ofExpr? label), ("statements", list (ofStmts statements))]

def ofCases : List CaseBlock → List Outline
  | [] => []
  | b :: rest => ofCase b :: ofCases rest

def ofCase? : Option CaseBlock → Outline
  | none => ofOption none
  | some b => ofOption (some (ofCase b))

def ofCatch? : Option CatchClause → Outline
  | none => ofOption none
  | some ⟨p, binding, body⟩ => ofOption <| some <| record "CatchClause"
      [("position", ofPosition p), ("binding", ofOption (binding.map ofIdent)),
       ("body", ofBlock body)]

end

/-! ## Files -/

def ofImport (i : Import) : Outline :=
  record "ImportStmt" [("position", ofPosition i.position), ("path", ofText i.path),
    ("alias", ofText i.localName), ("resolved_path", ofText i.resolvedPath)]

def ofComment (c : Comment) : Outline :=
  record "Comment" [("position", ofPosition c.position), ("multi_line", ofBool c.multiLine),
    ("text", ofText c.text)]

def ofFile (f : File) : Outline :=
  record "File" [("path", ofText f.path), ("imports", list (f.imports.map ofImport)),
    ("statements", list (ofStmts f.statements)), ("attributes", ofTexts f.attributes),
    ("comments", list (f.comments.map ofComment)),
    ("global_declarations", list (ofStmts f.globals))]

end Outline

end ScriptFront
