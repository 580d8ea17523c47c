import ScriptFront.Operator
import ScriptFront.Text.Position

/-!
# Syntax trees

Expressions, statements and declarations. Types never get into the tree: they are read and dropped.
Positions are kept where a later stage reports something; the position of an expression that starts
with another one is the position of that one.
-/

namespace ScriptFront

/-! ## Parts without expressions -/

/-- A name at a place. -/
structure Ident where
  position : Position
  name : String
deriving DecidableEq, Repr

inductive ConstantKind where
  | int | float | string | rune | true | false | null | undefined
deriving DecidableEq, Repr

structure Parameter where
  position : Position
  name : String
  /-- Written with a question mark. -/
  optional : Bool
deriving DecidableEq, Repr

structure Parameters where
  /-- The place of the opening parenthesis. -/
  opening : Position
  fields : List Parameter
  /-- The last one takes the rest of the arguments. -/
  variadic : Bool
deriving DecidableEq, Repr

inductive EnumValueKind where
  | int | string
deriving DecidableEq, Repr

structure EnumMember where
  position : Position
  name : String
  kind : EnumValueKind
  /-- The digits of a number or the value of a string. -/
  value : String
deriving DecidableEq, Repr

structure EnumDecl where
  position : Position
  name : String
  exported : Bool
  members : List EnumMember
deriving DecidableEq, Repr

/-! ## Expressions and statements -/

mutual

inductive Expr where
  | constant (position : Position) (kind : ConstantKind) (value : String)
  | identifier (name : Ident)
  /-- `target.member`, or `target?.member` when `optional`. Here and in the other two links of a
  postfix chain, `outermost` marks the last link. -/
  | selector (target : Expr) (member : Ident) (optional outermost : Bool)
  | index (target : Expr) (bracket : Position) (key : Expr) (optional outermost : Bool)
  | call (call : Call)
  /-- The type name is an identifier or one selector on an identifier. -/
  | newInstance (position : Position) (typeName : Expr) (arguments : List Expr) (spread : Bool)
  | binary (op : BinaryOperator) (left right : Expr)
  | unary (position : Position) (op : UnaryOperator) (operand : Expr)
  | ternary (condition whenTrue whenFalse : Expr)
  | mapLiteral (position : Position) (entries : List MapEntry)
  | arrayLiteral (position : Position) (elements : List Expr)
  | function (position : Position) (parameters : Parameters) (body : Block)

structure Call where
  callee : Expr
  paren : Position
  arguments : List Expr
  /-- The last argument is spread. -/
  spread : Bool
  optional : Bool
  outermost : Bool

structure MapEntry where
  position : Position
  key : String
  value : Expr

inductive Stmt where
  | varDecl (decl : VarDecl)
  | funcDecl (decl : FuncDecl)
  | classDecl (decl : ClassDecl)
  | enumDecl (decl : EnumDecl)
  | ifElse (position : Position) (branches : List Branch) (otherwise : Option Block)
  | whileLoop (position : Position) (condition : Expr) (body : Block)
  | forLoop (position : Position) (header : ForHeader) (body : Block)
  | switch (position : Position) (subject : Expr) (cases : List CaseBlock)
      (otherwise : Option CaseBlock)
  | breaks (position : Position) (label : Option String)
  | continues (position : Position) (label : Option String)
  | returns (position : Position) (value : Option Expr)
  | throws (position : Position) (value : Expr)
  | tryCatch (position : Position) (body : Block) (handler : Option CatchClause)
      (finalizer : Option Block)
  | call (call : Call)
  | assign (left value : Expr)
  | step (op : StepOperator) (target : Expr)
  /-- A call of the enclosing function in final place, which can reuse its frame. -/
  | tailCall (call : Call)
  | delete (position : Position) (object property : String)
  | block (block : Block)
  | label (position : Position) (name : String) (body : Stmt)

structure Block where
  openBrace : Position
  statements : List Stmt
  closeBrace : Position

structure VarDecl where
  position : Position
  name : String
  value : Expr
  exported : Bool
  isConst : Bool

structure FuncDecl where
  position : Position
  name : String
  parameters : Parameters
  exported : Bool
  attributes : List String
  body : Block
  /-- The type that the function is a method of, when it is added to the prototype of a type. -/
  receiver : Option String

structure ClassDecl where
  position : Position
  name : String
  exported : Bool
  attributes : List String
  fields : List VarDecl
  methods : List FuncDecl
  getters : List FuncDecl
  setters : List FuncDecl

/-- One condition of an `if` with the block behind it. -/
structure Branch where
  condition : Expr
  body : Block

inductive ForHeader where
  | classic (declarations : List Stmt) (condition : Option Expr) (step : Option Stmt)
  | keys (binding : Ident) (subject : Expr)
  | values (binding : Ident) (subject : Expr)

/-- The statements behind a `case`, or behind `default` when there is no label. -/
structure CaseBlock where
  position : Position
  label : Option Expr
  statements : List Stmt

structure CatchClause where
  position : Position
  binding : Option Ident
  body : Block

end

namespace Expr

/-- Where the expression starts. -/
def position : Expr → Position
  | constant p _ _ => p
  | identifier i => i.position
  | selector x _ _ _ => x.position
  | index x _ _ _ _ => x.position
  | call ⟨x, _, _, _, _, _⟩ => x.position
  | newInstance p _ _ _ => p
  | binary _ x _ => x.position
  | unary p _ _ => p
  | ternary x _ _ => x.position
  | mapLiteral p _ => p
  | arrayLiteral p _ => p
  | function p _ _ => p

/-- Marks a link as the last one of its chain; other expressions stay as they are. -/
def markOutermost : Expr → Expr
  | selector x m o _ => selector x m o true
  | index x b k o _ => index x b k o true
  | call c => call { c with outermost := true }
  | e => e

/-- The value of a variable that is declared without one. -/
def undefinedAt (p : Position) : Expr := constant p .undefined "undefined"

end Expr

namespace Stmt

/-- Where the statement starts; a declaration starts where its name or its keyword stands. -/
def position : Stmt → Position
  | varDecl d => d.position
  | funcDecl d => d.position
  | classDecl d => d.position
  | enumDecl d => d.position
  | ifElse p _ _ | whileLoop p _ _ | forLoop p _ _ | switch p _ _ _ => p
  | breaks p _ | continues p _ | returns p _ | throws p _ | tryCatch p _ _ _ => p
  | call c | tailCall c => c.callee.position
  | assign x _ => x.position
  | step _ x => x.position
  | delete p _ _ => p
  | block b => b.openBrace
  | label p _ _ => p

/-- Whether control never falls off the end of the statement. -/
def isControlTransfer : Stmt → Bool
  | breaks _ _ | continues _ _ | returns _ _ | throws _ _ => true
  | _ => false

end Stmt

end ScriptFront
