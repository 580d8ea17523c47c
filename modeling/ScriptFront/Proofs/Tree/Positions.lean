import ScriptFront.Tree.File

/-!
# The positions of a tree

All positions that are stored in a tree or in a file, in the order of the fields.
-/

namespace ScriptFront

namespace Positions

/-! ## Parts without expressions -/

def ident (i : Ident) : List Position := [i.position]

def parameters (p : Parameters) : List Position := p.opening :: p.fields.map (·.position)

def enumDecl (d : EnumDecl) : List Position := d.position :: d.members.map (·.position)

/-! ## Expressions and statements -/

mutual

def expr : Expr → List Position
  | .constant p _ _ => [p]
  | .identifier i => ident i
  | .selector x member _ _ => expr x ++ ident member
  | .index x bracket key _ _ => expr x ++ bracket :: expr key
  | .call c => callOf c
  | .newInstance p typeName arguments _ => p :: (expr typeName ++ exprs arguments)
  | .binary _ left right => expr left ++ expr right
  | .unary p _ operand => p :: expr operand
  | .ternary condition whenTrue whenFalse => expr condition ++ (expr whenTrue ++ expr whenFalse)
  | .mapLiteral p es => p :: entries es
  | .arrayLiteral p es => p :: exprs es
  | .function p ps body => p :: (parameters ps ++ block body)

def exprs : List Expr → List Position
  | [] => []
  | e :: rest => expr e ++ exprs rest

def expr? : Option Expr → List Position
  | none => []
  | some e => expr e

def callOf : Call → List Position
  | ⟨callee, paren, arguments, _, _, _⟩ => expr callee ++ paren :: exprs arguments

def entry : MapEntry → List Position
  | ⟨p, _, value⟩ => p :: expr value

def entries : List MapEntry → List Position
  | [] => []
  | e :: rest => entry e ++ entries rest

def stmt : Stmt → List Position
  | .varDecl d => varDecl d
  | .funcDecl d => funcDecl d
  | .classDecl d => classDecl d
  | .enumDecl d => enumDecl d
  | .ifElse p bs otherwise => p :: (branches bs ++ block? otherwise)
  | .whileLoop p condition body => p :: (expr condition ++ block body)
  | .forLoop p head body => p :: (header head ++ block body)
  | .switch p subject bs otherwise => p :: (expr subject ++ (caseBlocks bs ++ caseBlock? otherwise))
  | .breaks p _ => [p]
  | .continues p _ => [p]
  | .returns p value => p :: expr? value
  | .throws p value => p :: expr value
  | .tryCatch p body handler finalizer => p :: (block body ++ (catchClause? handler ++ block? finalizer))
  | .call c => callOf c
  | .assign left value => expr left ++ expr value
  | .step _ target => expr target
  | .tailCall c => callOf c
  | .delete p _ _ => [p]
  | .block b => block b
  | .label p _ body => p :: stmt body

def stmts : List Stmt → List Position
  | [] => []
  | s :: rest => stmt s ++ stmts rest

def stmt? : Option Stmt → List Position
  | none => []
  | some s => stmt s

def block : Block → List Position
  | ⟨openBrace, statements, closeBrace⟩ => openBrace :: (stmts statements ++ [closeBrace])

def block? : Option Block → List Position
  | none => []
  | some b => block b

def varDecl : VarDecl → List Position
  | ⟨p, _, value, _, _⟩ => p :: expr value

def varDecls : List VarDecl → List Position
  | [] => []
  | d :: rest => varDecl d ++ varDecls rest

def funcDecl : FuncDecl → List Position
  | ⟨p, _, ps, _, _, body, _⟩ => p :: (parameters ps ++ block body)

def funcDecls : List FuncDecl → List Position
  | [] => []
  | d :: rest => funcDecl d ++ funcDecls rest

def classDecl : ClassDecl → List Position
  | ⟨p, _, _, _, fields, methods, getters, setters⟩ =>
    p :: (varDecls fields ++ (funcDecls methods ++ (funcDecls getters ++ funcDecls setters)))

def branch : Branch → List Position
  | ⟨condition, body⟩ => expr condition ++ block body

def branches : List Branch → List Position
  | [] => []
  | b :: rest => branch b ++ branches rest

def header : ForHeader → List Position
  | .classic declarations condition step => stmts declarations ++ (expr? condition ++ stmt? step)
  | .keys binding subject => ident binding ++ expr subject
  | .values binding subject => ident binding ++ expr subject

def caseBlock : CaseBlock → List Position
  | ⟨p, label, statements⟩ => p :: (expr? label ++ stmts statements)

def caseBlocks : List CaseBlock → List Position
  | [] => []
  | b :: rest => caseBlock b ++ caseBlocks rest

def caseBlock? : Option CaseBlock → List Position
  | none => []
  | some b => caseBlock b

def catchClause : CatchClause → List Position
  | ⟨p, binding, body⟩ => p :: (binding.toList.map (·.position) ++ block body)

def catchClause? : Option CatchClause → List Position
  | none => []
  | some c => catchClause c

end

/-! ## Lists and parts that may be missing -/

@[simp] theorem exprs_eq_flatMap (es : List Expr) : exprs es = es.flatMap expr := by
  induction es with
  | nil => rw [exprs, List.flatMap_nil]
  | cons e es ih => rw [exprs, ih, List.flatMap_cons]

@[simp] theorem entries_eq_flatMap (es : List MapEntry) : entries es = es.flatMap entry := by
  induction es with
  | nil => rw [entries, List.flatMap_nil]
  | cons e es ih => rw [entries, ih, List.flatMap_cons]

@[simp] theorem stmts_eq_flatMap (ss : List Stmt) : stmts ss = ss.flatMap stmt := by
  induction ss with
  | nil => rw [stmts, List.flatMap_nil]
  | cons s ss ih => rw [stmts, ih, List.flatMap_cons]

@[simp] theorem varDecls_eq_flatMap (ds : List VarDecl) : varDecls ds = ds.flatMap varDecl := by
  induction ds with
  | nil => rw [varDecls, List.flatMap_nil]
  | cons d ds ih => rw [varDecls, ih, List.flatMap_cons]

@[simp] theorem funcDecls_eq_flatMap (ds : List FuncDecl) : funcDecls ds = ds.flatMap funcDecl := by
  induction ds with
  | nil => rw [funcDecls, List.flatMap_nil]
  | cons d ds ih => rw [funcDecls, ih, List.flatMap_cons]

@[simp] theorem branches_eq_flatMap (bs : List Branch) : branches bs = bs.flatMap branch := by
  induction bs with
  | nil => rw [branches, List.flatMap_nil]
  | cons b bs ih => rw [branches, ih, List.flatMap_cons]

@[simp] theorem caseBlocks_eq_flatMap (bs : List CaseBlock) : caseBlocks bs = bs.flatMap caseBlock := by
  induction bs with
  | nil => rw [caseBlocks, List.flatMap_nil]
  | cons b bs ih => rw [caseBlocks, ih, List.flatMap_cons]

@[simp] theorem expr?_eq_flatMap (e : Option Expr) : expr? e = e.toList.flatMap expr := by
  cases e <;> simp [expr?]

@[simp] theorem stmt?_eq_flatMap (s : Option Stmt) : stmt? s = s.toList.flatMap stmt := by
  cases s <;> simp [stmt?]

@[simp] theorem block?_eq_flatMap (b : Option Block) : block? b = b.toList.flatMap block := by
  cases b <;> simp [block?]

@[simp] theorem caseBlock?_eq_flatMap (b : Option CaseBlock) :
    caseBlock? b = b.toList.flatMap caseBlock := by
  cases b <;> simp [caseBlock?]

@[simp] theorem catchClause?_eq_flatMap (c : Option CatchClause) :
    catchClause? c = c.toList.flatMap catchClause := by
  cases c <;> simp [catchClause?]

/-- Where an expression starts is one of its positions, the first that is stored in it. -/
theorem head?_expr (e : Expr) : (expr e).head? = some e.position := by
  fun_induction Expr.position e <;> simp_all [expr, callOf, ident]

end Positions

/-- All positions of a file. -/
def File.positions (f : File) : List Position :=
  f.imports.map (·.position) ++ f.statements.flatMap Positions.stmt ++ f.comments.map (·.position) ++
    f.globals.flatMap Positions.stmt

end ScriptFront
