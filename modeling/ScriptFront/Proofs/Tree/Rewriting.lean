import ScriptFront.Tree

/-!
# Changing a whole tree

A rewriting changes every position and every function of a tree, from the inside out, and leaves
everything else as it is. `Rewriting.ofFunction` keeps the positions; `Rewriting.unplaced` forgets them,
so two trees are the same up to positions when it makes them equal.
-/

namespace ScriptFront

structure Rewriting where
  position : Position → Position
  /-- What becomes of a function whose inside is rewritten already. -/
  function : FuncDecl → FuncDecl

namespace Rewriting

/-- Changes functions and nothing else. -/
def ofFunction (f : FuncDecl → FuncDecl) : Rewriting := ⟨fun p => p, f⟩

/-- Puts everything at the same place. -/
def unplaced : Rewriting := ⟨fun _ => .start, fun f => f⟩

variable (r : Rewriting)

/-! ## Parts without expressions -/

def ident (i : Ident) : Ident := ⟨r.position i.position, i.name⟩

def parameter (p : Parameter) : Parameter := ⟨r.position p.position, p.name, p.optional⟩

def parameters (p : Parameters) : Parameters :=
  ⟨r.position p.opening, p.fields.map r.parameter, p.variadic⟩

def enumMember (m : EnumMember) : EnumMember := ⟨r.position m.position, m.name, m.kind, m.value⟩

def enumDecl (d : EnumDecl) : EnumDecl :=
  ⟨r.position d.position, d.name, d.exported, d.members.map r.enumMember⟩

/-! ## Expressions and statements -/

mutual

def expr : Expr → Expr
  | .constant p kind value => .constant (r.position p) kind value
  | .identifier i => .identifier (r.ident i)
  | .selector x member optional outermost => .selector (expr x) (r.ident member) optional outermost
  | .index x bracket key optional outermost =>
    .index (expr x) (r.position bracket) (expr key) optional outermost
  | .call c => .call (callOf c)
  | .newInstance p typeName arguments spread =>
    .newInstance (r.position p) (expr typeName) (exprs arguments) spread
  | .binary op left right => .binary op (expr left) (expr right)
  | .unary p op operand => .unary (r.position p) op (expr operand)
  | .ternary condition whenTrue whenFalse =>
    .ternary (expr condition) (expr whenTrue) (expr whenFalse)
  | .mapLiteral p es => .mapLiteral (r.position p) (entries es)
  | .arrayLiteral p es => .arrayLiteral (r.position p) (exprs es)
  | .function p parameters body => .function (r.position p) (r.parameters parameters) (block body)

def exprs : List Expr → List Expr
  | [] => []
  | e :: rest => expr e :: exprs rest

def expr? : Option Expr → Option Expr
  | none => none
  | some e => some (expr e)

def callOf : Call → Call
  | ⟨callee, paren, arguments, spread, optional, outermost⟩ =>
    ⟨expr callee, r.position paren, exprs arguments, spread, optional, outermost⟩

def entry : MapEntry → MapEntry
  | ⟨p, key, value⟩ => ⟨r.position p, key, expr value⟩

def entries : List MapEntry → List MapEntry
  | [] => []
  | e :: rest => entry e :: entries rest

def stmt : Stmt → Stmt
  | .varDecl d => .varDecl (varDecl d)
  | .funcDecl d => .funcDecl (funcDecl d)
  | .classDecl d => .classDecl (classDecl d)
  | .enumDecl d => .enumDecl (r.enumDecl d)
  | .ifElse p bs otherwise => .ifElse (r.position p) (branches bs) (block? otherwise)
  | .whileLoop p condition body => .whileLoop (r.position p) (expr condition) (block body)
  | .forLoop p head body => .forLoop (r.position p) (header head) (block body)
  | .switch p subject bs otherwise =>
    .switch (r.position p) (expr subject) (caseBlocks bs) (caseBlock? otherwise)
  | .breaks p label => .breaks (r.position p) label
  | .continues p label => .continues (r.position p) label
  | .returns p value => .returns (r.position p) (expr? value)
  | .throws p value => .throws (r.position p) (expr value)
  | .tryCatch p body handler finalizer =>
    .tryCatch (r.position p) (block body) (catchClause? handler) (block? finalizer)
  | .call c => .call (callOf c)
  | .assign left value => .assign (expr left) (expr value)
  | .step op target => .step op (expr target)
  | .tailCall c => .tailCall (callOf c)
  | .delete p object property => .delete (r.position p) object property
  | .block b => .block (block b)
  | .label p name body => .label (r.position p) name (stmt body)

def stmts : List Stmt → List Stmt
  | [] => []
  | s :: rest => stmt s :: stmts rest

def stmt? : Option Stmt → Option Stmt
  | none => none
  | some s => some (stmt s)

def block : Block → Block
  | ⟨openBrace, statements, closeBrace⟩ =>
    ⟨r.position openBrace, stmts statements, r.position closeBrace⟩

def block? : Option Block → Option Block
  | none => none
  | some b => some (block b)

def varDecl : VarDecl → VarDecl
  | ⟨p, name, value, exported, isConst⟩ => ⟨r.position p, name, expr value, exported, isConst⟩

def varDecls : List VarDecl → List VarDecl
  | [] => []
  | d :: rest => varDecl d :: varDecls rest

def funcDecl : FuncDecl → FuncDecl
  | ⟨p, name, parameters, exported, attributes, body, receiver⟩ =>
    r.function ⟨r.position p, name, r.parameters parameters, exported, attributes, block body,
      receiver⟩

def funcDecls : List FuncDecl → List FuncDecl
  | [] => []
  | d :: rest => funcDecl d :: funcDecls rest

def classDecl : ClassDecl → ClassDecl
  | ⟨p, name, exported, attributes, fields, methods, getters, setters⟩ =>
    ⟨r.position p, name, exported, attributes, varDecls fields, funcDecls methods,
      funcDecls getters, funcDecls setters⟩

def branch : Branch → Branch
  | ⟨condition, body⟩ => ⟨expr condition, block body⟩

def branches : List Branch → List Branch
  | [] => []
  | b :: rest => branch b :: branches rest

def header : ForHeader → ForHeader
  | .classic declarations condition step =>
    .classic (stmts declarations) (expr? condition) (stmt? step)
  | .keys binding subject => .keys (r.ident binding) (expr subject)
  | .values binding subject => .values (r.ident binding) (expr subject)

def caseBlock : CaseBlock → CaseBlock
  | ⟨p, label, statements⟩ => ⟨r.position p, expr? label, stmts statements⟩

def caseBlocks : List CaseBlock → List CaseBlock
  | [] => []
  | b :: rest => caseBlock b :: caseBlocks rest

def caseBlock? : Option CaseBlock → Option CaseBlock
  | none => none
  | some b => some (caseBlock b)

def catchClause : CatchClause → CatchClause
  | ⟨p, binding, body⟩ => ⟨r.position p, binding.map r.ident, block body⟩

def catchClause? : Option CatchClause → Option CatchClause
  | none => none
  | some c => some (catchClause c)

end

/-! ## Lists and parts that may be missing -/

@[simp] theorem exprs_eq_map (es : List Expr) : r.exprs es = es.map r.expr := by
  induction es with
  | nil => rw [exprs, List.map_nil]
  | cons e es ih => rw [exprs, ih, List.map_cons]

@[simp] theorem entries_eq_map (es : List MapEntry) : r.entries es = es.map r.entry := by
  induction es with
  | nil => rw [entries, List.map_nil]
  | cons e es ih => rw [entries, ih, List.map_cons]

@[simp] theorem stmts_eq_map (ss : List Stmt) : r.stmts ss = ss.map r.stmt := by
  induction ss with
  | nil => rw [stmts, List.map_nil]
  | cons s ss ih => rw [stmts, ih, List.map_cons]

@[simp] theorem varDecls_eq_map (ds : List VarDecl) : r.varDecls ds = ds.map r.varDecl := by
  induction ds with
  | nil => rw [varDecls, List.map_nil]
  | cons d ds ih => rw [varDecls, ih, List.map_cons]

@[simp] theorem funcDecls_eq_map (ds : List FuncDecl) : r.funcDecls ds = ds.map r.funcDecl := by
  induction ds with
  | nil => rw [funcDecls, List.map_nil]
  | cons d ds ih => rw [funcDecls, ih, List.map_cons]

@[simp] theorem branches_eq_map (bs : List Branch) : r.branches bs = bs.map r.branch := by
  induction bs with
  | nil => rw [branches, List.map_nil]
  | cons b bs ih => rw [branches, ih, List.map_cons]

@[simp] theorem caseBlocks_eq_map (bs : List CaseBlock) : r.caseBlocks bs = bs.map r.caseBlock := by
  induction bs with
  | nil => rw [caseBlocks, List.map_nil]
  | cons b bs ih => rw [caseBlocks, ih, List.map_cons]

@[simp] theorem expr?_eq_map (e : Option Expr) : r.expr? e = e.map r.expr := by
  cases e <;> simp [expr?]

@[simp] theorem stmt?_eq_map (s : Option Stmt) : r.stmt? s = s.map r.stmt := by
  cases s <;> simp [stmt?]

@[simp] theorem block?_eq_map (b : Option Block) : r.block? b = b.map r.block := by
  cases b <;> simp [block?]

@[simp] theorem caseBlock?_eq_map (b : Option CaseBlock) :
    r.caseBlock? b = b.map r.caseBlock := by
  cases b <;> simp [caseBlock?]

@[simp] theorem catchClause?_eq_map (c : Option CatchClause) :
    r.catchClause? c = c.map r.catchClause := by
  cases c <;> simp [catchClause?]

/-! ## What a rewriting keeps -/

@[simp] theorem position_expr (e : Expr) : (r.expr e).position = r.position e.position := by
  fun_induction Expr.position e <;> simp_all [expr, callOf, Expr.position, ident]

theorem expr_markOutermost (e : Expr) : r.expr e.markOutermost = (r.expr e).markOutermost := by
  cases e with
  | call c => cases c; simp [Expr.markOutermost, expr, callOf]
  | _ => simp [Expr.markOutermost, expr]

theorem isControlTransfer_stmt (s : Stmt) :
    (r.stmt s).isControlTransfer = s.isControlTransfer := by
  cases s <;> simp [stmt, Stmt.isControlTransfer]

end Rewriting

end ScriptFront
