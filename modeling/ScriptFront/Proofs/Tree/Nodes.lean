import ScriptFront.Tree

/-!
# What stands in a tree

A node is an expression or a statement. `Node.parts` are the nodes right below one, `Node.Holds` is the
relation between a tree and every node in it, at any depth. The members of a class stand in it as the
variables and functions that they declare.
-/

namespace ScriptFront

/-- An expression or a statement. -/
inductive Node where
  | expr (e : Expr)
  | stmt (s : Stmt)

/-! ## The nodes right below -/

namespace Block

def parts (b : Block) : List Node := b.statements.map .stmt

end Block

namespace Call

def parts (c : Call) : List Node := .expr c.callee :: c.arguments.map .expr

end Call

namespace Branch

def parts (b : Branch) : List Node := .expr b.condition :: b.body.parts

end Branch

namespace CaseBlock

def parts (b : CaseBlock) : List Node := b.label.toList.map .expr ++ b.statements.map .stmt

end CaseBlock

namespace CatchClause

def parts (c : CatchClause) : List Node := c.body.parts

end CatchClause

namespace ForHeader

def parts : ForHeader → List Node
  | classic declarations condition step =>
    declarations.map .stmt ++ condition.toList.map .expr ++ step.toList.map .stmt
  | keys _ subject => [.expr subject]
  | values _ subject => [.expr subject]

end ForHeader

namespace ClassDecl

def parts (c : ClassDecl) : List Node :=
  c.fields.map (fun d => .stmt (.varDecl d)) ++ c.methods.map (fun f => .stmt (.funcDecl f)) ++
    c.getters.map (fun f => .stmt (.funcDecl f)) ++ c.setters.map (fun f => .stmt (.funcDecl f))

end ClassDecl

namespace Expr

def parts : Expr → List Node
  | constant .. => []
  | identifier _ => []
  | selector target _ _ _ => [.expr target]
  | index target _ key _ _ => [.expr target, .expr key]
  | call c => c.parts
  | newInstance _ typeName arguments _ => .expr typeName :: arguments.map .expr
  | binary _ left right => [.expr left, .expr right]
  | unary _ _ operand => [.expr operand]
  | ternary condition whenTrue whenFalse => [.expr condition, .expr whenTrue, .expr whenFalse]
  | mapLiteral _ entries => entries.map fun e => .expr e.value
  | arrayLiteral _ elements => elements.map .expr
  | function _ _ body => body.parts

end Expr

namespace Stmt

def parts : Stmt → List Node
  | varDecl d => [.expr d.value]
  | funcDecl f => f.body.parts
  | classDecl c => c.parts
  | enumDecl _ => []
  | ifElse _ branches otherwise =>
    branches.flatMap Branch.parts ++ otherwise.toList.flatMap Block.parts
  | whileLoop _ condition body => .expr condition :: body.parts
  | forLoop _ header body => header.parts ++ body.parts
  | switch _ subject cases otherwise =>
    .expr subject :: (cases ++ otherwise.toList).flatMap CaseBlock.parts
  | breaks _ _ => []
  | continues _ _ => []
  | returns _ value => value.toList.map .expr
  | throws _ value => [.expr value]
  | tryCatch _ body handler finalizer =>
    body.parts ++ handler.toList.flatMap CatchClause.parts ++ finalizer.toList.flatMap Block.parts
  | call c => c.parts
  | assign left value => [.expr left, .expr value]
  | step _ target => [.expr target]
  | tailCall c => c.parts
  | delete _ _ _ => []
  | block b => b.parts
  | label _ _ body => [.stmt body]

end Stmt

namespace Node

def parts : Node → List Node
  | expr e => e.parts
  | stmt s => s.parts

/-! ## Every node of a tree -/

/-- `n.Holds m` says that `m` is `n` or stands in it, at any depth. -/
inductive Holds : Node → Node → Prop where
  | self (n : Node) : Holds n n
  | inside {n part m : Node} (hpart : part ∈ n.parts) (h : Holds part m) : Holds n m

theorem holds_iff {n m : Node} : n.Holds m ↔ m = n ∨ ∃ part ∈ n.parts, part.Holds m := by
  constructor
  · intro h
    cases h with
    | self => exact .inl rfl
    | inside hpart h => exact .inr ⟨_, hpart, h⟩
  · rintro (rfl | ⟨part, hpart, h⟩)
    · exact .self m
    · exact .inside hpart h

/-- Whether all nodes of a tree are as `P` says. -/
def Everywhere (P : Node → Prop) (n : Node) : Prop := ∀ m, n.Holds m → P m

variable {P : Node → Prop} {n : Node}

theorem everywhere_iff : n.Everywhere P ↔ P n ∧ ∀ part ∈ n.parts, part.Everywhere P := by
  constructor
  · intro h
    exact ⟨h n (.self n), fun part hpart m hm => h m (.inside hpart hm)⟩
  · rintro ⟨hself, hparts⟩ m hm
    cases hm with
    | self => exact hself
    | inside hpart h => exact hparts _ hpart m h

theorem Everywhere.self (h : n.Everywhere P) : P n := (everywhere_iff.1 h).1

theorem Everywhere.parts (h : n.Everywhere P) : ∀ part ∈ n.parts, part.Everywhere P :=
  (everywhere_iff.1 h).2

end Node

end ScriptFront
