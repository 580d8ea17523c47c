import ScriptFront.Tree

/-!
# Tail calls

A function whose last statement calls the function itself can reuse its frame. The call is recognised
by the name of the callee alone, so a local binding of that name counts as well.
-/

namespace ScriptFront

namespace Stmt

/-- The call that the statement makes or returns. -/
def finalCall? : Stmt → Option Call
  | returns _ (some (.call c)) => some c
  | call c => some c
  | _ => none

end Stmt

namespace Call

/-- Whether the callee is the plain name. -/
def isOf (c : Call) (name : String) : Bool :=
  match c.callee with
  | .identifier i => i.name == name
  | _ => false

end Call

namespace Stmt

/-- The last statement of a function called `name`, with a call of the function itself marked. -/
def markTailCall (name : String) (s : Stmt) : Stmt :=
  match s.finalCall? with
  | some c => if c.isOf name then tailCall c else s
  | none => s

/-- The same for a whole body. -/
def markLast (name : String) : List Stmt → List Stmt
  | [] => []
  | [s] => [s.markTailCall name]
  | s :: rest => s :: markLast name rest

end Stmt

namespace FuncDecl

def markTailCall (f : FuncDecl) : FuncDecl :=
  { f with body := { f.body with statements := Stmt.markLast f.name f.body.statements } }

end FuncDecl

end ScriptFront
