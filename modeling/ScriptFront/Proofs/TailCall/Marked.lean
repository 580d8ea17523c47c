import ScriptFront.Proofs.Tree.Rewriting
import ScriptFront.Tree.File
import ScriptFront.Tree.TailCall

/-!
# Marked trees

What a tree looks like with its tail calls marked: in every function that is no method of a prototype,
the last statement of the body is a tail call if it calls the function by its name, alone or behind
`return`.
-/

namespace ScriptFront

/-- Whether the callee is an identifier of this name. -/
def Call.names (c : Call) (name : String) : Bool :=
  match c.callee with
  | .identifier ⟨_, n⟩ => n == name
  | _ => false

/-- A statement at the end of a function of this name. -/
def Stmt.atEndOf (name : String) : Stmt → Stmt
  | .returns p (some (.call c)) =>
    if c.names name then .tailCall c else .returns p (some (.call c))
  | .call c => if c.names name then .tailCall c else .call c
  | s => s

/-- Statements that are the body of a function of this name. -/
def Stmt.bodyOf (name : String) (body : List Stmt) : List Stmt :=
  match body.getLast? with
  | some s => body.dropLast ++ [s.atEndOf name]
  | none => body

/-- A function with its own tail call marked. -/
def FuncDecl.ended (f : FuncDecl) : FuncDecl :=
  match f.receiver with
  | some _ => f
  | none => { f with body := { f.body with statements := Stmt.bodyOf f.name f.body.statements } }

/-- Marks the tail call of every function in a tree. -/
def Rewriting.tailCalls : Rewriting := .ofFunction FuncDecl.ended

/-- A file with the tail call of every function marked, wherever it stands. -/
def File.tailCallsMarked (f : File) : File :=
  { f with
    statements := f.statements.map Rewriting.tailCalls.stmt
    globals := f.globals.map Rewriting.tailCalls.stmt }

/-! ## The parser's marks -/

theorem Call.isOf_eq (c : Call) (name : String) : c.isOf name = c.names name := by
  obtain ⟨callee, -, -, -, -, -⟩ := c
  cases callee <;> rfl

theorem Stmt.markTailCall_eq (name : String) (s : Stmt) : s.markTailCall name = s.atEndOf name := by
  unfold markTailCall
  cases s with
  | call c => simp only [finalCall?, atEndOf, Call.isOf_eq]
  | returns p value =>
    rcases value with - | ⟨- | - | - | - | c⟩ <;> simp only [finalCall?, atEndOf, Call.isOf_eq]
  | _ => rfl

theorem Stmt.markLast_eq (name : String) (body : List Stmt) :
    markLast name body = bodyOf name body := by
  unfold bodyOf
  induction body with
  | nil => rfl
  | cons s rest ih =>
    cases rest with
    | nil => exact congrArg ([·]) (markTailCall_eq name s)
    | cons s' rest =>
      rw [markLast, ih, List.getLast?_cons_cons, List.dropLast_cons_cons]
      · split <;> rfl
      · exact List.cons_ne_nil s' rest

/-- What the parser marks in a function that is no method of a prototype. -/
theorem FuncDecl.markTailCall_eq {f : FuncDecl} (hf : f.receiver = none) :
    f.markTailCall = f.ended := by
  unfold markTailCall ended
  rw [hf, Stmt.markLast_eq]

/-! ## What marking keeps -/

namespace Rewriting

@[simp] theorem tailCalls_position (p : Position) : tailCalls.position p = p := rfl

@[simp] theorem tailCalls_ident (i : Ident) : tailCalls.ident i = i := rfl

@[simp] theorem tailCalls_parameters (p : Parameters) : tailCalls.parameters p = p := by
  have hfields : p.fields.map tailCalls.parameter = p.fields := p.fields.map_id
  rw [parameters, hfields]
  rfl

@[simp] theorem tailCalls_enumDecl (d : EnumDecl) : tailCalls.enumDecl d = d := by
  have hmembers : d.members.map tailCalls.enumMember = d.members := d.members.map_id
  rw [enumDecl, hmembers]
  rfl

@[simp] theorem tailCalls_funcDecl (f : FuncDecl) :
    tailCalls.funcDecl f = { f with body := tailCalls.block f.body }.ended := by
  obtain ⟨p, name, parameters, exported, attributes, body, receiver⟩ := f
  rw [funcDecl, tailCalls_parameters]
  rfl

end Rewriting

end ScriptFront
