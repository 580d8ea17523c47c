import ScriptFront.Production.Statement
import ScriptFront.Proofs.Tree.Rewriting

/-!
# What the grammar asks of a tree

Some productions look at a tree that has been read before: which constant labels a case, whether control
runs off the end of a case, which call an expression is. The answer is the same in a rewritten tree.
-/

namespace ScriptFront

namespace Expr

/-- The kind and the text of a constant. -/
def constant? : Expr → Option (ConstantKind × String)
  | .constant _ kind value => some (kind, value)
  | _ => none

def call? : Expr → Option Call
  | .call c => some c
  | _ => none

theorem constant?_eq_some {e : Expr} {kind : ConstantKind} {value : String} :
    e.constant? = some (kind, value) ↔ ∃ p, e = .constant p kind value := by
  cases e <;> simp [constant?]

theorem call?_eq_some {e : Expr} {c : Call} : e.call? = some c ↔ e = .call c := by
  cases e <;> simp [call?]

end Expr

namespace Rewriting

variable (r : Rewriting)

theorem constant?_expr (e : Expr) : (r.expr e).constant? = e.constant? := by
  cases e <;> simp [expr, Expr.constant?]

theorem call?_expr (e : Expr) : (r.expr e).call? = e.call?.map r.callOf := by
  cases e <;> simp [expr, Expr.call?]

theorem isFor_caseBlock (b : CaseBlock) (kind : ConstantKind) (value : String) :
    (r.caseBlock b).isFor kind value = b.isFor kind value := by
  obtain ⟨p, label, statements⟩ := b
  rcases label with - | e
  · simp [caseBlock, CaseBlock.isFor]
  · cases e <;> simp [caseBlock, CaseBlock.isFor, expr]

theorem isDefault_caseBlock (b : CaseBlock) : (r.caseBlock b).isDefault = b.isDefault := by
  obtain ⟨p, label, statements⟩ := b
  simp [caseBlock, CaseBlock.isDefault]

theorem fallsThrough_caseBlock (b : CaseBlock) : (r.caseBlock b).fallsThrough = b.fallsThrough := by
  obtain ⟨p, label, statements⟩ := b
  unfold CaseBlock.fallsThrough
  simp only [caseBlock, stmts_eq_map, List.getLast?_map]
  cases statements.getLast? with
  | none => rfl
  | some s => exact congrArg (!·) (r.isControlTransfer_stmt s)

end Rewriting

end ScriptFront
