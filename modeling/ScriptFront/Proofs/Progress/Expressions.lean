import ScriptFront.Proofs.Progress.Types

/-!
# Expressions are steady

An expression inside another one is read behind a bracket, an operator or a keyword of the outer one.
-/

set_option synthInstance.maxSize 4000

namespace ScriptFront.Grammar

open Production Steady

variable {g : Grammar} [hg : g.Progress] {keep : Token → Bool}

/-! ## Parameters and arguments -/

instance : Steady g keep .start g.parameters := by
  unfold parameters
  dsimp only
  infer_instance

instance : Steady g keep .read g.arguments := by
  unfold arguments
  refine readThen (.loop (by decide) (fun items => ?_) (fun items => ?_) _) inferInstance
  · refine readThen inferInstance fun closed => @Steady.ite _ _ _ _ _ _ _ _ inferInstance ?_
    refine readThen inferInstance fun dots => ?_
    split <;> infer_instance
  · refine @Spends.bind _ _ _ _ _ _ fun closed => @Spends.ite _ _ _ _ _ _ inferInstance ?_
    refine @Spends.bind _ _ _ _ _ _ fun dots => ?_
    split <;> infer_instance

instance (target : Expr) (optional : Bool) : Steady g keep .start (selector target optional) := by
  unfold selector
  infer_instance

instance (target : Expr) (optional : Bool) : Steady g keep .start (g.index target optional) := by
  unfold index
  infer_instance

instance (callee : Expr) (optional : Bool) : Steady g keep .start (g.call callee optional) := by
  unfold call
  infer_instance

/-! ## Postfix chains -/

instance (e : Expr) : Steady g keep .start (g.link e) := by
  unfold link
  refine startThen inferInstance fun kind => ?_
  split
  · infer_instance
  · refine startThen inferInstance fun _ => startThen inferInstance fun kind => ?_
    split <;> infer_instance
  all_goals infer_instance

/-- There is a token at least to a link. -/
theorem link_pays (e : Expr) : Reads (fun e' => e'.isSome.toNat) (g.link e) := by
  have hnone : Reads (fun e' : Option Expr => e'.isSome.toNat) (Pure.pure none) := .pure rfl
  have hsome : ∀ e' : Option Expr, e'.isSome.toNat ≤ 1 := fun e' => Bool.toNat_le _
  unfold link
  refine .peekKindThen hnone fun kind => ?_
  split
  · exact ConsumesInside.inside hsome
  · refine @ConsumesInside.inside _ _ (@ConsumesInside.bind_left _ _ _ _ _ fun _ => ?_) _ hsome
    refine @Advances.bind _ _ _ _ _ fun kind => ?_
    split <;> infer_instance
  · exact ConsumesInside.inside hsome
  · exact ConsumesInside.inside hsome
  · exact hnone.inside

instance (e : Expr) : Steady g keep .start (g.chain e) := by
  unfold chain
  refine .loop (by decide) (fun s => startThen inferInstance fun e' => ?_) (fun s => ⟨?_⟩) _
  · split <;> infer_instance
  · refine (link_pays s.1).bind fun e' => ?_
    cases e' <;> exact .pure rfl

/-! ## Primary expressions -/

instance : Steady g keep .start g.newInstance := by
  unfold newInstance
  dsimp only
  infer_instance

instance : Steady g keep .start g.arrayLiteral := by
  unfold arrayLiteral
  infer_instance

instance : Consumes g.mapEntry := by
  unfold mapEntry
  dsimp only
  infer_instance

instance : Steady g keep .start g.mapEntry := by
  unfold mapEntry
  dsimp only
  infer_instance

instance : Steady g keep .start g.mapLiteral := by
  unfold mapLiteral
  infer_instance

instance : Steady g keep .start g.functionRest := by
  unfold functionRest
  infer_instance

instance : Steady g keep .start g.functionLiteral := by
  unfold functionLiteral
  infer_instance

instance : Steady g keep .start g.primary := by
  unfold primary
  refine peekThen (fun t ht => ?_) fun t => ?_
  · rw [ht]
    exact failHere_instance _
  · split
    · infer_instance
    · split
      · refine @bind_consumesInside _ _ _ _ _ _ _ _ fun _ => ?_
        split <;> infer_instance
      all_goals infer_instance

/-! ## Operators -/

instance : Steady g keep .start g.postfixExpression := by
  unfold postfixExpression
  infer_instance

instance : Steady g keep .start g.operand := by
  unfold operand
  infer_instance

instance : Steady g keep .start g.unaryExpression := by
  unfold unaryExpression
  refine peekKindThen inferInstance fun kind => ?_
  split
  · infer_instance
  · split <;> infer_instance
  · infer_instance

instance (least : Level) (left : Expr) : Steady g keep .read (g.operation least left) := by
  unfold operation
  refine readThen inferInstance fun seen => ?_
  split <;> infer_instance

instance (least : Level) (left : Expr) : Spends (g.operation least left) := by
  unfold operation
  refine @Spends.bind _ _ _ _ _ _ fun seen => ?_
  split <;> infer_instance

instance : Consumes g.unaryExpression := consumes_of_width unaryExpression_reads

instance (least : Level) : Steady g keep .start (g.binaryExpression least) := by
  unfold binaryExpression
  infer_instance

instance (condition : Expr) : Steady g keep .start (g.ternary condition) := by
  unfold ternary
  infer_instance

instance : Steady g keep .start g.conditional := by
  unfold conditional
  infer_instance

/-! ## Values -/

instance : Steady g keep .start g.arrowFunction := by
  unfold arrowFunction
  dsimp only
  infer_instance

instance : Steady g keep .start g.valueExpression := by
  unfold valueExpression
  infer_instance

end ScriptFront.Grammar
