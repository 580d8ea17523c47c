import ScriptFront.Proofs.Cursor.Unread
import ScriptFront.Proofs.Production.Accepted
import ScriptFront.Proofs.Progress.Lookaheads
import ScriptFront.Proofs.Progress.Statements

/-!
# Every parse ends

The constructs of a file are steady like everything inside them, so a parse of a token list never
stalls, whatever the list (`Cursor.progress`).
-/

set_option synthInstance.maxSize 4000

namespace ScriptFront

open Production Steady

/-- Whether a token is an attribute. -/
def Token.isAttribute (t : Token) : Bool := decide (t.kind = .attribute)

instance Cursor.Sees.attributes : Cursor.Sees Token.isAttribute Cursor.attributes := by
  refine ⟨fun c => ?_⟩
  unfold Cursor.attributes Cursor.keeping
  rw [List.head?_map]
  cases c.ahead.head? <;> simp [Stop.keeping, Token.isAttribute]

namespace Grammar

variable {g : Grammar} [hg : g.Progress] {keep : Token → Bool}

/-! ## Declarations of a file -/

instance : Steady g keep .start importDeclaration := by
  unfold importDeclaration
  refine consumesThen inferInstance fun keyword => readThen inferInstance fun kind => ?_
  split <;> infer_instance

instance : Steady g keep .start g.exportDeclaration := by
  unfold exportDeclaration
  refine consumesThen inferInstance fun _ => readThen inferInstance fun t => ?_
  split <;> infer_instance

instance : Steady g keep .start g.globalDeclaration := by
  unfold globalDeclaration
  refine startThen inferInstance fun kind => ?_
  split <;> infer_instance

instance : Consumes g.variableStatement := by
  unfold variableStatement
  infer_instance

instance : Consumes g.globalDeclaration := by
  unfold globalDeclaration
  refine @Consumes.bind_right _ _ _ _ _ fun kind => ?_
  split <;> infer_instance

instance : Steady g keep .start g.globalBlock := by
  have hbody : Steady g keep .read (loop (fun (decls : List Stmt) => do
      if ← isAt (.mark .closeBrace) then
        discard next
        return .done decls.reverse
      match ← g.globalDeclaration with
      | some s => return .again (s :: decls)
      | none => return .again decls) []) := by
    refine .loop (by decide) (fun decls => readThen inferInstance fun closed => ?_)
      (fun decls => @Spends.bind _ _ _ _ _ _ fun closed => ?_) _
    · refine @Steady.ite _ _ _ _ _ _ _ _ inferInstance (readThen inferInstance fun item => ?_)
      split <;> infer_instance
    · refine @Spends.ite _ _ _ _ _ _ ?_ (@Spends.of_consumes _ _ _ (@Consumes.bind_left _ _ _ _ _ fun item => ?_))
      · infer_instance
      · split <;> infer_instance
  unfold globalBlock
  dsimp only
  infer_instance

instance (d : Draft) (p : Position) (declaration : Production (Option Stmt))
    [Steady g keep .start declaration] : Steady g keep .start (attributed d p declaration) := by
  unfold attributed
  refine startThen inferInstance fun item => ?_
  split <;> infer_instance

instance (d : Draft) (p : Position) : Steady g keep .start (construct.other g d p) := by
  unfold construct.other
  infer_instance

instance (d : Draft) (t : Token) : Steady g keep .start (g.construct d t) := by
  unfold construct
  split
  case h_4 =>
    refine startThen inferInstance fun isAttributed => @Steady.ite _ _ _ _ _ _ _ _ inferInstance
      (startThen inferInstance fun d => startThen inferInstance fun item => ?_)
    split <;> infer_instance
  all_goals infer_instance

instance : Steady g Token.isAttribute .start g.constructs := by
  unfold constructs constructsOf
  infer_instance

instance : Consumes g.valueExpression := consumes_of_width valueExpression_reads

instance : Steady g keep .start g.wholeExpression := by
  unfold wholeExpression
  dsimp only
  infer_instance

/-- How the productions over a grammar get on. -/
structure GetsOn (g : Grammar) : Prop where
  /-- No steady production goes back or past the end of the file. -/
  forward : ∀ {α : Type} {keep : Token → Bool} {s : Stage} {p : Production α}, Steady g keep s p →
    ∀ {ctx : Context} {c : Cursor} {a : α} {d : Cursor}, c.Closed → p ctx c = .ok (a, d) →
      c.Reaches 0 d ∧ d.remaining ≤ c.remaining
  /-- The productions of the grammar are steady, with all repetitions in them. -/
  around : SteadyAround (fun _ => false) g
  constructs : Steady g Token.isAttribute .start g.constructs
  wholeExpression : Steady g (fun _ => false) .start g.wholeExpression
  statement : Consumes g.statementBody
  value : Consumes g.valueExpression
  classMember : Consumes g.classMember
  importDeclaration : Consumes importDeclaration
  exportDeclaration : Consumes g.exportDeclaration
  enumMember : ∀ isFirst counter, Consumes (enumMember isFirst counter)
  type : Consumes (unionType g.type)
  typeMember : Consumes (typeMember g.type)

theorem getsOn : GetsOn g where
  forward h _ _ _ _ hc hok := by
    have hreaches := h.advances.reads.reaches hc hok
    exact ⟨hreaches, hreaches.remaining_le⟩
  around := steady_around
  constructs := inferInstance
  wholeExpression := inferInstance
  statement := inferInstance
  value := inferInstance
  classMember := inferInstance
  importDeclaration := inferInstance
  exportDeclaration := inferInstance
  enumMember := inferInstance
  type := inferInstance
  typeMember := inferInstance

end Grammar

/-! ## Whole inputs -/

/-- A steady production does not stall on a token list. -/
theorem Production.runOn_ne_stalled {α : Type} (keep : Token → Bool) {p : Grammar → Production α}
    (h : ∀ n, Steady (.ofDepth n) keep .start (p (.ofDepth n))) (options : Options)
    (tokens : List Token) (position : Position) : runOn p options tokens ≠ .error ⟨.stalled, position⟩ := by
  have hclosed := (Cursor.ofTokens_shows tokens).closed
  intro herror
  unfold runOn at herror
  dsimp only at herror
  cases hrun : p (.ofDepth ((Cursor.ofTokens tokens).remaining + 1)) ⟨options.optimize, 0⟩
      (Cursor.ofTokens tokens) with
  | ok r =>
    rw [hrun] at herror
    cases herror
  | error e =>
    rw [hrun] at herror
    cases herror
    have hends := (h _).ends (Grammar.ends_ofDepth ((Cursor.ofTokens tokens).remaining + 1))
    exact Bool.false_ne_true (hends.cause hclosed (Nat.le_succ _) hrun).symm

/-- Whatever the token list, a parse goes forward and comes to an end. However deep the grammar is
entered, its productions get on; repetitions in lookaheads stop where no round starts; and neither a file
nor an expression is given up for want of progress. -/
theorem parse_progress (tokens : List Token) (path : String) (options : Options) :
    (Cursor.ofTokens tokens).Closed ∧
      (∀ n, (Grammar.ofDepth n).GetsOn) ∧
      (∀ n k (l l' : Lookahead), l.last.token.kind = .endOfFile → k ≠ .endOfFile →
        l.eatAll k (Lookahead.typeReference (Lookahead.typeArguments n)) = some l' →
          l'.peek.kind ≠ k) ∧
      (∀ k more (l l' : Lookahead), l.last.token.kind = .endOfFile → k ≠ .endOfFile →
        l.eatAll k (·.eat more) = some l' → l'.peek.kind ≠ k) ∧
      (∀ position, File.ofTokens tokens path options ≠ .error ⟨.stalled, position⟩) ∧
      ∀ position, Expr.ofTokens tokens options ≠ .error ⟨.stalled, position⟩ := by
  refine ⟨(Cursor.ofTokens_shows tokens).closed, fun n => Grammar.getsOn, ?_, ?_, ?_, ?_⟩
  · intro n k l l' hl hk
    exact Lookahead.eatAll_stops (.typeReference (.typeArguments n)) hk hl
  · intro k more l l' hl hk
    exact Lookahead.eatAll_stops (.eat more) hk hl
  · intro position herror
    have hsteady : ∀ n, Steady (.ofDepth n) Token.isAttribute .start (Grammar.ofDepth n).constructs :=
      fun n => inferInstance
    unfold File.ofTokens at herror
    cases hrun : runOn Grammar.constructs options tokens with
    | error e =>
      rw [hrun] at herror
      cases herror
      exact runOn_ne_stalled Token.isAttribute hsteady options tokens position hrun
    | ok d =>
      rw [hrun] at herror
      cases herror
  · intro position
    exact runOn_ne_stalled (fun _ => false) (fun n => inferInstance) options tokens position

end ScriptFront
