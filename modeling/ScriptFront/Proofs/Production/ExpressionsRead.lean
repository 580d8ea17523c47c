import ScriptFront.Production.Expression
import ScriptFront.Proofs.Production.TypesRead

/-!
# What expressions read

An expression is at least as long as the operands and operators of its tree: `Expr.width`. Parentheses
and what is dropped come on top of that.
-/

set_option synthInstance.maxSize 4000

namespace ScriptFront

/-- The number of tokens that a binary operator is written with. -/
def BinaryOperator.width : BinaryOperator → Nat
  | .shiftRight => 2
  | _ => 1

/-- The number of tokens that the operands and operators of a tree are written with at least. -/
def Expr.width : Expr → Nat
  | .binary op left right => left.width + op.width + right.width
  | _ => 1

theorem BinaryOperator.one_le_width (op : BinaryOperator) : 1 ≤ op.width := by
  cases op <;> decide

theorem BinaryOperator.width_of_ofMark? {m : Mark} {op : BinaryOperator} (h : ofMark? m = some op) :
    op.width = 1 := by
  cases m <;> cases h <;> rfl

theorem Expr.one_le_width (e : Expr) : 1 ≤ e.width := by
  cases e with
  | binary op left right =>
    have := op.one_le_width
    unfold width
    omega
  | _ => exact Nat.le_refl 1

theorem Expr.width_markOutermost (e : Expr) : e.markOutermost.width = e.width := by
  cases e <;> rfl

namespace Grammar

open Production

/-- Whether every construct of a grammar reads what its tree stands for. -/
class Progress (g : Grammar) : Prop where
  value : Reads Expr.width g.value
  expression : Reads Expr.width g.expression
  binary : ∀ least, Reads Expr.width (g.binary least)
  unary : Reads Expr.width g.unary
  block : Consumes g.block
  item : Consumes g.item
  type : Consumes g.type
  ascription : Advances g.ascription
  casts : Advances g.casts

/-- A production whose trees are all one operand wide need only read one token. -/
theorem consumes_of_width {p : Production Expr} (hp : Reads Expr.width p) : Consumes p :=
  ⟨hp.weaken Expr.one_le_width⟩

variable {g : Grammar} [hg : g.Progress]

namespace Progress

instance : Consumes g.value := consumes_of_width hg.value

instance : Consumes g.expression := consumes_of_width hg.expression

instance (least : Level) : Consumes (g.binary least) := consumes_of_width (hg.binary least)

instance : Consumes g.unary := consumes_of_width hg.unary

instance : Consumes g.block := hg.block

instance : Consumes g.item := hg.item

instance : Consumes g.type := hg.type

instance : Advances g.ascription := hg.ascription

instance : Advances g.casts := hg.casts

end Progress

/-! ## Parameters and arguments -/

instance : Consumes g.parameters := by
  unfold parameters
  dsimp only
  infer_instance

instance : Consumes g.arguments := by
  unfold arguments
  refine @Consumes.bind_right _ _ _ _ (@Advances.loop _ _ _ (fun items => ?_) _) _
  refine @Advances.bind _ _ _ _ _ fun closed => @Advances.ite _ _ _ _ _ inferInstance ?_
  refine @Advances.bind _ _ _ _ _ fun dots => ?_
  split <;> infer_instance

instance (target : Expr) (optional : Bool) : Consumes (selector target optional) := by
  unfold selector
  infer_instance

instance (target : Expr) (optional : Bool) : Consumes (g.index target optional) := by
  unfold index
  infer_instance

instance (callee : Expr) (optional : Bool) : Consumes (g.call callee optional) := by
  unfold call
  infer_instance

/-! ## Postfix chains -/

theorem selector_narrow (target : Expr) (optional : Bool) :
    Reads (fun e => e.width - 1) (selector target optional) := by
  unfold selector
  exact .bind_right fun _ => .bind_right fun _ => .pure rfl

theorem index_narrow (target : Expr) (optional : Bool) :
    Reads (fun e => e.width - 1) (g.index target optional) := by
  unfold index
  exact .bind_right fun _ => .bind_right fun _ => .bind_right fun _ => .pure rfl

theorem call_narrow (callee : Expr) (optional : Bool) :
    Reads (fun e => e.width - 1) (g.call callee optional) := by
  unfold call
  exact .bind_right fun _ => .bind_right fun _ => .pure rfl

/-- A link makes an expression that is one operand wide. -/
theorem link_narrow (e : Expr) :
    Reads (fun e' => (e'.map Expr.width).getD 0 - 1) (g.link e) := by
  have hsome : ∀ {p : Production Expr}, Reads (fun e => e.width - 1) p →
      Reads (fun e' => (e'.map Expr.width).getD 0 - 1) (do return some (← p)) :=
    fun hp => hp.bind_pure fun e => Nat.le_refl _
  unfold link
  refine .bind_right fun kind => ?_
  split
  · exact .bind_right fun _ => hsome (selector_narrow e false)
  · refine .bind_right fun _ => .bind_right fun kind => ?_
    split
    · exact hsome (call_narrow e true)
    · exact hsome (index_narrow e true)
    · exact hsome (selector_narrow e true)
  · exact hsome (index_narrow e false)
  · exact hsome (call_narrow e false)
  · exact .pure rfl

theorem chain_reads (e : Expr) : Reads (fun e' => e'.width - e.width) (g.chain e) := by
  unfold chain
  refine @loop_reads _ _ (fun s => s.1.width) Expr.width _ (fun s => ?_) (e, false)
  have hwidth : ∀ b : Bool, (if b then s.1.markOutermost else s.1).width = s.1.width := by
    rintro (_ | _)
    · rfl
    · exact s.1.width_markOutermost
  refine (link_narrow s.1).bind fun e' => ?_
  cases e' with
  | none => exact .pure (by simp [turn, hwidth])
  | some e' =>
    refine .pure ?_
    have := s.1.one_le_width
    simp only [turn, Option.map_some, Option.getD_some]
    omega

/-! ## Primary expressions -/

instance : Consumes g.newInstance := by
  unfold newInstance
  dsimp only
  infer_instance

instance : Consumes g.arrayLiteral := by
  unfold arrayLiteral
  infer_instance

instance : Advances g.mapEntry := by
  unfold mapEntry
  dsimp only
  infer_instance

instance : Consumes g.mapLiteral := by
  unfold mapLiteral
  infer_instance

instance : Consumes g.functionRest := by
  unfold functionRest
  infer_instance

instance : Consumes g.functionLiteral := by
  unfold functionLiteral
  infer_instance

theorem newInstance_reads : Reads Expr.width g.newInstance := by
  unfold newInstance
  dsimp only
  refine (Consumes.keyword _).reads.bind fun keyword => .bind_right fun first =>
    .bind_right fun qualified => ?_
  split
  · exact .bind_right fun _ => .bind_right fun _ => .bind_right fun _ => .bind_right fun _ =>
      .pure rfl
  · exact .bind_right fun _ => .bind_right fun _ => .bind_right fun _ => .bind_right fun _ =>
      .pure rfl

theorem arrayLiteral_reads : Reads Expr.width g.arrayLiteral := by
  unfold arrayLiteral
  exact (Consumes.mark _).reads.bind fun _ => .bind_right fun _ => .pure rfl

theorem mapLiteral_reads : Reads Expr.width g.mapLiteral := by
  unfold mapLiteral
  exact (Consumes.mark _).reads.bind fun _ => .bind_right fun _ => .pure rfl

theorem functionLiteral_reads : Reads Expr.width g.functionLiteral := by
  unfold functionLiteral
  exact (Consumes.keyword _).reads.bind fun _ => .bind_right fun _ => .pure rfl

theorem primary_reads : Reads Expr.width g.primary := by
  have hnext : ∀ {f : Unit → Production Expr}, (∀ u, Reads (fun e => e.width - 1) (f u)) →
      ReadsInside Expr.width (discard next >>= f) := ConsumesInside.discard.reads.bind
  unfold primary
  refine .peekThen (fun t ht => ?_) fun t => ?_
  · rw [ht]
    exact .failHere _
  · split
    · exact hnext fun _ => .pure rfl
    · split
      · refine hnext fun _ => ?_
        split
        · exact .pure rfl
        · exact .fail _ _
      · exact hnext fun _ => .bind_right fun _ => .pure rfl
      · exact hnext fun _ => .bind_right fun _ => .pure rfl
      · refine hnext fun _ => hg.value.bind fun e => .bind_right fun _ => .pure ?_
        omega
      · exact newInstance_reads.inside
      · exact functionLiteral_reads.inside
      · exact arrayLiteral_reads.inside
      · exact mapLiteral_reads.inside
      · exact Reads.inside (.failHere _)

/-! ## Operators -/

theorem postfixExpression_reads : Reads Expr.width g.postfixExpression := by
  unfold postfixExpression
  exact .bind_right fun _ => primary_reads.bind chain_reads

instance : Consumes g.postfixExpression := consumes_of_width postfixExpression_reads

theorem operand_reads : Reads Expr.width g.operand := by
  unfold operand
  exact postfixExpression_reads.bind fun e => .bind_right fun _ => .pure (Nat.sub_self _)

theorem unaryExpression_reads : Reads Expr.width g.unaryExpression := by
  unfold unaryExpression
  refine .peekKindThen operand_reads fun kind => ?_
  split
  · exact Reads.inside (.bind_right fun _ => .fail _ _)
  · split
    · exact ConsumesInside.next.reads.bind fun t => .bind_right fun _ => .pure rfl
    · exact operand_reads.inside
  · exact operand_reads.inside

/-- An operator that is seen is written with as many tokens as are read for it. -/
theorem operator_reaches {c : Cursor} (hc : c.Closed) {op : BinaryOperator} {width : Nat}
    (h : c.binaryOperator? = some (op, width)) : c.Reaches op.width (c.advance width) := by
  have hmark : ∀ {m : Mark}, c.peek.kind = .mark m → c.peekKind ≠ .endOfFile := by
    intro m hm hend
    cases hm.symm.trans hend
  unfold Cursor.binaryOperator? at h
  dsimp only at h
  split at h
  · next hkind =>
    split at h
    · next hsecond =>
      cases h
      have hnext := c.next_reaches_one hc (hmark hkind)
      refine hnext.trans (c.next.next_reaches_one (hnext.closed hc) fun hend => ?_)
      rw [Cursor.peekKind, Cursor.peek, c.peekNth_next (hmark hkind)] at hend
      cases hsecond.1.symm.trans hend
    · cases h
      exact c.next_reaches_one hc (hmark hkind)
  · next hkind =>
    obtain ⟨op', hop, hpair⟩ := Option.map_eq_some_iff.1 h
    cases hpair
    rw [BinaryOperator.width_of_ofMark? hop]
    exact c.next_reaches_one hc (hmark hkind)
  · cases h

theorem operation_reads (least : Level) (left : Expr) :
    Reads (fun t => turn Expr.width Expr.width t - left.width) (g.operation least left) := by
  have hdone : Reads (fun t => turn Expr.width Expr.width t - left.width)
      (Pure.pure (Turn.done left) : Production (Turn Expr Expr)) := .pure (Nat.sub_self _)
  refine ⟨fun {ctx c t d} hc hok => ?_⟩
  unfold operation at hok
  obtain ⟨seen, _, hseen, hok⟩ := bind_ok.1 hok
  cases hseen
  cases hop : c.binaryOperator? with
  | none =>
    rw [hop] at hok
    exact hdone.reaches hc hok
  | some seen =>
    obtain ⟨op, width⟩ := seen
    rw [hop] at hok
    simp only at hok
    split at hok
    · exact hdone.reaches hc hok
    · obtain ⟨_, _, hadvance, hok⟩ := bind_ok.1 hok
      cases hadvance
      obtain ⟨right, e, hright, hok⟩ := bind_ok.1 hok
      cases hok
      have hoperator := operator_reaches hc hop
      refine (hoperator.trans ((hg.binary _).reaches (hoperator.closed hc) hright)).weaken ?_
      simp only [turn, Expr.width]
      omega

theorem binaryExpression_reads (least : Level) : Reads Expr.width (g.binaryExpression least) := by
  unfold binaryExpression
  exact unaryExpression_reads.bind (loop_reads (operation_reads least))

theorem ternary_reads (condition : Expr) :
    Reads (fun e => e.width - condition.width) (g.ternary condition) := by
  unfold ternary
  refine .bind_right fun b => ?_
  have := condition.one_le_width
  split
  · refine .bind_right fun _ => .bind_right fun _ => .bind_right fun _ => .pure ?_
    simp only [Expr.width]
    omega
  · exact .pure (Nat.sub_self _)

theorem conditional_reads : Reads Expr.width g.conditional := by
  unfold conditional
  exact (binaryExpression_reads .logical).bind ternary_reads

/-! ## Values -/

theorem arrowFunction_reads : Reads Expr.width g.arrowFunction := by
  have htail : ∀ parameters position, Reads Expr.width (do
      discard (accept (.mark .arrow))
      let body ← if ← isAt (.mark .openBrace) then g.block else Block.returning <$> g.value
      return .function position parameters body) := fun parameters position =>
    Consumes.discard.reads.bind fun _ => .bind_right fun braced => by
      split <;> exact .bind_right fun _ => .pure rfl
  unfold arrowFunction
  refine .bind_right fun start => ?_
  dsimp only
  split
  · exact .bind_right fun _ => .bind_right fun _ => htail _ _
  · exact .bind_right fun _ => .bind_right fun _ => .bind_right fun _ => htail _ _

theorem valueExpression_reads : Reads Expr.width g.valueExpression := by
  unfold valueExpression
  refine .nested (.bind_right fun b => ?_)
  split
  · exact arrowFunction_reads
  · exact conditional_reads

end Grammar

end ScriptFront
