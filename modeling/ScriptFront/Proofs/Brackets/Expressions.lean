import ScriptFront.Production.Expression
import ScriptFront.Proofs.Brackets.Types

/-!
# Brackets in expressions
-/

set_option synthInstance.maxSize 4000

namespace ScriptFront.Grammar

open Production

/-- Whether every construct of a grammar closes the brackets that it opens and no others. -/
class Brackets (g : Grammar) : Prop where
  value : Nests g.value
  expression : Nests g.expression
  binary : ∀ least, Nests (g.binary least)
  unary : Nests g.unary
  block : Nests g.block
  item : Nests g.item
  type : Nests g.type
  ascription : Nests g.ascription
  casts : Nests g.casts

variable {g : Grammar} [hg : g.Brackets]

namespace Brackets

instance : Nests g.value := hg.value

instance : Nests g.expression := hg.expression

instance (least : Level) : Nests (g.binary least) := hg.binary least

instance : Nests g.unary := hg.unary

instance : Nests g.block := hg.block

instance : Nests g.item := hg.item

instance : Nests g.type := hg.type

instance : Nests g.ascription := hg.ascription

instance : Nests g.casts := hg.casts

/-! ## Parameters and arguments -/

instance parameters : Nests g.parameters := by
  unfold Grammar.parameters
  dsimp only
  infer_instance

/-- The parenthesis in front of arguments has been read. -/
instance arguments : Closes .round g.arguments := by
  unfold Grammar.arguments
  refine @Closes.bind_right _ _ _ _ _ (@Nests.loop _ _ _ (fun items => ?_) _) _
  refine @Nests.bind _ _ _ _ _ fun closed => @Nests.ite _ _ _ _ _ inferInstance ?_
  refine @Nests.bind _ _ _ _ _ fun dots => ?_
  split <;> infer_instance

/-! ## Postfix chains -/

instance selector (target : Expr) (optional : Bool) : Nests (selector target optional) := by
  unfold Grammar.selector
  infer_instance

instance index (target : Expr) (optional : Bool) : Nests (g.index target optional) := by
  unfold Grammar.index
  infer_instance

instance call (callee : Expr) (optional : Bool) : Nests (g.call callee optional) := by
  unfold Grammar.call
  infer_instance

instance link (e : Expr) : Nests (g.link e) := by
  unfold Grammar.link
  refine ⟨fun before => .peekKind fun kind => ?_⟩
  split
  · exact .skipAt rfl fun _ => .nests
  · refine .skipAt rfl fun _ => .peekKind fun kind => ?_
    split <;> exact .nests
  · exact .nests
  · exact .nests
  · exact .nests

instance chain (e : Expr) : Nests (g.chain e) := by
  unfold Grammar.chain
  refine @Nests.loop _ _ _ (fun s => @Nests.bind _ _ _ _ _ fun e' => ?_) _
  cases e' <;> infer_instance

/-! ## Primary expressions -/

instance newInstance : Nests g.newInstance := by
  unfold Grammar.newInstance
  dsimp only
  infer_instance

instance arrayLiteral : Nests g.arrayLiteral := by
  unfold Grammar.arrayLiteral
  infer_instance

instance mapEntry : Nests g.mapEntry := by
  unfold Grammar.mapEntry
  dsimp only
  refine ⟨fun before => .peekKind fun k => .ite (fun _ => .failHereThen _) fun h =>
    .nextThen (fun c hc => ?_) fun _ => .nests⟩
  rw [Bool.not_eq_true, Bool.not_eq_false', Bool.or_eq_true, Bool.or_eq_true, beq_iff_eq,
    beq_iff_eq] at h
  rw [hc.2]
  obtain (hname | rfl) | rfl := h
  · exact Kind.openBehind_of_isName hname before
  · rfl
  · rfl

instance mapLiteral : Nests g.mapLiteral := by
  unfold Grammar.mapLiteral
  infer_instance

instance functionRest : Nests g.functionRest := by
  unfold Grammar.functionRest
  infer_instance

instance functionLiteral : Nests g.functionLiteral := by
  unfold Grammar.functionLiteral
  infer_instance

theorem openBehind_of_constant {k : Kind} {kind : ConstantKind}
    (h : ConstantKind.ofKind? k = some kind) (before : List Bracket) :
    k.openBehind before = some before := by
  unfold ConstantKind.ofKind? at h
  split at h <;> first | rfl | cases h

theorem openBehind_of_unary {m : Mark} {op : UnaryOperator} (h : UnaryOperator.ofMark? m = some op)
    (before : List Bracket) : (Kind.mark m).openBehind before = some before := by
  unfold UnaryOperator.ofMark? at h
  split at h <;> first | rfl | cases h

theorem openBehind_of_binary {m : Mark} {op : BinaryOperator}
    (h : BinaryOperator.ofMark? m = some op) (before : List Bracket) :
    (Kind.mark m).openBehind before = some before := by
  unfold BinaryOperator.ofMark? at h
  split at h <;> first | rfl | cases h

instance primary : Nests g.primary := by
  unfold Grammar.primary
  refine ⟨fun before => .peek fun t => ?_⟩
  split
  · next kind hkind =>
    exact .skipToken rfl (openBehind_of_constant hkind before) fun _ => .nests
  · split
    · next hhex =>
      refine .skipToken hhex rfl fun _ => ?_
      split <;> exact .nests
    · next hname => exact .skipToken hname rfl fun _ => .nests
    · next hdefault => exact .skipToken hdefault rfl fun _ => .nests
    · next hparen => exact .skipToken (m := .round :: before) hparen rfl fun _ => .closes
    · exact .nests
    · exact .nests
    · exact .nests
    · exact .nests
    · exact .failHere _

/-! ## Operators -/

instance postfixExpression : Nests g.postfixExpression := by
  unfold Grammar.postfixExpression
  infer_instance

instance operand : Nests g.operand := by
  unfold Grammar.operand
  infer_instance

instance unaryExpression : Nests g.unaryExpression := by
  unfold Grammar.unaryExpression
  refine ⟨fun before => .peekKind fun k => ?_⟩
  split
  · exact .behind fun _ => .fail _ _
  · split
    · next op hop =>
      refine .nextThen (fun c hc => ?_) fun t => .nests
      rw [hc.2]
      exact openBehind_of_unary hop before
    · exact .nests
  · exact .nests

/-- An operator is read with one token or two, none of which is a bracket. -/
theorem operator_takes {P : Cursor → Prop} {op : BinaryOperator} {width : Nat}
    {before : List Bracket} (h : ∀ c, P c → c.binaryOperator? = some (op, width)) :
    Takes P before (advance width) fun _ => before := by
  refine ⟨fun {_ c _ _} hc hP hok => ?_⟩
  have hop := h c hP
  cases hok
  unfold Cursor.binaryOperator? at hop
  dsimp only at hop
  split at hop
  · next hkind =>
    have hfirst : c.peekKind.openBehind before = some before := by
      rw [Cursor.peekKind, hkind]
      rfl
    split at hop
    · next hsecond =>
      cases hop
      refine Cursor.advance_two_leads hc ?_ hfirst ?_
      · rw [Cursor.peekKind, hkind]
        exact Kind.noConfusion
      · rw [hsecond.1]
        rfl
    · cases hop
      exact Cursor.next_leads hc hfirst
  · next hkind =>
    obtain ⟨op', hop', hpair⟩ := Option.map_eq_some_iff.1 hop
    cases hpair
    refine Cursor.next_leads hc ?_
    rw [Cursor.peekKind, hkind]
    exact openBehind_of_binary hop' before
  · cases hop

instance operation (least : Level) (left : Expr) : Nests (g.operation least left) := by
  unfold Grammar.operation
  refine ⟨fun before => .asks fun seen => ?_⟩
  cases seen with
  | none => exact .nests
  | some seen =>
    exact .ite (fun _ => .nests) fun _ => (operator_takes fun c hc => hc.2).bind fun _ => .nests

instance binaryExpression (least : Level) : Nests (g.binaryExpression least) := by
  unfold Grammar.binaryExpression
  infer_instance

instance conditional : Nests g.conditional := by
  unfold Grammar.conditional Grammar.ternary
  infer_instance

/-! ## Values -/

instance arrowFunction : Nests g.arrowFunction := by
  unfold Grammar.arrowFunction
  refine ⟨fun before => .peek fun start => ?_⟩
  dsimp only
  refine .ite (fun h => .skip (fun c hc => ?_) fun _ => .nests) fun _ => .nests
  rw [Cursor.peekKind, hc.2, h]
  rfl

instance valueExpression : Nests g.valueExpression := by
  unfold Grammar.valueExpression
  infer_instance

end Brackets

end ScriptFront.Grammar
