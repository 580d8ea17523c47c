import ScriptFront.Production.Expression
import ScriptFront.Proofs.TailCall.Follows
import ScriptFront.Proofs.TailCall.Marked

/-!
# Expressions with marked tail calls

Types do not look at the switch. An expression that is read with the switch on is the one that is read
with the switch off, with the tail calls of its functions marked.
-/

set_option synthInstance.maxSize 4000

namespace ScriptFront

open Rewriting (tailCalls)

/-! ## Types -/

namespace Production.Unswitched

instance genericArguments : Unswitched genericArguments := by
  unfold Production.genericArguments
  refine @bind _ _ _ _ _ fun l => ?_
  cases l <;> infer_instance

instance qualifiedName : Unswitched qualifiedName := by
  unfold Production.qualifiedName
  infer_instance

variable {type : Production Unit} [Unswitched type]

instance ascribedType : Unswitched (ascribedType type) := by
  unfold Production.ascribedType
  infer_instance

instance asTypes : Unswitched (asTypes type) := by
  unfold Production.asTypes
  infer_instance

instance typeParameters : Unswitched (typeParameters type) := by
  unfold Production.typeParameters
  dsimp only
  infer_instance

instance typeArguments : Unswitched (typeArguments type) := by
  unfold Production.typeArguments
  infer_instance

instance typeAssertion : Unswitched (typeAssertion type) := by
  unfold Production.typeAssertion
  infer_instance

instance typeParameterList : Unswitched (typeParameterList type) := by
  unfold Production.typeParameterList
  infer_instance

instance functionType : Unswitched (functionType type) := by
  unfold Production.functionType
  infer_instance

instance tupleType : Unswitched (tupleType type) := by
  unfold Production.tupleType
  infer_instance

instance signature : Unswitched (signature type) := by
  unfold Production.signature
  infer_instance

instance bracketMember : Unswitched (bracketMember type) := by
  unfold Production.bracketMember
  dsimp only
  infer_instance

instance namedMember : Unswitched (namedMember type) := by
  unfold Production.namedMember
  infer_instance

instance typeMember : Unswitched (typeMember type) := by
  have hbare : Unswitched (bareTypeMember type) := by
    unfold bareTypeMember
    refine @bind _ _ _ _ _ fun kind => ?_
    split <;> infer_instance
  unfold Production.typeMember
  infer_instance

instance objectType : Unswitched (objectType type) := by
  unfold Production.objectType
  refine @bind _ _ _ _ _ fun brace => @rounds _ (@bind _ _ _ _ _ fun kind => ?_)
  split <;> infer_instance

instance namedType : Unswitched (namedType type) := by
  unfold Production.namedType
  infer_instance

instance unionType : Unswitched (unionType type) := by
  have hprimary : Unswitched (primaryType type) := by
    unfold primaryType
    refine @bind _ _ _ _ _ fun kind => ?_
    split <;> infer_instance
  have harray : Unswitched (arrayType type) := by
    unfold arrayType
    dsimp only
    infer_instance
  unfold Production.unionType
  dsimp only
  infer_instance

instance heritage : Unswitched (heritage type) := by
  unfold Production.heritage
  infer_instance

instance interfaceDeclaration : Unswitched (interfaceDeclaration type) := by
  unfold Production.interfaceDeclaration
  dsimp only
  infer_instance

instance typeAlias : Unswitched (typeAlias type) := by
  unfold Production.typeAlias
  infer_instance

instance functionSignature : Unswitched (functionSignature type) := by
  unfold Production.functionSignature
  infer_instance

end Production.Unswitched

namespace Grammar

open Production

/-- Whether every construct of a grammar makes with the switch on what it makes with the switch off, with
the tail calls marked. -/
class Marks (g : Grammar) : Prop where
  value : Follows tailCalls.expr g.value g.value
  expression : Follows tailCalls.expr g.expression g.expression
  binary : ∀ least, Follows tailCalls.expr (g.binary least) (g.binary least)
  unary : Follows tailCalls.expr g.unary g.unary
  block : Follows tailCalls.block g.block g.block
  item : Follows (Option.map tailCalls.stmt) g.item g.item
  type : Unswitched g.type
  ascription : Unswitched g.ascription
  casts : Unswitched g.casts

variable {g : Grammar} [hg : g.Marks]

namespace Marks

instance : Unswitched g.type := hg.type

instance : Unswitched g.ascription := hg.ascription

instance : Unswitched g.casts := hg.casts

/-! ## Parameters and arguments -/

instance parameters : Unswitched g.parameters := by
  unfold Grammar.parameters
  dsimp only
  infer_instance

theorem arguments : Follows (Prod.map (List.map tailCalls.expr) id) g.arguments g.arguments := by
  unfold Grammar.arguments
  refine Follows.bind (f := Prod.map (List.map tailCalls.expr) id)
    (.loop (h := List.map tailCalls.expr) (fun items => ?_) []) fun result => .read fun _ => .pure rfl
  refine .read fun closed => .ite (.pure (by simp [Turn.map])) (.read fun dots => ?_)
  cases dots with
  | some dots =>
    refine hg.value.bind fun e => .read fun _ => .read fun closed => ?_
    dsimp only
    have hdone : ∀ items : List Expr,
        Turn.done ((items.map tailCalls.expr).reverse, true) =
          Turn.map (List.map tailCalls.expr) (Prod.map (List.map tailCalls.expr) id)
            (.done (items.reverse, true)) := by simp [Turn.map]
    exact .ite (.read fun _ => .pure (hdone (e :: items))) (.pure (hdone (e :: items)))
  | none =>
    refine hg.value.bind fun e => .read fun comma => .ite (.pure rfl) (.pure ?_)
    simp [Turn.map]

/-! ## Postfix chains -/

theorem selector (target : Expr) (optional : Bool) :
    Follows tailCalls.expr (selector target optional)
      (selector (tailCalls.expr target) optional) := by
  unfold Grammar.selector
  exact .read fun member => .read fun _ => .pure rfl

theorem index (target : Expr) (optional : Bool) :
    Follows tailCalls.expr (g.index target optional)
      (g.index (tailCalls.expr target) optional) := by
  unfold Grammar.index
  exact .read fun bracket => hg.expression.bind fun key => .read fun _ => .pure rfl

theorem call (callee : Expr) (optional : Bool) :
    Follows tailCalls.expr (g.call callee optional)
      (g.call (tailCalls.expr callee) optional) := by
  unfold Grammar.call
  refine .read fun paren => arguments.bind fun result => .pure ?_
  simp [Rewriting.expr, Rewriting.callOf]

theorem link (e : Expr) :
    Follows (Option.map tailCalls.expr) (g.link e) (g.link (tailCalls.expr e)) := by
  unfold Grammar.link
  refine .read fun kind => ?_
  split
  · exact .read fun _ => (selector e false).bind fun _ => .pure rfl
  · refine .read fun _ => .read fun kind => ?_
    split
    · exact (call e true).bind fun _ => .pure rfl
    · exact (index e true).bind fun _ => .pure rfl
    · exact (selector e true).bind fun _ => .pure rfl
  · exact (index e false).bind fun _ => .pure rfl
  · exact (call e false).bind fun _ => .pure rfl
  · exact .pure rfl

theorem chain (e : Expr) : Follows tailCalls.expr (g.chain e) (g.chain (tailCalls.expr e)) := by
  unfold Grammar.chain
  refine Follows.loop (h := Prod.map tailCalls.expr id) (fun s => ?_) (e, false)
  refine (link s.1).bind fun e' => ?_
  cases e' with
  | some e' => exact .pure rfl
  | none =>
    refine .pure (congrArg Turn.done ?_)
    dsimp only [Prod.map, id]
    rw [apply_ite tailCalls.expr, Rewriting.expr_markOutermost]

/-! ## Primary expressions -/

theorem newInstance : Follows tailCalls.expr g.newInstance g.newInstance := by
  unfold Grammar.newInstance
  refine .read fun keyword => .read fun name => .read fun qualified => .ite
    ((selector (.identifier name.ident) false).bind fun typeName => ?_)
    (Follows.bind (f := tailCalls.expr) (.pure rfl) fun typeName => ?_)
  all_goals
    refine .read fun _ => .read fun _ => arguments.bind fun result => .pure ?_
    simp [Rewriting.expr]

theorem arrayLiteral : Follows tailCalls.expr g.arrayLiteral g.arrayLiteral := by
  unfold Grammar.arrayLiteral
  refine .read fun bracket => (Follows.listed hg.value).bind fun es => .pure ?_
  simp [Rewriting.expr]

theorem mapEntry : Follows tailCalls.entry g.mapEntry g.mapEntry := by
  unfold Grammar.mapEntry
  refine .read fun kind => .ite (.read fun _ => ?_) ?_
  all_goals exact .read fun key => .read fun _ => hg.value.bind fun value => .pure rfl

theorem mapLiteral : Follows tailCalls.expr g.mapLiteral g.mapLiteral := by
  unfold Grammar.mapLiteral
  refine .read fun brace => (Follows.listed mapEntry).bind fun es => .pure ?_
  simp [Rewriting.expr]

theorem functionRest : Follows (Prod.map id tailCalls.block) g.functionRest g.functionRest := by
  unfold Grammar.functionRest
  exact .read fun _ => .read fun parameters => .read fun _ => hg.block.bind fun body => .pure rfl

theorem functionLiteral : Follows tailCalls.expr g.functionLiteral g.functionLiteral := by
  unfold Grammar.functionLiteral
  refine .read fun keyword => functionRest.bind fun rest => .pure ?_
  simp [Rewriting.expr]

theorem primary : Follows tailCalls.expr g.primary g.primary := by
  unfold Grammar.primary
  refine .read fun t => ?_
  split
  · exact .read fun _ => .pure rfl
  · split
    · refine .read fun _ => ?_
      split
      · exact .pure rfl
      · exact .fail _ _
    · exact .read fun _ => .read fun _ => .pure rfl
    · exact .read fun _ => .read fun _ => .pure rfl
    · exact .read fun _ => hg.value.bind fun e => .read fun _ => .pure rfl
    · exact newInstance
    · exact functionLiteral
    · exact arrayLiteral
    · exact mapLiteral
    · exact .failHere _

/-! ## Operators -/

theorem postfixExpression : Follows tailCalls.expr g.postfixExpression g.postfixExpression := by
  unfold Grammar.postfixExpression
  exact .read fun _ => primary.bind chain

theorem operand : Follows tailCalls.expr g.operand g.operand := by
  unfold Grammar.operand
  exact postfixExpression.bind fun e => .read fun _ => .pure rfl

theorem unaryExpression : Follows tailCalls.expr g.unaryExpression g.unaryExpression := by
  unfold Grammar.unaryExpression
  refine .read fun kind => ?_
  split
  · exact .read fun t => .fail _ _
  · split
    · exact .read fun t => hg.unary.nested.bind fun e => .pure rfl
    · exact operand
  · exact operand

theorem operation (least : Level) (left : Expr) :
    Follows (Turn.map tailCalls.expr tailCalls.expr) (g.operation least left)
      (g.operation least (tailCalls.expr left)) := by
  unfold Grammar.operation
  refine .read fun seen => ?_
  split
  · exact .pure rfl
  · exact .ite (.pure rfl) (.read fun _ => (hg.binary _).bind fun right => .pure rfl)

theorem binaryExpression (least : Level) :
    Follows tailCalls.expr (g.binaryExpression least) (g.binaryExpression least) := by
  unfold Grammar.binaryExpression
  exact unaryExpression.bind fun first => .loop (operation least) first

theorem ternary (condition : Expr) :
    Follows tailCalls.expr (g.ternary condition) (g.ternary (tailCalls.expr condition)) := by
  unfold Grammar.ternary
  refine .read fun asked => .ite ?_ (.pure rfl)
  exact hg.value.bind fun whenTrue => .read fun _ => hg.value.bind fun whenFalse => .pure rfl

theorem conditional : Follows tailCalls.expr g.conditional g.conditional := by
  unfold Grammar.conditional
  exact (binaryExpression .logical).bind ternary

/-! ## Values -/

theorem returning (value : Expr) :
    Block.returning (tailCalls.expr value) = tailCalls.block (Block.returning value) := by
  simp [Block.returning, Rewriting.block, Rewriting.stmt]

theorem arrowFunction : Follows tailCalls.expr g.arrowFunction g.arrowFunction := by
  have hbody : ∀ p parameters body, Expr.function p parameters (tailCalls.block body) =
      tailCalls.expr (.function p parameters body) := by
    simp [Rewriting.expr]
  unfold Grammar.arrowFunction
  refine .read fun start => .ite (.read fun _ => .read fun parameters => ?_)
    (.read fun parameters => .read fun _ => .read fun parameters => ?_)
  all_goals
    refine .read fun _ => .read fun braced => .ite ?_ ?_
    · exact hg.block.bind fun body => .pure (hbody start.position parameters body)
    · exact (hg.value.map returning).bind fun body => .pure (hbody start.position parameters body)

theorem valueExpression : Follows tailCalls.expr g.valueExpression g.valueExpression := by
  unfold Grammar.valueExpression
  exact .nested (.read fun isArrow => .ite arrowFunction conditional)

end Marks

end Grammar

end ScriptFront
