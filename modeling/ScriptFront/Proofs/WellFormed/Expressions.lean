import ScriptFront.Proofs.WellFormed.Makes

/-!
# Well-formed expressions

Something is asked of three kinds of expressions: calls and `new` with a spread argument have one, `new`
names a type, and the body of a function is a block. All others are as well formed as their parts.
-/

set_option linter.unusedSectionVars false

namespace ScriptFront

open Node (AllWellFormed)

variable {r : Reading}

/-! ## Marked links -/

namespace Expr

variable {e : Expr}

theorem WellFormed.mk (hself : (Node.expr e).Formed r) (hparts : AllWellFormed r e.parts) :
    e.WellFormed r := Node.WellFormed.mk hself hparts

theorem WellFormed.markOutermost (h : e.WellFormed r) : e.markOutermost.WellFormed r := by
  have hself := h.self
  have hparts := h.parts
  cases e with
  | selector => exact .mk trivial hparts
  | index => exact .mk trivial hparts
  | call c => exact .mk hself hparts
  | _ => exact h

theorem WellFormed.binary {op : BinaryOperator} {left right : Expr} (hleft : left.WellFormed r)
    (hright : right.WellFormed r) : Expr.WellFormed r (.binary op left right) :=
  .mk trivial (List.forall_mem_cons.2 ⟨hleft, List.forall_mem_singleton.2 hright⟩)

end Expr

/-- Arguments as they are read: none of them is malformed, and a spread one is there. -/
structure ArgumentsFit (r : Reading) (arguments : List Expr) (spread : Bool) : Prop where
  wellFormed : ∀ e ∈ arguments, e.WellFormed r
  spread : spread = true → arguments ≠ []

theorem ArgumentsFit.parts {arguments : List Expr} {spread : Bool} {e : Expr}
    (h : ArgumentsFit r arguments spread) (he : e.WellFormed r) :
    AllWellFormed r (.expr e :: arguments.map .expr) :=
  List.forall_mem_cons.2 ⟨he, Node.allWellFormed_exprs.2 h.wellFormed⟩

namespace Grammar

open Production

/-- Whether everything that the constructs of a grammar make is well formed. -/
class Forms (r : Reading) (g : Grammar) : Prop where
  value : Makes r (Expr.WellFormed r) g.value
  expression : Makes r (Expr.WellFormed r) g.expression
  binary : ∀ least, Makes r (Expr.WellFormed r) (g.binary least)
  unary : Makes r (Expr.WellFormed r) g.unary
  block : Makes r (Block.Fits r) g.block
  item : Makes r (fun item => ∀ s ∈ item, Stmt.Fits r s) g.item

variable {g : Grammar} [hg : g.Forms r]

namespace Forms

/-! ## Arguments -/

theorem arguments : Makes r (fun a : List Expr × Bool => ArgumentsFit r a.1 a.2) g.arguments := by
  unfold Grammar.arguments
  apply Makes.bind (Q := fun a : List Expr × Bool => ArgumentsFit r a.1 a.2)
  · apply Makes.loop (I := fun items => ∀ e ∈ items, Expr.WellFormed r e) _ (List.forall_mem_nil _)
    intro items h
    apply Makes.read
    intro closed
    apply Makes.ite
    · exact .pure ⟨fun e he => h e (List.mem_reverse.1 he), fun hfalse => nomatch hfalse⟩
    · apply Makes.read
      intro dots
      cases dots with
      | some dots =>
        -- The argument behind the dots has just been read.
        have hspread : ∀ {e : Expr}, e.WellFormed r → ArgumentsFit r (e :: items).reverse true :=
          fun he => ⟨Makes.forall_mem_reverse_cons he h, fun _ => by simp⟩
        refine hg.value.bind fun e he => .read fun _ => .read fun closed => ?_
        exact .ite (.read fun _ => .pure (hspread he)) (.pure (hspread he))
      | none =>
        refine hg.value.bind fun e he => .read fun comma => .ite (.pure ?_) (.pure ?_)
        · exact List.forall_mem_cons.2 ⟨he, h⟩
        · exact ⟨Makes.forall_mem_reverse_cons he h, fun hfalse => nomatch hfalse⟩
  · exact fun result h => .read fun _ => .pure h

/-! ## Postfix chains -/

theorem selector {target : Expr} (htarget : target.WellFormed r) (optional : Bool) :
    Makes r (Expr.WellFormed r) (selector target optional) := by
  unfold Grammar.selector
  exact .read fun member => .read fun _ => .pure (.mk trivial (List.forall_mem_singleton.2 htarget))

theorem index {target : Expr} (htarget : target.WellFormed r) (optional : Bool) :
    Makes r (Expr.WellFormed r) (g.index target optional) := by
  unfold Grammar.index
  refine .read fun bracket => hg.expression.bind fun key hkey => .read fun _ => .pure (.mk trivial ?_)
  exact List.forall_mem_cons.2 ⟨htarget, List.forall_mem_singleton.2 hkey⟩

theorem call {callee : Expr} (hcallee : callee.WellFormed r) (optional : Bool) :
    Makes r (Expr.WellFormed r) (g.call callee optional) := by
  unfold Grammar.call
  exact .read fun paren => arguments.bind fun result hresult =>
    .pure (.mk hresult.spread (hresult.parts hcallee))

theorem link {e : Expr} (he : e.WellFormed r) :
    Makes r (fun e' => ∀ x ∈ e', Expr.WellFormed r x) (g.link e) := by
  have hsome : ∀ {p : Production Expr}, Makes r (Expr.WellFormed r) p →
      Makes r (fun e' => ∀ x ∈ e', Expr.WellFormed r x) (do return some (← p)) :=
    fun hp => hp.some
  unfold Grammar.link
  refine .read fun kind => ?_
  split
  · exact .read fun _ => hsome (selector he false)
  · refine .read fun _ => .read fun kind => ?_
    split
    · exact hsome (call he true)
    · exact hsome (index he true)
    · exact hsome (selector he true)
  · exact hsome (index he false)
  · exact hsome (call he false)
  · exact .pure fun y hy => absurd hy (Option.not_mem_none y)

theorem chain {e : Expr} (he : e.WellFormed r) : Makes r (Expr.WellFormed r) (g.chain e) := by
  unfold Grammar.chain
  apply Makes.loop (I := fun s : Expr × Bool => s.1.WellFormed r) _ he
  intro s hs
  refine (link hs).bind fun e' he' => ?_
  cases e' with
  | some e' => exact .pure (he' e' rfl)
  | none =>
    refine .pure ?_
    unfold Turn.Is
    dsimp only
    split
    · exact hs.markOutermost
    · exact hs

/-! ## Primary expressions -/

theorem identifier (i : Ident) : Expr.WellFormed r (.identifier i) :=
  .mk trivial (List.forall_mem_nil _)

/-- The one member that the type name of a `new` may have. -/
theorem typeMember (i : Ident) :
    Makes r (fun e => e.NamesType ∧ e.WellFormed r) (Grammar.selector (.identifier i) false) := by
  unfold Grammar.selector
  refine .read fun member => .read fun _ => .pure ⟨rfl, .mk trivial ?_⟩
  exact List.forall_mem_singleton.2 (identifier i)

theorem newInstance : Makes r (Expr.WellFormed r) g.newInstance := by
  unfold Grammar.newInstance
  refine .read fun keyword => .read fun name => .read fun qualified => ?_
  extract_lets behindName
  have hbehind : ∀ typeName : Expr, typeName.NamesType ∧ typeName.WellFormed r →
      Makes r (Expr.WellFormed r) (behindName typeName) := by
    rintro typeName ⟨hnames, htypeName⟩
    refine .read fun _ => .read fun _ => arguments.bind fun result hresult => .pure ?_
    exact .mk ⟨hnames, hresult.spread⟩ (hresult.parts htypeName)
  apply Makes.ite
  · exact (typeMember name.ident).bind hbehind
  · exact Makes.bind (.pure ⟨trivial, identifier name.ident⟩) hbehind

theorem arrayLiteral : Makes r (Expr.WellFormed r) g.arrayLiteral := by
  unfold Grammar.arrayLiteral
  refine .read fun bracket => (Makes.listed hg.value).bind fun es hes => .pure (.mk trivial ?_)
  exact Node.allWellFormed_exprs.2 hes

theorem mapEntry : Makes r (fun e : MapEntry => e.value.WellFormed r) g.mapEntry := by
  unfold Grammar.mapEntry
  refine .read fun kind => .ite (.read fun _ => ?_) ?_
  all_goals exact .read fun key => .read fun _ => hg.value.bind fun value hvalue => .pure hvalue

theorem mapLiteral : Makes r (Expr.WellFormed r) g.mapLiteral := by
  unfold Grammar.mapLiteral
  refine .read fun brace => (Makes.listed mapEntry).bind fun es hes => .pure (.mk trivial ?_)
  exact List.forall_mem_map.2 hes

variable [g.Progress]

theorem functionRest : Makes r (fun a : Parameters × Block => a.2.Fits r) g.functionRest := by
  unfold Grammar.functionRest
  exact .read fun _ => .read fun parameters => .read fun _ => hg.block.bind fun body hbody =>
    .pure hbody

theorem functionLiteral : Makes r (Expr.WellFormed r) g.functionLiteral := by
  unfold Grammar.functionLiteral
  exact .read fun keyword => functionRest.bind fun rest hrest => .pure (.mk hrest.formed hrest.parts)

theorem primary : Makes r (Expr.WellFormed r) g.primary := by
  have hconstant : ∀ p kind value, Expr.WellFormed r (.constant p kind value) :=
    fun _ _ _ => .mk trivial (List.forall_mem_nil _)
  unfold Grammar.primary
  refine .read fun t => ?_
  split
  · exact .read fun _ => .pure (hconstant _ _ _)
  · split
    · refine .read fun _ => ?_
      split
      · exact .pure (hconstant _ _ _)
      · exact .fail _ _
    · exact .read fun _ => .read fun _ => .pure (identifier _)
    · exact .read fun _ => .read fun _ => .pure (identifier _)
    · exact .read fun _ => hg.value.bind fun e he => .read fun _ => .pure he
    · exact newInstance
    · exact functionLiteral
    · exact arrayLiteral
    · exact mapLiteral
    · exact .failHere _

/-! ## Operators -/

theorem postfixExpression : Makes r (Expr.WellFormed r) g.postfixExpression := by
  unfold Grammar.postfixExpression
  exact .read fun _ => primary.bind fun e he => chain he

theorem operand : Makes r (Expr.WellFormed r) g.operand := by
  unfold Grammar.operand
  exact postfixExpression.bind fun e he => .read fun _ => .pure he

theorem unaryExpression : Makes r (Expr.WellFormed r) g.unaryExpression := by
  unfold Grammar.unaryExpression
  refine .read fun kind => ?_
  split
  · exact .read fun t => .fail _ _
  · split
    · refine .read fun t => hg.unary.nested.bind fun e he => .pure (.mk trivial ?_)
      exact List.forall_mem_singleton.2 he
    · exact operand
  · exact operand

theorem operation (least : Level) {left : Expr} (hleft : left.WellFormed r) :
    Makes r (Turn.Is (Expr.WellFormed r) (Expr.WellFormed r)) (g.operation least left) := by
  unfold Grammar.operation
  refine .read fun seen => ?_
  split
  · exact .pure hleft
  · refine .ite (.pure hleft) (.read fun _ => ?_)
    exact (hg.binary _).bind fun right hright => .pure (hleft.binary hright)

theorem binaryExpression (least : Level) : Makes r (Expr.WellFormed r) (g.binaryExpression least) := by
  unfold Grammar.binaryExpression
  exact unaryExpression.bind fun first hfirst => .loop (fun left => operation least) hfirst

theorem ternary {condition : Expr} (hcondition : condition.WellFormed r) :
    Makes r (Expr.WellFormed r) (g.ternary condition) := by
  unfold Grammar.ternary
  refine .read fun asked => .ite ?_ (.pure hcondition)
  refine hg.value.bind fun whenTrue htrue => .read fun _ => hg.value.bind fun whenFalse hfalse =>
    .pure (.mk trivial ?_)
  exact List.forall_mem_cons.2 ⟨hcondition,
    List.forall_mem_cons.2 ⟨htrue, List.forall_mem_singleton.2 hfalse⟩⟩

theorem conditional : Makes r (Expr.WellFormed r) g.conditional := by
  unfold Grammar.conditional
  exact (binaryExpression .logical).bind fun e he => ternary he

/-! ## Values -/

/-- The body that an arrow without braces stands for. -/
theorem returning {value : Expr} (hvalue : value.WellFormed r) : (Block.returning value).Fits r := by
  intro s hs
  cases List.mem_singleton.1 hs
  exact ⟨trivial, .mk trivial (List.forall_mem_singleton.2 hvalue)⟩

theorem arrowFunction : Makes r (Expr.WellFormed r) g.arrowFunction := by
  have hfunction : ∀ {body : Block} p parameters, body.Fits r →
      Expr.WellFormed r (.function p parameters body) :=
    fun _ _ hbody => .mk hbody.formed hbody.parts
  unfold Grammar.arrowFunction
  refine .read fun start => .ite (.read fun _ => .read fun parameters => ?_)
    (.read fun parameters => .read fun _ => .read fun parameters => ?_)
  all_goals
    refine .read fun _ => .read fun braced => .ite ?_ ?_
    · exact hg.block.bind fun body hbody => .pure (hfunction _ _ hbody)
    · apply Makes.bind (Q := Block.Fits r) (hg.value.map fun e he => returning he)
      exact fun body hbody => .pure (hfunction _ _ hbody)

theorem valueExpression : Makes r (Expr.WellFormed r) g.valueExpression := by
  unfold Grammar.valueExpression
  exact .nested (.read fun isArrow => .ite arrowFunction conditional)

end Forms

end Grammar

end ScriptFront
