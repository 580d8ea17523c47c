import ScriptFront.Proofs.Shift.Types

/-!
# Expressions in different places

An expression is read alike from tokens in different places: every place that it keeps is the place of a
token, or the place of a part that it has read before.
-/

namespace ScriptFront

open Production

namespace Shift

/-- Whether every construct of a grammar is read alike. -/
class grammar (r : Shift) (g : Grammar) : Prop where
  value : r.Matches r.expr g.value g.value
  expression : r.Matches r.expr g.expression g.expression
  binary : ∀ least, r.Matches r.expr (g.binary least) (g.binary least)
  unary : r.Matches r.expr g.unary g.unary
  block : r.Matches r.block g.block g.block
  item : r.Matches (Option.Rel r.stmt) g.item g.item
  type : r.Uniform g.type
  ascription : r.Uniform g.ascription
  casts : r.Uniform g.casts

namespace Matches

variable {r : Shift} {g : Grammar} [hg : r.grammar g]

instance : r.Uniform g.type := hg.type

instance : r.Uniform g.ascription := hg.ascription

instance : r.Uniform g.casts := hg.casts

/-! ## Parameters and arguments -/

theorem parameters : r.Matches r.parameters g.parameters g.parameters := by
  unfold Grammar.parameters
  refine .token fun _ _ _ _ hparen => Matches.bind (A := Both (List.Forall₂ r.parameter) Eq)
    (.loop (S := List.Forall₂ r.parameter) (fun {fields fields'} hfields => ?_) .nil) ?_
  · refine .read fun variadic => .read fun named => .ite
      (.pure (.done (.intro (List.rel_reverse hfields) rfl))) (.token fun kind name p q hname => ?_)
    refine .read fun optional => .read fun _ => ?_
    have hfields' : List.Forall₂ r.parameter (⟨p, name, optional⟩ :: fields)
        (⟨q, name, optional⟩ :: fields') := .cons ⟨hname, rfl, rfl⟩ hfields
    have hdone : ∀ variadic : Bool, r.Matches (Turns (S := List.Forall₂ r.parameter)
        (A := Both (List.Forall₂ r.parameter) Eq))
        (Pure.pure (.done ((⟨p, name, optional⟩ :: fields).reverse, variadic)))
        (Pure.pure (.done ((⟨q, name, optional⟩ :: fields').reverse, variadic))) :=
      fun variadic => .pure (.done (.intro (List.rel_reverse hfields') rfl))
    refine .ite (.read fun comma => .ite ?_ (hdone true))
      (.read fun comma => .ite (.pure (.again hfields')) (hdone false))
    exact .token fun _ _ _ _ hlate => stops _ hlate
  · rintro _ _ ⟨hfields, rfl⟩
    exact .read fun _ => .pure (parameters_mk hparen hfields _)

theorem arguments :
    r.Matches (Both (List.Forall₂ r.expr) Eq) g.arguments g.arguments := by
  unfold Grammar.arguments
  refine Matches.bind (A := Both (List.Forall₂ r.expr) Eq)
    (.loop (S := List.Forall₂ r.expr) (fun {items items'} hitems => ?_) .nil)
    fun hresult => .read fun _ => .pure hresult
  have hdone : ∀ {es es' : List Expr} (spread : Bool), List.Forall₂ r.expr es es' →
      r.Matches (Turns (S := List.Forall₂ r.expr) (A := Both (List.Forall₂ r.expr) Eq))
        (Pure.pure (.done (es.reverse, spread))) (Pure.pure (.done (es'.reverse, spread))) :=
    fun spread hes => .pure (.done (.intro (List.rel_reverse hes) rfl))
  refine .read fun closed => .ite (hdone false hitems) ((Matches.optional _).bind fun hdots => ?_)
  cases hdots with
  | some hdots =>
    refine hg.value.bind fun he => .read fun _ => .read fun closed => ?_
    exact .ite (stops _ hdots.place) (hdone true (.cons he hitems))
  | none =>
    refine hg.value.bind fun he => .read fun comma => ?_
    exact .ite (.pure (.again (.cons he hitems))) (hdone false (.cons he hitems))

/-! ## Postfix chains -/

section Chains

variable {e e' : Expr}

theorem selector (he : r.expr e e') (optional : Bool) :
    r.Matches r.expr (Grammar.selector e optional) (Grammar.selector e' optional) := by
  unfold Grammar.selector
  exact .token fun _ _ _ _ hmember => .read fun _ =>
    .pure (Shift.selector he (ident_mk hmember _) optional false)

theorem index (he : r.expr e e') (optional : Bool) :
    r.Matches r.expr (g.index e optional) (g.index e' optional) := by
  unfold Grammar.index
  exact .token fun _ _ _ _ hbracket => hg.expression.bind fun hkey => .read fun _ =>
    .pure (Shift.index he hbracket hkey optional false)

theorem call (he : r.expr e e') (optional : Bool) :
    r.Matches r.expr (g.call e optional) (g.call e' optional) := by
  unfold Grammar.call
  refine .token fun _ _ _ _ hparen => arguments.bind ?_
  rintro _ _ ⟨harguments, rfl⟩
  exact .pure (expr_call.2 (call_mk he hparen harguments _ optional false))

theorem link (he : r.expr e e') : r.Matches (Option.Rel r.expr) (g.link e) (g.link e') := by
  have hsome : ∀ {p q : Production Expr}, r.Matches r.expr p q →
      r.Matches (Option.Rel r.expr) (do return some (← p)) (do return some (← q)) :=
    fun h => h.bind fun h => .pure (.some h)
  unfold Grammar.link
  refine .read fun kind => ?_
  split
  · exact .read fun _ => hsome (selector he false)
  · refine .read fun _ => .read fun kind => ?_
    split
    · exact hsome (call he true)
    · exact hsome (index he true)
    · exact hsome (selector he true)
  · exact hsome (index he false)
  · exact hsome (call he false)
  · exact .pure .none

theorem chain (he : r.expr e e') : r.Matches r.expr (g.chain e) (g.chain e') := by
  unfold Grammar.chain
  refine .loop (S := Both r.expr Eq) ?_ (.intro he rfl)
  rintro _ _ ⟨he, rfl⟩
  refine (link he).bind fun hlink => ?_
  cases hlink with
  | some he => exact .pure (.again (.intro he rfl))
  | none =>
    dsimp only
    split
    · exact .pure (.done (markOutermost he))
    · exact .pure (.done he)

end Chains

/-! ## Primary expressions -/

theorem newInstance : r.Matches r.expr g.newInstance g.newInstance := by
  unfold Grammar.newInstance
  refine .token fun _ _ _ _ hkeyword => .token fun _ name _ _ hname => .read fun qualified => ?_
  have hfirst := identifier (ident_mk hname name)
  refine .ite ((selector hfirst false).bind fun htype => ?_)
    (Matches.bind (A := r.expr) (.pure hfirst) fun htype => ?_)
  all_goals
    refine .read fun _ => .read fun _ => arguments.bind ?_
    rintro _ _ ⟨harguments, rfl⟩
    exact .pure (Shift.newInstance hkeyword htype harguments _)

theorem arrayLiteral : r.Matches r.expr g.arrayLiteral g.arrayLiteral := by
  unfold Grammar.arrayLiteral
  exact .token fun _ _ _ _ hbracket => (Matches.listed hg.value).bind fun hes =>
    .pure (Shift.arrayLiteral hbracket hes)

theorem mapEntry : r.Matches r.entry g.mapEntry g.mapEntry := by
  unfold Grammar.mapEntry
  refine .read fun kind => .ite (.read fun _ => ?_) ?_
  all_goals
    refine .token fun _ key _ _ hkey => .read fun _ => hg.value.bind fun he => ?_
    exact .pure (entry_mk hkey key he)

theorem mapLiteral : r.Matches r.expr g.mapLiteral g.mapLiteral := by
  unfold Grammar.mapLiteral
  exact .token fun _ _ _ _ hbrace => (Matches.listed mapEntry).bind fun hes =>
    .pure (Shift.mapLiteral hbrace hes)

theorem functionRest : r.Matches (Both r.parameters r.block) g.functionRest g.functionRest := by
  unfold Grammar.functionRest
  exact .read fun _ => parameters.bind fun hparameters => .read fun _ => hg.block.bind fun hbody =>
    .pure (.intro hparameters hbody)

theorem functionLiteral : r.Matches r.expr g.functionLiteral g.functionLiteral := by
  unfold Grammar.functionLiteral
  refine .token fun _ _ _ _ hkeyword => functionRest.bind ?_
  rintro _ _ ⟨hparameters, hbody⟩
  exact .pure (function hkeyword hparameters hbody)

theorem primary : r.Matches r.expr g.primary g.primary := by
  unfold Grammar.primary
  refine .token fun kind text p q hplace => ?_
  dsimp only
  split
  · exact .read fun _ => .pure (constant hplace _ text)
  · split
    · refine .read fun _ => ?_
      unfold Token.hexValue?
      dsimp only
      split
      · exact .pure (constant hplace _ _)
      · exact .fail _ hplace
    · exact .read fun _ => .read fun _ => .pure (identifier (ident_mk hplace text))
    · exact .read fun _ => .read fun _ => .pure (identifier (ident_mk hplace text))
    · exact .read fun _ => hg.value.bind fun he => .read fun _ => .pure he
    · exact newInstance
    · exact functionLiteral
    · exact arrayLiteral
    · exact mapLiteral
    · exact .failHere _

/-! ## Operators -/

theorem postfixExpression : r.Matches r.expr g.postfixExpression g.postfixExpression := by
  unfold Grammar.postfixExpression
  exact .read fun _ => primary.bind chain

theorem operand : r.Matches r.expr g.operand g.operand := by
  unfold Grammar.operand
  exact postfixExpression.bind fun he => .read fun _ => .pure he

theorem unaryExpression : r.Matches r.expr g.unaryExpression g.unaryExpression := by
  unfold Grammar.unaryExpression
  refine .read fun kind => ?_
  split
  · exact .token fun _ _ _ _ hplace => .fail _ hplace
  · split
    · exact .token fun _ _ _ _ hplace => hg.unary.nested.bind fun he => .pure (unary hplace _ he)
    · exact operand
  · exact operand

theorem operation (least : Level) {e e' : Expr} (he : r.expr e e') :
    r.Matches (Turns (S := r.expr) (A := r.expr)) (g.operation least e) (g.operation least e') := by
  unfold Grammar.operation
  refine .read fun seen => ?_
  split
  · exact .pure (.done he)
  · exact .ite (.pure (.done he)) (.read fun _ => (hg.binary _).bind fun hright =>
      .pure (.again (binary _ he hright)))

theorem binaryExpression (least : Level) :
    r.Matches r.expr (g.binaryExpression least) (g.binaryExpression least) := by
  unfold Grammar.binaryExpression
  exact unaryExpression.bind fun he => .loop (operation least) he

theorem conditional : r.Matches r.expr g.conditional g.conditional := by
  unfold Grammar.conditional Grammar.ternary
  refine (binaryExpression .logical).bind fun he => .read fun asked => .ite ?_ (.pure he)
  exact hg.value.bind fun htrue => .read fun _ => hg.value.bind fun hfalse =>
    .pure (ternary he htrue hfalse)

/-! ## Values -/

theorem returning {e e' : Expr} (he : r.expr e e') :
    r.block (Block.returning e) (Block.returning e') :=
  ⟨position_expr he, .cons (returns (position_expr he) (.some he)) .nil, position_expr he⟩

theorem arrowFunction : r.Matches r.expr g.arrowFunction g.arrowFunction := by
  unfold Grammar.arrowFunction
  refine .token fun kind text p q hplace => ?_
  dsimp only
  have hfields : List.Forall₂ r.parameter [⟨p, text, false⟩] [⟨q, text, false⟩] :=
    .cons ⟨hplace, rfl, rfl⟩ .nil
  have hname : r.parameters ⟨p, [⟨p, text, false⟩], false⟩ ⟨q, [⟨q, text, false⟩], false⟩ :=
    parameters_mk hplace hfields false
  have hbody : ∀ {ps ps' : Parameters}, r.parameters ps ps' →
      r.Matches r.expr
        (do
          let body ← if ← isAt (.mark .openBrace) then g.block else Block.returning <$> g.value
          return .function p ps body)
        (do
          let body ← if ← isAt (.mark .openBrace) then g.block else Block.returning <$> g.value
          return .function q ps' body) := by
    intro ps ps' hps
    refine .read fun braced => .ite (hg.block.bind fun hb => ?_)
      ((hg.value.map returning).bind fun hb => ?_)
    all_goals exact .pure (function hplace hps hb)
  refine .ite (.read fun _ => ?_) (parameters.bind fun hps => .read fun _ => ?_)
  · exact Matches.bind (A := r.parameters) (.pure hname) fun hps => .read fun _ => hbody hps
  · exact Matches.bind (A := r.parameters) (.pure hps) fun hps => .read fun _ => hbody hps

theorem valueExpression : r.Matches r.expr g.valueExpression g.valueExpression := by
  unfold Grammar.valueExpression
  exact .nested (.read fun isArrow => .ite arrowFunction conditional)

end Matches

end Shift

end ScriptFront
