import ScriptFront.Proofs.Parsed.Answers

/-!
# Parsed expressions

Expressions are built from parsed parts and nothing is asked of an expression itself, so what holds
everywhere in what a grammar answers holds everywhere in the expressions around it.
-/

set_option linter.unusedSectionVars false

namespace ScriptFront

open Node (AllParsed)

namespace Expr

variable {file : Cursor} {e : Expr}

theorem Parsed.mk (hself : (Node.expr e).Proper file) (hparts : AllParsed file e.parts) :
    e.Parsed file := Node.Parsed.mk hself hparts

theorem parts_markOutermost (e : Expr) : e.markOutermost.parts = e.parts := by
  cases e <;> rfl

theorem Parsed.markOutermost (h : e.Parsed file) : e.markOutermost.Parsed file := by
  refine .mk ?_ ?_
  · have hself := Node.Everywhere.self h
    cases e <;> exact hself
  · rw [parts_markOutermost]
    exact Node.Parsed.parts h

end Expr

namespace Grammar

open Production

/-- Whether everything that the constructs of a grammar answer is made as the grammar makes it. Its types
are those of the whole grammar, entered some number of times. -/
class Parses (file : Cursor) (g : Grammar) : Prop where
  types : ∃ n, g.type = (ofDepth n).type ∧ g.ascription = (ofDepth n).ascription
  value : Answers file (Expr.Parsed file) g.value
  expression : Answers file (Expr.Parsed file) g.expression
  binary : ∀ least, Answers file (Expr.Parsed file) (g.binary least)
  unary : Answers file (Expr.Parsed file) g.unary
  block : Answers file (fun b => AllParsed file b.parts) g.block
  item : Answers file (fun item => ∀ s ∈ item, Stmt.Parsed file s) g.item

variable {file : Cursor} {g : Grammar} [hg : g.Parses file]

namespace Parses

/-! ## Arguments -/

theorem arguments :
    Answers file (fun r : List Expr × Bool => ∀ e ∈ r.1, e.Parsed file) g.arguments := by
  have hitems : ∀ {e : Expr} {items : List Expr}, e.Parsed file → (∀ e ∈ items, e.Parsed file) →
      ∀ e' ∈ (e :: items).reverse, e'.Parsed file := by
    intro e items he hitems e' he'
    exact List.forall_mem_cons.2 ⟨he, hitems⟩ e' (List.mem_reverse.1 he')
  unfold Grammar.arguments
  refine Answers.bind (Q := fun r : List Expr × Bool => ∀ e ∈ r.1, e.Parsed file)
    (.loop (I := fun items => ∀ e ∈ items, e.Parsed file) (fun items h => ?_) (by simp))
    fun result h => .read fun _ => .pure h
  refine .read fun closed => .ite (.pure (by simpa [Turn.Is] using h)) (.read fun dots => ?_)
  cases dots with
  | some dots =>
    refine hg.value.bind fun e he => .read fun _ => .read fun closed => ?_
    exact .ite (.read fun _ => .pure (hitems he h)) (.pure (hitems he h))
  | none =>
    refine hg.value.bind fun e he => .read fun comma => .ite (.pure ?_) (.pure (hitems he h))
    exact List.forall_mem_cons.2 ⟨he, h⟩

/-! ## Postfix chains -/

theorem selector {target : Expr} (htarget : target.Parsed file) (optional : Bool) :
    Answers file (Expr.Parsed file) (selector target optional) := by
  unfold Grammar.selector
  exact .read fun member => .read fun _ => .pure (.mk trivial (List.forall_mem_singleton.2 htarget))

theorem index {target : Expr} (htarget : target.Parsed file) (optional : Bool) :
    Answers file (Expr.Parsed file) (g.index target optional) := by
  unfold Grammar.index
  refine .read fun bracket => hg.expression.bind fun key hkey => .read fun _ => .pure (.mk trivial ?_)
  exact List.forall_mem_cons.2 ⟨htarget, List.forall_mem_singleton.2 hkey⟩

theorem call {callee : Expr} (hcallee : callee.Parsed file) (optional : Bool) :
    Answers file (Expr.Parsed file) (g.call callee optional) := by
  unfold Grammar.call
  refine .read fun paren => arguments.bind fun result hresult => .pure (.mk trivial ?_)
  exact List.forall_mem_cons.2 ⟨hcallee, Node.allParsed_exprs.2 hresult⟩

theorem link {e : Expr} (he : e.Parsed file) :
    Answers file (fun e' => ∀ x ∈ e', Expr.Parsed file x) (g.link e) := by
  have hsome : ∀ {p : Production Expr}, Answers file (Expr.Parsed file) p →
      Answers file (fun e' => ∀ x ∈ e', Expr.Parsed file x) (do return some (← p)) :=
    fun hp => hp.some
  unfold Grammar.link
  refine .read fun kind => ?_
  split
  · exact .read fun _ => hsome (selector he false)
  · refine .read fun _ => .read fun kind => ?_
    split
    · exact hsome (call he true)
    · exact hsome (index he true)
    · exact hsome (selector he true)
  · exact hsome (index he false)
  · exact hsome (call he false)
  · exact .pure fun y hy => absurd hy (Option.not_mem_none y)

theorem chain {e : Expr} (he : e.Parsed file) : Answers file (Expr.Parsed file) (g.chain e) := by
  unfold Grammar.chain
  refine .loop (I := fun s : Expr × Bool => s.1.Parsed file) (fun s hs => ?_) he
  refine (link hs).bind fun e' he' => ?_
  cases e' with
  | some e' => exact .pure (he' e' rfl)
  | none =>
    refine .pure ?_
    unfold Turn.Is
    dsimp only
    split
    · exact hs.markOutermost
    · exact hs

/-! ## Primary expressions -/

theorem newInstance : Answers file (Expr.Parsed file) g.newInstance := by
  unfold Grammar.newInstance
  refine .read fun keyword => .read fun name => .read fun qualified => ?_
  have hname : Expr.Parsed file (.identifier name.ident) := .mk trivial (List.forall_mem_nil _)
  extract_lets behindName
  have hbehind : ∀ typeName, Expr.Parsed file typeName →
      Answers file (Expr.Parsed file) (behindName typeName) := by
    intro typeName htypeName
    refine .read fun _ => .read fun _ => arguments.bind fun result hresult => .pure (.mk trivial ?_)
    exact List.forall_mem_cons.2 ⟨htypeName, Node.allParsed_exprs.2 hresult⟩
  exact .ite ((selector hname false).bind hbehind) ((Answers.pure hname).bind hbehind)

theorem arrayLiteral : Answers file (Expr.Parsed file) g.arrayLiteral := by
  unfold Grammar.arrayLiteral
  refine .read fun bracket => (Answers.listed hg.value).bind fun es hes => .pure (.mk trivial ?_)
  exact Node.allParsed_exprs.2 hes

theorem mapEntry : Answers file (fun e : MapEntry => e.value.Parsed file) g.mapEntry := by
  unfold Grammar.mapEntry
  refine .read fun kind => .ite (.read fun _ => ?_) ?_
  all_goals exact .read fun key => .read fun _ => hg.value.bind fun value hvalue => .pure hvalue

theorem mapLiteral : Answers file (Expr.Parsed file) g.mapLiteral := by
  unfold Grammar.mapLiteral
  refine .read fun brace => (Answers.listed mapEntry).bind fun es hes => .pure (.mk trivial ?_)
  exact List.forall_mem_map.2 hes

variable [g.Progress]

theorem parameters : Answers file (Parameters.IsWritten file) g.parameters := by
  refine ⟨fun hfile ctx c ps d hc h => ⟨?_, hc.trans (Advances.reads.reaches (hc.closed hfile) h)⟩⟩
  obtain ⟨hopen, entries, dangling, d', hentries, hclose, -, rfl⟩ := parameters_ok h
  obtain ⟨n, -, hn⟩ := hg.types
  rw [hn] at hentries
  exact ⟨entries, dangling, .list hc hopen hentries hclose⟩

theorem functionRest :
    Answers file (fun r : Parameters × Block => r.1.IsWritten file ∧ AllParsed file r.2.parts)
      g.functionRest := by
  unfold Grammar.functionRest
  exact .read fun _ => parameters.bind fun ps hps => .read fun _ => hg.block.bind fun body hbody =>
    .pure ⟨hps, hbody⟩

theorem functionLiteral : Answers file (Expr.Parsed file) g.functionLiteral := by
  unfold Grammar.functionLiteral
  exact .read fun keyword => functionRest.bind fun rest hrest => .pure (.mk hrest.1 hrest.2)

theorem primary : Answers file (Expr.Parsed file) g.primary := by
  have hconstant : ∀ p kind value, Expr.Parsed file (.constant p kind value) :=
    fun _ _ _ => .mk trivial (List.forall_mem_nil _)
  have hname : ∀ i, Expr.Parsed file (.identifier i) := fun _ => .mk trivial (List.forall_mem_nil _)
  unfold Grammar.primary
  refine .read fun t => ?_
  split
  · exact .read fun _ => .pure (hconstant _ _ _)
  · split
    · refine .read fun _ => ?_
      split
      · exact .pure (hconstant _ _ _)
      · exact .fail _ _
    · exact .read fun _ => .read fun _ => .pure (hname _)
    · exact .read fun _ => .read fun _ => .pure (hname _)
    · exact .read fun _ => hg.value.bind fun e he => .read fun _ => .pure he
    · exact newInstance
    · exact functionLiteral
    · exact arrayLiteral
    · exact mapLiteral
    · exact .failHere _

/-! ## Operators -/

theorem postfixExpression : Answers file (Expr.Parsed file) g.postfixExpression := by
  unfold Grammar.postfixExpression
  exact .read fun _ => primary.bind fun e he => chain he

theorem operand : Answers file (Expr.Parsed file) g.operand := by
  unfold Grammar.operand
  exact postfixExpression.bind fun e he => .read fun _ => .pure he

theorem unaryExpression : Answers file (Expr.Parsed file) g.unaryExpression := by
  unfold Grammar.unaryExpression
  refine .read fun kind => ?_
  split
  · exact .read fun t => .fail _ _
  · split
    · refine .read fun t => hg.unary.nested.bind fun e he => .pure (.mk trivial ?_)
      exact List.forall_mem_singleton.2 he
    · exact operand
  · exact operand

theorem operation (least : Level) {left : Expr} (hleft : left.Parsed file) :
    Answers file (Turn.Is (Expr.Parsed file) (Expr.Parsed file)) (g.operation least left) := by
  unfold Grammar.operation
  refine .read fun seen => ?_
  split
  · exact .pure hleft
  · refine .ite (.pure hleft) (.read fun _ => (hg.binary _).bind fun right hright => .pure (.mk trivial ?_))
    exact List.forall_mem_cons.2 ⟨hleft, List.forall_mem_singleton.2 hright⟩

theorem binaryExpression (least : Level) :
    Answers file (Expr.Parsed file) (g.binaryExpression least) := by
  unfold Grammar.binaryExpression
  exact unaryExpression.bind fun first hfirst => .loop (fun left => operation least) hfirst

theorem ternary {condition : Expr} (hcondition : condition.Parsed file) :
    Answers file (Expr.Parsed file) (g.ternary condition) := by
  unfold Grammar.ternary
  refine .read fun asked => .ite ?_ (.pure hcondition)
  refine hg.value.bind fun whenTrue htrue => .read fun _ => hg.value.bind fun whenFalse hfalse =>
    .pure (.mk trivial ?_)
  exact List.forall_mem_cons.2 ⟨hcondition,
    List.forall_mem_cons.2 ⟨htrue, List.forall_mem_singleton.2 hfalse⟩⟩

theorem conditional : Answers file (Expr.Parsed file) g.conditional := by
  unfold Grammar.conditional
  exact (binaryExpression .logical).bind fun e he => ternary he

/-! ## Values -/

theorem returning {value : Expr} (hvalue : value.Parsed file) :
    AllParsed file (Block.returning value).parts :=
  List.forall_mem_singleton.2 (.mk trivial (List.forall_mem_singleton.2 hvalue))

theorem arrowFunction : Answers file (Expr.Parsed file) g.arrowFunction := by
  have hbody : ∀ (p : Position) {ps : Parameters}, ps.IsWritten file →
      Answers file (Expr.Parsed file) (do
        let body ← if ← isAt (.mark .openBrace) then g.block else Block.returning <$> g.value
        return .function p ps body) := by
    intro p ps hps
    refine .read fun braced => .ite ?_ ?_
    · exact hg.block.bind fun body hbody => .pure (.mk hps hbody)
    · refine Answers.bind (Q := fun b : Block => AllParsed file b.parts) (hg.value.map fun e he => ?_)
        fun body hbody => .pure (.mk hps hbody)
      exact returning he
  refine ⟨fun hfile ctx c e d hc h => ?_⟩
  unfold Grammar.arrowFunction at h
  rw [run_peek_bind] at h
  split at h
  · next hname =>
    -- A single name is a parameter list when the arrow is there.
    rw [run_discard_next_bind] at h
    obtain ⟨_, _, hps, h⟩ := bind_ok.1 h
    obtain ⟨rfl, rfl⟩ := pure_ok.1 hps
    obtain ⟨_, _, hread, h⟩ := bind_ok.1 h
    obtain ⟨_, hread⟩ := discard_ok.1 hread
    obtain ⟨harrow, -, rfl⟩ := accept_ok.1 hread
    have hwritten := Parameters.Written.name hc (beq_iff_eq.2 hname) harrow
    exact (hbody _ ⟨_, _, hwritten⟩).holds hfile
      ((hc.trans c.next_reaches).trans c.next.next_reaches) h
  · refine Answers.holds (Answers.bind (parameters (g := g)) fun ps hps => ?_) hfile hc h
    exact .read fun _ => (Answers.pure hps).bind fun ps hps => .read fun _ => hbody _ hps

theorem valueExpression : Answers file (Expr.Parsed file) g.valueExpression := by
  unfold Grammar.valueExpression
  exact .nested (.read fun isArrow => .ite arrowFunction conditional)

end Parses

end Grammar

end ScriptFront
