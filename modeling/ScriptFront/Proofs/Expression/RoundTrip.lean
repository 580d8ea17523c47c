import ScriptFront.Production.SourceFile
import ScriptFront.Proofs.Expression.ReadBack

/-!
# Writing an expression and reading it

Operators are read back where their operands stand in parentheses. Together with the productions for
postfix chains this reads every writable expression: by induction on it, once as what stands in front of
a link and once as a whole.
-/

namespace ScriptFront

open Production Spelling

variable {ctx : Context} {g : Grammar} {e x : Expr} {s r : Spelling} {P : Expr → Prop} {d n : Nat}

namespace Grammar

/-! ## Operators -/

theorem value_succ (n : Nat) : (ofDepth (n + 1)).value = (ofDepth n).valueExpression := by
  rw [ofDepth_succ]
  rfl

theorem binary_succ (n : Nat) : (ofDepth (n + 1)).binary = (ofDepth n).binaryExpression := by
  rw [ofDepth_succ]
  rfl

theorem unary_succ (n : Nat) : (ofDepth (n + 1)).unary = (ofDepth n).unaryExpression := by
  rw [ofDepth_succ]
  rfl

theorem casts_none (hn : 0 < n) (hr : kindAt r 0 ≠ .identifier) :
    Yields ctx (ofDepth n).casts r (fun _ => True) r := by
  obtain ⟨n, rfl⟩ := Nat.exists_eq_add_one.2 hn
  rw [ofDepth_succ]
  show Yields ctx (asTypes _) r _ r
  unfold asTypes rounds
  refine Yields.loop fun rounds hrounds => ?_
  cases rounds with
  | nil => exact absurd hrounds (Nat.not_lt_zero _)
  | cons stop rounds =>
    refine Yields.loopFrom_done ?_
    refine Yields.bind (P := fun b => b = false) (.isAtWordThen_false hr (.pure rfl)) ?_
    rintro _ rfl
    exact .pure ⟨(), rfl, trivial⟩

/-- A postfix chain without operators in front and without types behind. -/
theorem unaryExpression_operand (hn : 0 < n) (hs : kindAt s 0 ∈ operandKinds) (hr : kindAt r 0 ≠ .identifier)
    (h : Yields ctx (do (ofDepth n).chain (← (ofDepth n).primary)) s P r) :
    Yields ctx (ofDepth n).unaryExpression s P r := by
  have hplain : Yields ctx (ofDepth n).postfixExpression s P r := by
    unfold postfixExpression typeAssertion
    refine Yields.bind (P := fun _ => True) (r := s) ?_ fun _ _ => h
    exact .isAtThen_false (ne_of_mem_of_not_mem hs (by decide)) (.pure trivial)
  have hoperand : Yields ctx (ofDepth n).operand s P r :=
    hplain.bind fun e he => (casts_none hn hr).bind fun _ _ => .pure he
  unfold unaryExpression
  refine .peekKindThen ?_
  split
  · next hkind => exact absurd (hkind ▸ hs) (by decide)
  · next m hkind =>
    have hm : UnaryOperator.ofMark? m = none := by
      rw [hkind] at hs
      revert hs
      cases m <;> decide
    rw [hm]
    exact hoperand
  · exact hoperand

/-- An operand in parentheses. -/
theorem unaryExpression_parens (hn : 0 < n) (hr : EndsChain r)
    (h : Yields ctx (ofDepth n).value (s ++ Mark.closeParen.shape :: r) P
      (Mark.closeParen.shape :: r)) :
    Yields ctx (ofDepth n).unaryExpression (inParens s ++ r) P r := by
  refine unaryExpression_operand hn (by decide : Kind.mark .openParen ∈ operandKinds) hr.2 ?_
  refine (primary_parens h).bind fun x hx => ?_
  rw [chain_eq]
  refine .loop fun rounds hrounds => ?_
  cases rounds with
  | nil => exact absurd hrounds (Nat.not_lt_zero _)
  | cons stop rounds =>
    refine Yields.loopFrom_done ((chainRound_done _ hr).mono ?_)
    rintro _ rfl
    exact ⟨x, rfl, hx⟩

theorem unaryExpression_unary (p : Position) {op : UnaryOperator}
    (h : Yields ctx (nested g.unary) s x.Alike r) :
    Yields ctx g.unaryExpression (op.mark.shape :: s) (Expr.unary p op x).Alike r := by
  have hof : UnaryOperator.ofMark? op.mark = some op := by cases op <;> rfl
  unfold unaryExpression
  refine .peekKindThen ?_
  simp only [kindAt_cons_zero, Mark.shape_fst, hof]
  refine (Yields.next (by simp)).bind fun t _ => h.bind_pure fun b hb => ?_
  simp only [Expr.Alike, Rewriting.expr, show Rewriting.unplaced.expr b = _ from hb]
  rfl

theorem binaryOperator?_none {c : Cursor} (hr : kindAt r 0 ∈ .mark .question :: endKinds)
    (hc : c.Spells r) : c.binaryOperator? = none := by
  unfold Cursor.binaryOperator?
  rw [← hc.peekKind, Cursor.peekKind] at hr
  simp only
  split
  · next hkind => exact absurd (hkind ▸ hr) (by decide)
  · next m _ hkind =>
    have hm : BinaryOperator.ofMark? m = none := by
      rw [hkind] at hr
      revert hr
      cases m <;> decide
    rw [hm]
    rfl
  · rfl

/-- A single mark, or two `>` that are adjacent. -/
theorem binaryOperator?_some {c : Cursor} {op : BinaryOperator}
    (hc : c.Spells (op.marks.map Mark.shape ++ (inParens s ++ r))) :
    c.binaryOperator? = some (op, op.marks.length) := by
  unfold Cursor.binaryOperator?
  rcases op.marks_eq with rfl | ⟨m, hm, hop⟩
  · have hfirst : c.peek.kind = .mark .greater := hc.peekKind
    have hsecond : (c.peekNth 1).kind = .mark .greater := hc.peekNth_kind 1
    simp only [hfirst, hsecond]
    rw [if_pos ⟨trivial, hc.isAdjacentTo_of_greater rfl rfl⟩]
    rfl
  · rw [hm] at hc ⊢
    have hfirst : c.peek.kind = .mark m := hc.peekKind
    have hsecond : (c.peekNth 1).kind = .mark .openParen := hc.peekNth_kind 1
    simp only [hfirst, hsecond]
    split
    · next hgreater =>
      cases hgreater
      cases hop
      rfl
    · next hmark =>
      cases hmark
      rw [hop]
      rfl
    · next hmark => exact absurd rfl (hmark m)

theorem operation_none (least : Level) (left : Expr) (hr : kindAt r 0 ∈ .mark .question :: endKinds) :
    Yields ctx (g.operation least left) r (fun t => t = .done left) r := by
  unfold operation
  exact .asksThen (fun _ hc => binaryOperator?_none hr hc) (.pure rfl)

/-- An operand with no operator behind it. -/
theorem binaryExpression_operand (least : Level) (hr : kindAt r 0 ∈ .mark .question :: endKinds)
    (h : Yields ctx g.unaryExpression s P r) : Yields ctx (g.binaryExpression least) s P r := by
  refine h.bind fun x hx => .loop fun rounds hrounds => ?_
  cases rounds with
  | nil => exact absurd hrounds (Nat.not_lt_zero _)
  | cons stop rounds =>
    refine Yields.loopFrom_done ((operation_none least x hr).mono ?_)
    rintro _ rfl
    exact ⟨x, rfl, hx⟩

/-- Two operands with an operator between them. -/
theorem binaryExpression_binary {op : BinaryOperator} {left right : Expr} {s' : Spelling}
    (hr : Ends r)
    (hleft : Yields ctx g.unaryExpression s left.Alike
      (op.marks.map Mark.shape ++ (inParens s' ++ r)))
    (hright : Yields ctx (g.binary op.level.tighter) (inParens s' ++ r) right.Alike r) :
    Yields ctx (g.binaryExpression .logical) s (Expr.binary op left right).Alike r := by
  refine hleft.bind fun l hl => .loop_of_invariant (fun x t =>
      (x = l ∧ t = op.marks.map Mark.shape ++ (inParens s' ++ r)) ∨
        (Expr.binary op left right).Alike x ∧ t = r) ?_ (Or.inl ⟨rfl, rfl⟩)
  rintro x t (⟨rfl, rfl⟩ | ⟨hx, rfl⟩)
  · refine Or.inl ⟨r, ?_, ?_⟩
    · simp only [inParens, List.length_append, List.length_cons]
      omega
    · unfold operation
      refine .asksThen (fun _ hc => binaryOperator?_some hc) ?_
      have hlevel : ¬ op.level.rank < Level.logical.rank := Nat.not_lt_zero _
      dsimp only
      rw [if_neg hlevel, ← List.length_map (f := Mark.shape)]
      refine (Yields.advance fun y hy => ?_).bind fun _ _ => hright.bind_pure fun b hb => ?_
      · obtain ⟨m, -, rfl⟩ := List.mem_map.1 hy
        simp
      · refine ⟨_, rfl, Or.inr ⟨?_, rfl⟩⟩
        unfold Expr.Alike at hl hb ⊢
        simp only [Rewriting.expr, hl, hb]
  · refine Or.inr ((operation_none .logical x (List.mem_cons_of_mem _ hr)).mono ?_)
    rintro _ rfl
    exact ⟨x, rfl, hx⟩

/-- No ternary operator where an expression ends. -/
theorem conditional_binary (hr : Ends r) (h : Yields ctx (g.binaryExpression .logical) s P r) :
    Yields ctx g.conditional s P r := by
  refine h.bind fun x hx => ?_
  unfold ternary
  refine (Yields.skips_false (hr.kindAt_ne (by decide))).bind ?_
  rintro _ rfl
  exact .pure hx

theorem conditional_ternary {condition whenTrue whenFalse : Expr} {s' s'' : Spelling}
    (hcondition : Yields ctx g.unaryExpression s condition.Alike
      (Mark.question.shape :: (s' ++ Mark.colon.shape :: (s'' ++ r))))
    (htrue : Yields ctx g.value (s' ++ Mark.colon.shape :: (s'' ++ r)) whenTrue.Alike
      (Mark.colon.shape :: (s'' ++ r)))
    (hfalse : Yields ctx g.value (s'' ++ r) whenFalse.Alike r) :
    Yields ctx g.conditional s (Expr.ternary condition whenTrue whenFalse).Alike r := by
  refine (binaryExpression_operand .logical (by simp) hcondition).bind fun c hc => ?_
  unfold ternary
  refine (Yields.skips_true rfl (by simp)).bind ?_
  rintro _ rfl
  refine htrue.bind fun t ht => ?_
  refine ((Yields.accept rfl (by simp)).discard).bind fun _ _ => hfalse.bind_pure fun f hf => ?_
  unfold Expr.Alike at hc ht hf ⊢
  simp only [Rewriting.expr, hc, ht, hf]

/-- A value that is no arrow function. -/
theorem valueExpression_conditional (hs : ∀ c : Cursor, c.Spells s → c.startsArrow = false)
    (hdepth : ctx.depth < depthLimit)
    (h : Yields { ctx with depth := ctx.depth + 1 } g.conditional s P r) :
    Yields ctx g.valueExpression s P r :=
  .nested hdepth (.asksThen hs h)

end Grammar

/-! ## Lengths -/

namespace Spelling

theorem length_le_separated {items : List Spelling} (h : s ∈ items) :
    s.length ≤ (separated items).length := by
  induction items with
  | nil => cases h
  | cons t items ih =>
    cases items with
    | nil =>
      rw [List.mem_singleton.1 h, separated_singleton]
    | cons u items =>
      rw [separated_cons_cons, List.length_append, List.length_cons]
      rcases List.mem_cons.1 h with rfl | h
      · omega
      · have := ih h
        omega

theorem length_le_argumentList {items : List Spelling} (h : s ∈ items) (spread : Bool) :
    s.length ≤ (argumentList items spread).length := by
  induction items with
  | nil => cases h
  | cons t items ih =>
    cases items with
    | nil =>
      rw [List.mem_singleton.1 h, argumentList_singleton]
      cases spread <;> simp
    | cons u items =>
      rw [argumentList_cons_cons, List.length_append, List.length_cons]
      rcases List.mem_cons.1 h with rfl | h
      · omega
      · have := ih h
        omega

end Spelling

/-! ## Every writable expression -/

namespace Expr

theorem markedAs_of_operators (h : e.isPostfix = false) (b : Bool) : e.MarkedAs b := by
  cases e <;> trivial

/-- What holds of an expression that nests at most `d` deep: it is read back in front of a link, if it
may stand there as it is, and as a whole. -/
structure Readable (d : Nat) (e : Expr) : Prop where
  opens : Opens e.isPostfix e.spelled
  chains : e.isPostfix = true → ∀ n ctx, e.spelled.length ≤ n → ctx.depth + 2 * d ≤ depthLimit →
    Grammar.ChainsTo (.ofDepth n) ctx e.spelled fun a => e.unmarked.Alike a.1 ∧ a.2 = e.isLink
  conditional : e.MarkedAs true → ∀ n ctx, e.spelled.length ≤ n → ctx.depth + 2 * d ≤ depthLimit →
    ReadsBack ctx (Grammar.ofDepth n).conditional e

namespace Readable

/-- Postfix chains need only be read in front of links. -/
theorem of_chains (hopens : Opens true e.spelled) (hplain : e.isPostfix = true)
    (h : ∀ n ctx, e.spelled.length ≤ n → ctx.depth + 2 * d ≤ depthLimit →
      Grammar.ChainsTo (.ofDepth n) ctx e.spelled fun a => e.unmarked.Alike a.1 ∧ a.2 = e.isLink) :
    Readable d e where
  opens := by rwa [hplain]
  chains := fun _ => h
  conditional := by
    intro hmark n ctx hn hd r hr
    have hpos : 0 < n := Nat.lt_of_lt_of_le hopens.length_pos hn
    refine Grammar.conditional_binary hr ?_
    refine Grammar.binaryExpression_operand .logical (List.mem_cons_of_mem _ hr) ?_
    exact Grammar.unaryExpression_operand hpos hopens.kindAt_mem_of_operand
      (hr.kindAt_ne (by decide)) ((h n ctx hn hd).finish hmark hr)

theorem value (h : Readable d e) (hmark : e.MarkedAs true) (hn : e.spelled.length < n)
    (hd : ctx.depth + 2 * d < depthLimit) : ReadsBack ctx (Grammar.ofDepth n).value e := by
  intro r hr
  obtain ⟨n, rfl⟩ := Nat.exists_eq_add_one.2 (Nat.zero_lt_of_lt hn)
  rw [Grammar.value_succ]
  refine Grammar.valueExpression_conditional (fun _ => h.opens.startsArrow hr) (by omega) ?_
  exact h.conditional hmark n _ (by omega) (by simp only; omega) r hr

theorem expression (h : Readable d e) (hmark : e.MarkedAs true) (hn : e.spelled.length < n)
    (hd : ctx.depth + 2 * d ≤ depthLimit) : ReadsBack ctx (Grammar.ofDepth n).expression e := by
  obtain ⟨n, rfl⟩ := Nat.exists_eq_add_one.2 (Nat.zero_lt_of_lt hn)
  rw [Grammar.ofDepth_succ]
  exact h.conditional hmark n ctx (by omega) hd

theorem parens (h : Readable d e) (hmark : e.MarkedAs true) (hn : e.spelled.length < n)
    (hd : ctx.depth + 2 * d < depthLimit) (hr : EndsChain r) :
    Yields ctx (Grammar.ofDepth n).unaryExpression (inParens e.spelled ++ r) e.Alike r :=
  Grammar.unaryExpression_parens (Nat.zero_lt_of_lt hn) hr
    (h.value hmark hn hd _ (ends_cons (by decide) r))

/-- A value in parentheses. -/
theorem valueParens (h : Readable d e) (hmark : e.MarkedAs true) (hn : e.spelled.length + 1 < n)
    (hd : ctx.depth + 2 * d + 1 < depthLimit) (hr : Ends r) :
    Yields ctx (Grammar.ofDepth n).value (inParens e.spelled ++ r) e.Alike r := by
  obtain ⟨n, rfl⟩ := Nat.exists_eq_add_one.2 (Nat.zero_lt_of_lt hn)
  rw [Grammar.value_succ]
  have harrow : ∀ c : Cursor, c.Spells (inParens e.spelled ++ r) → c.startsArrow = false :=
    fun _ => h.opens.startsArrow_inParens (hr.kindAt_ne (by decide))
  refine Grammar.valueExpression_conditional harrow (by omega) ?_
  refine Grammar.conditional_binary hr ?_
  refine Grammar.binaryExpression_operand .logical (List.mem_cons_of_mem _ hr) ?_
  exact h.parens hmark (by omega) (by simp only; omega) hr.endsChain

/-- The second operand of an operator. -/
theorem binaryParens (h : Readable d e) (hmark : e.MarkedAs true) (hn : e.spelled.length + 1 < n)
    (hd : ctx.depth + 2 * d < depthLimit) (hr : Ends r) (least : Level) :
    Yields ctx ((Grammar.ofDepth n).binary least) (inParens e.spelled ++ r) e.Alike r := by
  obtain ⟨n, rfl⟩ := Nat.exists_eq_add_one.2 (Nat.zero_lt_of_lt hn)
  rw [Grammar.binary_succ]
  refine Grammar.binaryExpression_operand least (List.mem_cons_of_mem _ hr) ?_
  exact h.parens hmark (by omega) hd hr.endsChain

/-- An expression in front of a link, in parentheses if it needs them. -/
theorem front (h : Readable d x) (hmark : x.MarkedAs false) (hn : (x.inFront x.spelled).length ≤ n)
    (hd : ctx.depth + 2 * d < depthLimit) :
    Grammar.ChainsTo (.ofDepth n) ctx (x.inFront x.spelled) fun a => x.Alike a.1 := by
  unfold inFront at hn ⊢
  cases hplain : x.isPostfix with
  | true =>
    rw [hplain, if_pos rfl] at hn
    refine (h.chains hplain n ctx hn (by omega)).mono fun a ha => ?_
    rw [unmarked_of_markedAs hmark] at ha
    exact ha.1
  | false =>
    rw [hplain, if_neg Bool.false_ne_true] at hn
    have hlength : x.spelled.length < n := by
      simp only [inParens, List.cons_append, List.length_cons, List.length_append] at hn
      omega
    refine (Grammar.ChainsTo.of_primary fun r _ => Grammar.primary_parens ?_).mono fun a ha => ha.1
    exact h.value (markedAs_of_operators hplain true) hlength hd _ (ends_cons (by decide) r)

/-- What stands in front of a link, with the link. -/
theorem opens_link (h : Readable d x) (hr : StartsLink r) :
    Opens true (x.inFront x.spelled ++ r) := by
  have hopens := h.opens
  unfold inFront
  split
  · next hx => exact (hx ▸ hopens).link hr
  · obtain ⟨m, hm, s', rfl⟩ := hr
    exact .parens hopens (by rintro rfl; revert hm; decide)

/-! ### One lemma for each form -/

theorem constant (p : Position) (kind : ConstantKind) (value : String) :
    Readable d (.constant p kind value) := by
  have hspelled : (Expr.constant p kind value).spelled = [(kind.tokenKind, value)] := by rw [spelled]
  refine .of_chains ?_ rfl fun n ctx _ _ => ?_
  · rw [hspelled]
    exact .word (by cases kind <;> decide)
  · rw [hspelled]
    exact Grammar.ChainsTo.of_primary fun r _ => Grammar.primary_constant p kind value r

theorem identifier (i : Ident) : Readable d (.identifier i) := by
  have hspelled : (Expr.identifier i).spelled = [(.identifier, i.name)] := by rw [spelled]
  refine .of_chains ?_ rfl fun n ctx _ _ => ?_
  · rw [hspelled]
    exact .name (Or.inl rfl)
  · rw [hspelled]
    exact Grammar.ChainsTo.of_primary fun r hr => Grammar.primary_identifier i hr

theorem selector (h : Readable d x) (hx : x.MarkedAs false) (member : Ident)
    (optional outermost : Bool) : Readable (d + 1) (.selector x member optional outermost) := by
  have hspelled : (Expr.selector x member optional outermost).spelled = x.inFront x.spelled ++
      [if optional then Mark.questionDot.shape else Mark.dot.shape, (.identifier, member.name)] := by
    rw [spelled]
  have hlink := startsLink_selector optional [(.identifier, member.name)]
  refine .of_chains (hspelled ▸ h.opens_link hlink) rfl fun n ctx hn hd => ?_
  rw [hspelled, List.length_append] at hn
  rw [hspelled]
  refine (h.front hx (by omega) (by omega)).link hlink fun a r ha hr => ?_
  refine (Grammar.link_selector a.1 member optional hr).mono ?_
  rintro _ ⟨p, rfl⟩
  exact ⟨_, rfl, Alike.selector ha member p optional false⟩

theorem weaken {d' : Nat} (h : Readable d e) (hd : d ≤ d') : Readable d' e where
  opens := h.opens
  chains := fun hplain n ctx hn hd' => h.chains hplain n ctx hn (by omega)
  conditional := fun hmark n ctx hn hd' => h.conditional hmark n ctx hn (by omega)

/-- The key of an index is read as deep as the index itself, so the depth of what stands in front and that
of the key are all there is to it. -/
theorem index_of_front {key : Expr} {optional : Bool}
    (hopens : Opens true (x.inFront x.spelled ++ (optionalMark optional ++ inBrackets key.spelled)))
    (hfront : ∀ n ctx, (x.inFront x.spelled).length ≤ n → ctx.depth + 2 * d ≤ depthLimit →
      Grammar.ChainsTo (.ofDepth n) ctx (x.inFront x.spelled) fun a => x.Alike a.1)
    (h' : Readable d key) (hkey : key.MarkedAs true) (p : Position) (outermost : Bool) :
    Readable d (.index x p key optional outermost) := by
  have hspelled : (Expr.index x p key optional outermost).spelled =
      x.inFront x.spelled ++ (optionalMark optional ++ inBrackets key.spelled) := by
    rw [spelled]
  have hlink : StartsLink (optionalMark optional ++ inBrackets key.spelled) :=
    startsLink_optionalMark optional (by decide) _
  refine .of_chains (hspelled ▸ hopens) rfl fun n ctx hn hd => ?_
  have hlength : (x.inFront x.spelled).length ≤ n ∧ key.spelled.length < n := by
    simp only [hspelled, inBrackets, List.length_append, List.length_cons] at hn
    omega
  rw [hspelled]
  refine (hfront n ctx hlength.1 hd).link hlink fun a r ha hr => ?_
  have hexpression : ReadsBack ctx (Grammar.ofDepth n).expression key :=
    h'.expression hkey hlength.2 hd
  have hindex := Grammar.index_yields a.1 optional hexpression r
  have heq : optionalMark optional ++ inBrackets key.spelled ++ r = optionalMark optional ++
      Mark.openBracket.shape :: (key.spelled ++ Mark.closeBracket.shape :: r) := by
    simp [inBrackets]
  rw [heq]
  refine (Grammar.link_brackets a.1 optional (Or.inl ⟨rfl, rfl⟩) hindex).mono ?_
  rintro _ ⟨_, rfl, p', key', hkey', rfl⟩
  exact ⟨_, rfl, Alike.index ha hkey' p p' optional false⟩

theorem index {key : Expr} (h : Readable d x) (hx : x.MarkedAs false) (h' : Readable d key)
    (hkey : key.MarkedAs true) (p : Position) (optional outermost : Bool) :
    Readable (d + 1) (.index x p key optional outermost) := by
  have hlink : StartsLink (optionalMark optional ++ inBrackets key.spelled) :=
    startsLink_optionalMark optional (by decide) _
  exact .index_of_front (h.opens_link hlink) (fun n ctx hn hd => h.front hx hn (by omega))
    (h'.weaken (Nat.le_succ d)) hkey p outermost

theorem call {args : List Expr} {spread : Bool} (h : Readable d x) (hx : x.MarkedAs false)
    (h' : ∀ a ∈ args, Readable d a) (hargs : ∀ a ∈ args, a.MarkedAs true)
    (hspread : spread = true → args ≠ []) (p : Position) (optional outermost : Bool) :
    Readable (d + 1) (.call ⟨x, p, args, spread, optional, outermost⟩) := by
  have hspelled : (Expr.call ⟨x, p, args, spread, optional, outermost⟩).spelled =
      x.inFront x.spelled ++
        (optionalMark optional ++ Spelling.arguments (args.map spelled) spread) := by
    rw [spelled, allSpelled_eq_map]
  have hlink : StartsLink (optionalMark optional ++ Spelling.arguments (args.map spelled) spread) :=
    startsLink_optionalMark optional (by decide) _
  refine .of_chains (hspelled ▸ h.opens_link hlink) rfl fun n ctx hn hd => ?_
  have hlength : (x.inFront x.spelled).length ≤ n ∧
      (argumentList (args.map spelled) spread).length < n := by
    simp only [hspelled, Spelling.arguments, inParens, List.length_append, List.length_cons] at hn
    omega
  rw [hspelled]
  refine (h.front hx hlength.1 (by omega)).link hlink fun a r ha hr => ?_
  have hvalues : ∀ b ∈ args, ReadsBack ctx (Grammar.ofDepth n).value b := fun b hb => by
    have hle := length_le_argumentList (List.mem_map_of_mem (f := spelled) hb) spread
    exact (h' b hb).value (hargs b hb) (by omega) (by omega)
  have hcall := Grammar.call_yields a.1 optional (fun b hb => (h' b hb).opens) hvalues hspread r
  have heq : optionalMark optional ++ Spelling.arguments (args.map spelled) spread ++ r =
      optionalMark optional ++ Mark.openParen.shape ::
        (argumentList (args.map spelled) spread ++ Mark.closeParen.shape :: r) := by
    simp [Spelling.arguments, inParens]
  rw [heq]
  refine (Grammar.link_brackets a.1 optional (Or.inr ⟨rfl, rfl⟩) hcall).mono ?_
  rintro _ ⟨_, rfl, p', args', hargs', rfl⟩
  exact ⟨_, rfl, Alike.call ha hargs' p p' spread optional false⟩

theorem newInstance {typeName : Expr} {args : List Expr} {spread : Bool}
    (htype : typeName.IsTypeName) (h : ∀ a ∈ args, Readable d a)
    (hargs : ∀ a ∈ args, a.MarkedAs true) (hspread : spread = true → args ≠ []) (p : Position) :
    Readable (d + 1) (.newInstance p typeName args spread) := by
  refine .of_chains ?_ rfl fun n ctx hn hd => ?_
  · rw [spelled]
    exact .word (by decide)
  · rw [spelled, allSpelled_eq_map, Spelling.arguments, inParens] at hn
    simp only [List.length_append, List.length_cons] at hn
    refine Grammar.ChainsTo.of_primary fun r _ => ?_
    refine Grammar.primary_newInstance p (fun a ha => (h a ha).opens) (fun a ha => ?_) hspread r htype
    have hle := length_le_argumentList (List.mem_map_of_mem (f := spelled) ha) spread
    exact (h a ha).value (hargs a ha) (by omega) (by omega)

theorem arrayLiteral {es : List Expr} (h : ∀ e ∈ es, Readable d e)
    (hes : ∀ e ∈ es, e.MarkedAs true) (p : Position) : Readable (d + 1) (.arrayLiteral p es) := by
  refine .of_chains ?_ rfl fun n ctx hn hd => ?_
  · rw [spelled]
    exact .word (by decide)
  · rw [spelled, allSpelled_eq_map, inBrackets] at hn
    simp only [List.length_append, List.length_cons] at hn
    refine Grammar.ChainsTo.of_primary fun r _ => ?_
    refine Grammar.primary_arrayLiteral p (fun e he => (h e he).opens) (fun e he => ?_) r
    have hle := length_le_separated (List.mem_map_of_mem (f := spelled) he)
    exact (h e he).value (hes e he) (by omega) (by omega)

theorem mapLiteral {entries : List MapEntry} (h : ∀ m ∈ entries, Readable d m.value)
    (hentries : ∀ m ∈ entries, m.value.MarkedAs true) (p : Position) :
    Readable (d + 1) (.mapLiteral p entries) := by
  refine .of_chains ?_ rfl fun n ctx hn hd => ?_
  · rw [spelled]
    exact .word (by decide)
  · rw [spelled, entriesSpelled_eq_map] at hn
    simp only [List.length_append, List.length_cons] at hn
    refine Grammar.ChainsTo.of_primary fun r _ => ?_
    refine Grammar.primary_mapLiteral p (fun m hm => ?_) r
    have hle := length_le_separated (List.mem_map_of_mem
      (f := fun m : MapEntry => (.string, m.key) :: Mark.colon.shape :: m.value.spelled) hm)
    simp only [List.length_cons] at hle
    exact (h m hm).value (hentries m hm) (by omega) (by omega)

/-- Operators need only be read as a whole. -/
theorem of_conditional (hopens : Opens false e.spelled) (hplain : e.isPostfix = false)
    (h : ∀ n ctx, e.spelled.length ≤ n → ctx.depth + 2 * d ≤ depthLimit →
      ReadsBack ctx (Grammar.ofDepth n).conditional e) : Readable d e where
  opens := by rwa [hplain]
  chains := by
    intro h
    cases hplain.symm.trans h
  conditional := fun _ => h

theorem binary {left right : Expr} (h : Readable d left) (hleft : left.MarkedAs true)
    (h' : Readable d right) (hright : right.MarkedAs true) (op : BinaryOperator) :
    Readable (d + 1) (.binary op left right) := by
  obtain ⟨m, ms, hmarks, hm, hlink⟩ : ∃ m ms, op.marks = m :: ms ∧ m ≠ .arrow ∧ m ∉ linkMarks := by
    cases op <;> exact ⟨_, _, rfl, by decide, by decide⟩
  refine .of_conditional ?_ rfl fun n ctx hn hd r hr => ?_
  · rw [spelled, hmarks, List.map_cons, List.append_assoc, List.cons_append]
    exact .parens h.opens hm
  · rw [spelled] at hn ⊢
    simp only [inParens, List.length_append, List.length_cons, List.length_nil] at hn
    rw [List.append_assoc, List.append_assoc]
    have hbehind : EndsChain (op.marks.map Mark.shape ++ (inParens right.spelled ++ r)) := by
      rw [hmarks]
      refine ⟨fun m' hm' heq => ?_, by simp⟩
      cases heq
      exact hlink hm'
    have hfirst : Yields ctx (Grammar.ofDepth n).unaryExpression _ left.Alike _ :=
      h.parens hleft (by omega) (by omega) hbehind
    have hsecond : Yields ctx ((Grammar.ofDepth n).binary op.level.tighter) _ right.Alike r :=
      h'.binaryParens hright (by omega) (by omega) hr _
    exact Grammar.conditional_binary hr (Grammar.binaryExpression_binary hr hfirst hsecond)

theorem unary (h : Readable d x) (hx : x.MarkedAs true) (p : Position) (op : UnaryOperator) :
    Readable (d + 1) (.unary p op x) := by
  refine .of_conditional ?_ rfl fun n ctx hn hd r hr => ?_
  · rw [spelled]
    exact .operator op
  · rw [spelled] at hn ⊢
    simp only [inParens, List.length_append, List.length_cons, List.length_nil] at hn
    obtain ⟨n, rfl⟩ := Nat.exists_eq_add_one.2 (Nat.zero_lt_of_lt hn)
    refine Grammar.conditional_binary hr ?_
    refine Grammar.binaryExpression_operand .logical (List.mem_cons_of_mem _ hr) ?_
    refine Grammar.unaryExpression_unary p (.nested (by omega) ?_)
    rw [Grammar.unary_succ]
    exact h.parens hx (by omega) (by simp only; omega) hr.endsChain

theorem ternary {condition whenTrue whenFalse : Expr} (h : Readable d condition)
    (hcondition : condition.MarkedAs true) (h' : Readable d whenTrue)
    (htrue : whenTrue.MarkedAs true) (h'' : Readable d whenFalse)
    (hfalse : whenFalse.MarkedAs true) : Readable (d + 1) (.ternary condition whenTrue whenFalse) := by
  refine .of_conditional ?_ rfl fun n ctx hn hd r hr => ?_
  · rw [spelled, List.append_assoc, List.cons_append]
    exact .parens h.opens (by decide)
  · rw [spelled] at hn ⊢
    simp only [inParens, List.length_append, List.length_cons, List.length_nil] at hn
    rw [List.append_assoc, List.cons_append, List.append_assoc, List.cons_append]
    have hsecond : Yields ctx (Grammar.ofDepth n).value _ whenTrue.Alike _ :=
      h'.valueParens htrue (by omega) (by omega)
        (ends_cons (m := .colon) (by decide) (inParens whenFalse.spelled ++ r))
    have hthird : Yields ctx (Grammar.ofDepth n).value _ whenFalse.Alike r :=
      h''.valueParens hfalse (by omega) (by omega) hr
    refine Grammar.conditional_ternary ?_ hsecond hthird
    refine h.parens hcondition (by omega) (by omega) ⟨fun m hm heq => ?_, by simp⟩
    cases heq
    revert hm
    decide

end Readable

theorem Writable.readable (h : Writable d e) : Readable d e := by
  induction h with
  | constant => exact .constant _ _ _
  | identifier => exact .identifier _
  | selector hx hw ih => exact ih.selector hx _ _ _
  | index hx hw hkey hw' ih ihkey => exact ih.index hx ihkey hkey _ _ _
  | call hx hw hargs hw' hspread ih ihargs => exact ih.call hx ihargs hargs hspread _ _ _
  | newInstance htype hargs hw hspread ih => exact .newInstance htype ih hargs hspread _
  | binary hleft hw hright hw' ihleft ihright => exact ihleft.binary hleft ihright hright _
  | unary hx hw ih => exact ih.unary hx _ _
  | ternary hcondition hw htrue hw' hfalse hw'' ih ih' ih'' =>
    exact ih.ternary hcondition ih' htrue ih'' hfalse
  | mapLiteral hentries hw ih => exact .mapLiteral ih hentries _
  | arrayLiteral hes hw ih => exact .arrayLiteral ih hes _

end Expr

/-! ## Whole token lists -/

namespace Spelling

/-- Whether the grammar sees every token, and none of them is the end of the file. -/
def Visible (s : Spelling) : Prop := ∀ x ∈ s, x.1.isComment = false ∧ x.1 ≠ .endOfFile

@[simp] theorem visible_nil : Visible [] := fun _ h => absurd h List.not_mem_nil

@[simp] theorem visible_cons (x : Kind × String) :
    Visible (x :: s) ↔ (x.1.isComment = false ∧ x.1 ≠ .endOfFile) ∧ s.Visible :=
  List.forall_mem_cons

@[simp] theorem visible_append : (s ++ r).Visible ↔ s.Visible ∧ r.Visible := List.forall_mem_append

@[simp] theorem visible_inParens : (inParens s).Visible ↔ s.Visible := by
  simp [inParens, Kind.isComment]

@[simp] theorem visible_inBrackets : (inBrackets s).Visible ↔ s.Visible := by
  simp [inBrackets, Kind.isComment]

@[simp] theorem visible_optionalMark (optional : Bool) : (optionalMark optional).Visible := by
  cases optional <;> simp [optionalMark, Kind.isComment]

theorem visible_separated {items : List Spelling} (h : ∀ s ∈ items, s.Visible) :
    (separated items).Visible := by
  induction items with
  | nil => exact visible_nil
  | cons s items ih =>
    rw [List.forall_mem_cons] at h
    cases items with
    | nil =>
      rw [separated_singleton]
      exact h.1
    | cons t items => simp [separated_cons_cons, h.1, ih h.2, Kind.isComment]

theorem visible_arguments {items : List Spelling} (h : ∀ s ∈ items, s.Visible) (spread : Bool) :
    (Spelling.arguments items spread).Visible := by
  rw [Spelling.arguments, visible_inParens]
  induction items with
  | nil => cases spread <;> exact visible_nil
  | cons s items ih =>
    rw [List.forall_mem_cons] at h
    cases items with
    | nil => cases spread <;> simp [argumentList_singleton, h.1, Kind.isComment]
    | cons t items => simp [argumentList_cons_cons, h.1, ih h.2, Kind.isComment]

end Spelling

namespace Expr

theorem visible_inFront (h : x.spelled.Visible) : (x.inFront x.spelled).Visible := by
  unfold inFront
  split <;> simpa using h

theorem Writable.visible (h : Writable d e) : e.spelled.Visible := by
  induction h with
  | @constant d p kind value => cases kind <;> simp [spelled, ConstantKind.tokenKind, Kind.isComment]
  | identifier => simp [spelled, Kind.isComment]
  | @selector d x member optional outermost hx hw ih =>
    cases optional <;> simp [spelled, visible_inFront ih, Kind.isComment]
  | index hx hw hkey hw' ih ihkey => simp [spelled, visible_inFront ih, ihkey]
  | call hx hw hargs hw' hspread ih ihargs =>
    have hall := visible_arguments (List.forall_mem_map.2 ihargs)
    simp [spelled, visible_inFront ih, allSpelled_eq_map, hall]
  | newInstance htype hargs hw hspread ih =>
    have hall := visible_arguments (List.forall_mem_map.2 ih)
    cases htype <;>
      simp [spelled, inFront, isPostfix, allSpelled_eq_map, hall, Kind.isComment]
  | @binary d op left right hleft hw hright hw' ihleft ihright =>
    cases op <;> simp [spelled, ihleft, ihright, BinaryOperator.marks, Kind.isComment]
  | unary hx hw ih => simp [spelled, ih, Kind.isComment]
  | ternary hcondition hw htrue hw' hfalse hw'' ih ih' ih'' =>
    simp [spelled, ih, ih', ih'', Kind.isComment]
  | @mapLiteral d p entries hentries hw ih =>
    have hentry : ∀ m ∈ entries,
        Visible ((.string, m.key) :: Mark.colon.shape :: m.value.spelled) := fun m hm => by
      simp [ih m hm, Kind.isComment]
    simp [spelled, entriesSpelled_eq_map, visible_separated (List.forall_mem_map.2 hentry),
      Kind.isComment]
  | arrayLiteral hes hw ih =>
    simp [spelled, allSpelled_eq_map, visible_separated (List.forall_mem_map.2 ih)]

end Expr

/-- A cursor before tokens that the grammar sees. -/
theorem Cursor.ofTokens_spells {ts : List Token} (hts : Visible (ts.map Token.shape))
    (hshifts : ts.IsChain Token.ShiftsTogether) : (ofTokens ts).Spells (ts.map Token.shape) := by
  have hvisible : ∀ t ∈ ts, t.kind.isComment = false ∧ t.kind ≠ .endOfFile :=
    List.forall_mem_map.1 hts
  obtain ⟨p, hclosed⟩ : ∃ p, closed ts = ts ++ [.endOfFile p] := by
    unfold closed
    cases hlast : ts.getLast? with
    | none => exact ⟨.start, by rw [List.getLast?_eq_none_iff.1 hlast]; rfl⟩
    | some t => exact ⟨t.position, if_neg (hvisible t (List.mem_of_getLast? hlast)).2⟩
  have hsame : closed (ts ++ [.endOfFile p]) = ts ++ [.endOfFile p] := by
    unfold closed
    rw [List.getLast?_concat]
    exact if_pos rfl
  have hat : (ofTokens (ts ++ [.endOfFile p])).At (Token.visible (ts ++ [.endOfFile p])) :=
    ofTokens_at rfl fun t ht => (hvisible t ht).2
  have heq : ofTokens (ts ++ [.endOfFile p]) = ofTokens ts := by
    unfold ofTokens
    rw [hclosed, hsame]
  have hfilter : Token.visible (ts ++ [.endOfFile p]) = ts := by
    unfold Token.visible
    rw [List.filter_append, List.filter_eq_self.2 fun t ht => by simp [hvisible t ht]]
    exact List.append_nil ts
  rw [heq, hfilter] at hat
  exact ⟨ts, hat, rfl, hshifts⟩

namespace Expr

theorem Readable.whole (h : Readable d e) (hmark : e.MarkedAs true) (hn : e.spelled.length ≤ n)
    (hd : ctx.depth + 2 * d < depthLimit) :
    Yields ctx (Grammar.ofDepth n).wholeExpression e.spelled e.Alike [] := by
  have hends : Ends [] := (by decide : Kind.endOfFile ∈ endKinds)
  have hvalue : Yields ctx (Grammar.ofDepth n).valueExpression (e.spelled ++ []) e.Alike [] := by
    refine Grammar.valueExpression_conditional (fun _ => h.opens.startsArrow hends) (by omega) ?_
    exact h.conditional hmark n _ hn (by simp only; omega) [] hends
  rw [List.append_nil] at hvalue
  refine hvalue.bind fun b hb => ?_
  refine ((Yields.optional_none (by simp)).discard).bind fun _ _ => ?_
  exact .isAtThen_true rfl (.pure hb)

/-- A written expression is read as itself, up to positions. -/
theorem ofTokens_spelled {ts : List Token} (hw : Writable 90 e) (hmark : e.MarkedAs true)
    (hts : ts.map Token.shape = e.spelled) (hshifts : ts.IsChain Token.ShiftsTogether)
    (options : Options) : ∃ e', ofTokens ts options = .ok e' ∧ e.Alike e' := by
  have hspells := Cursor.ofTokens_spells (hts ▸ hw.visible) hshifts
  rw [hts] at hspells
  have hlength : e.spelled.length ≤ (Cursor.ofTokens ts).remaining + 1 := by
    rw [Cursor.remaining, hspells.length_ahead]
    exact Nat.le_succ _
  have hyields : Yields ⟨options.optimize, 0⟩ (Grammar.ofDepth _).wholeExpression _ e.Alike [] :=
    hw.readable.whole hmark hlength (show 0 + 2 * 90 < depthLimit by decide)
  obtain ⟨e', c, hok, he', -⟩ := hyields _ hspells
  have hrun : ofTokens ts options = ((Grammar.ofDepth ((Cursor.ofTokens ts).remaining + 1)).wholeExpression
      ⟨options.optimize, 0⟩ (Cursor.ofTokens ts)).map (·.1) := rfl
  refine ⟨e', ?_, he'⟩
  rw [hrun, hok]
  rfl

/-- The tokens of `f.g(...(a) >> (2))`. -/
theorem ofTokens_spelled_spreadShift :
    ∃ e', ofTokens [⟨.identifier, "f", ⟨1, 1⟩⟩, ⟨.mark .dot, ".", ⟨1, 2⟩⟩, ⟨.identifier, "g", ⟨1, 3⟩⟩,
        ⟨.mark .openParen, "(", ⟨1, 4⟩⟩, ⟨.mark .ellipsis, "...", ⟨1, 5⟩⟩,
        ⟨.mark .openParen, "(", ⟨1, 8⟩⟩, ⟨.identifier, "a", ⟨1, 9⟩⟩, ⟨.mark .closeParen, ")", ⟨1, 10⟩⟩,
        ⟨.mark .greater, ">", ⟨1, 12⟩⟩, ⟨.mark .greater, ">", ⟨1, 13⟩⟩,
        ⟨.mark .openParen, "(", ⟨1, 15⟩⟩, ⟨.int, "2", ⟨1, 16⟩⟩, ⟨.mark .closeParen, ")", ⟨1, 17⟩⟩,
        ⟨.mark .closeParen, ")", ⟨1, 18⟩⟩] ⟨false⟩ = .ok e' ∧
      (call ⟨selector (identifier ⟨.start, "f"⟩) ⟨.start, "g"⟩ false false, .start,
        [binary .shiftRight (identifier ⟨.start, "a"⟩) (constant .start .int "2")], true, false,
        true⟩).Alike e' := by
  have hshift : Writable 89
      (binary .shiftRight (identifier ⟨.start, "a"⟩) (constant .start .int "2")) :=
    .binary trivial .identifier trivial .constant
  have hcall : Writable 90 (call ⟨selector (identifier ⟨.start, "f"⟩) ⟨.start, "g"⟩ false false, .start,
      [binary .shiftRight (identifier ⟨.start, "a"⟩) (constant .start .int "2")], true, false,
      true⟩) :=
    .call rfl (.selector trivial .identifier) (by simp [MarkedAs]) (by simpa using hshift) (by simp)
  exact ofTokens_spelled hcall rfl (by rfl) (by simp [Token.ShiftsTogether]; decide) ⟨false⟩

end Expr

end ScriptFront
