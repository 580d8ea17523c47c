import ScriptFront.Proofs.Expression.Links
import ScriptFront.Proofs.Expression.Parameters

/-!
# Where an arrow function starts

Whether an arrow function starts is decided on four tokens at most. Where it does, no other expression is
lost: what an expression that is no arrow function could read there ends in front of the arrow. And
whatever could be read as the head of an arrow function starts one, other than a single name in
parentheses with the type of the result behind it (`Grammar.startsArrow_decides`).
-/

namespace ScriptFront

open Production

variable {g : Grammar} {ctx : Context} {c d d' : Cursor} {e : Expr} {n : Nat}

/-! ## Tokens that end an operand -/

/-- The marks that may follow a parameter, or stand behind the parentheses of parameters. None of them goes
on with an operand. -/
def Kind.stops : List Kind :=
  [.mark .comma, .mark .colon, .mark .closeParen, .mark .question, .mark .arrow]

def Cursor.AtStop (c : Cursor) : Prop :=
  c.peekKind ∈ Kind.stops

/-- The marks in the head of an arrow function that no expression starts with. -/
def Kind.startingNothing : List Kind :=
  [.mark .comma, .mark .colon, .mark .closeParen, .mark .ellipsis]

def Cursor.StartsNothing (c : Cursor) : Prop :=
  c.peekKind ∈ Kind.startingNothing

namespace Cursor

/-! The tokens that are looked at, as those that a cursor meets when it goes on. -/

variable {k k' k'' : Kind}

theorem kind_one (h : c.peekKind = k) (hk : k ≠ .endOfFile) : (c.peekNth 1).kind = c.next.peekKind :=
  congrArg Token.kind (c.peekNth_next (h ▸ hk) 0).symm

theorem kind_two (h : c.peekKind = k) (h' : c.next.peekKind = k') (hk : k ≠ .endOfFile)
    (hk' : k' ≠ .endOfFile) : (c.peekNth 2).kind = c.next.next.peekKind := by
  rw [← c.peekNth_next (h ▸ hk) 1]
  exact kind_one h' hk'

theorem kind_three (h : c.peekKind = k) (h' : c.next.peekKind = k') (h'' : c.next.next.peekKind = k'')
    (hk : k ≠ .endOfFile) (hk' : k' ≠ .endOfFile) (hk'' : k'' ≠ .endOfFile) :
    (c.peekNth 3).kind = c.next.next.next.peekKind := by
  rw [← c.peekNth_next (h ▸ hk) 2]
  exact kind_two h' h'' hk' hk''

theorem startsArrow_name (h : c.peekKind = .identifier) : c.startsArrow = c.next.isAt (.mark .arrow) := by
  unfold startsArrow isAt
  rw [h, ← kind_one h (by decide)]

end Cursor

theorem Cursor.StartsNothing.of_kind {k : Kind} (h : c.peekKind = k) (hk : k ∈ Kind.startingNothing) :
    c.StartsNothing := by
  unfold StartsNothing
  rwa [h]

namespace Cursor.AtStop

theorem of_kind {k : Kind} (h : c.peekKind = k) (hk : k ∈ Kind.stops) : c.AtStop := by
  unfold AtStop
  rwa [h]

theorem isAt_eq_false (h : c.AtStop) {k : Kind} (hk : k ∉ Kind.stops) : c.isAt k = false :=
  beq_eq_false_iff_ne.2 fun hkind => hk (hkind ▸ h)

theorem arrow (h : c.isAt (.mark .arrow) = true) : c.AtStop :=
  of_kind (beq_iff_eq.1 h) (by decide)

theorem startsLink (h : c.AtStop) : c.startsLink = false := by
  unfold Cursor.startsLink
  revert h
  unfold AtStop
  generalize c.peekKind = k
  revert k
  decide

theorem binaryOperator? (h : c.AtStop) : c.binaryOperator? = none := by
  unfold AtStop Kind.stops Cursor.peekKind at h
  unfold Cursor.binaryOperator?
  dsimp only
  simp only [List.mem_cons, List.not_mem_nil, or_false] at h
  rcases h with h | h | h | h | h <;> rw [h] <;> rfl

end Cursor.AtStop

theorem Cursor.isAt_question_of_arrow (h : c.isAt (.mark .arrow) = true) :
    c.isAt (.mark .question) = false := by
  unfold isAt
  rw [beq_iff_eq.1 h]
  rfl

namespace Grammar

theorem run_typeAssertion {type : Production Unit} (h : c.isAt (.mark .less) = false) :
    typeAssertion type ctx c = .ok ((), c) := by
  unfold typeAssertion
  rw [run_isAt_bind, h]
  rfl

theorem run_genericArguments (h : c.isAt (.mark .less) = false) :
    genericArguments ctx c = .ok ((), c) := by
  have hpeek : (Lookahead.ofCursor c).peek = c.peek := by
    unfold Lookahead.ofCursor Lookahead.peek Cursor.peek Cursor.peekNth
    rw [List.head?_eq_getElem?]
  have heat : (Lookahead.ofCursor c).eat (.mark .less) = none := by
    unfold Lookahead.eat
    rw [hpeek]
    exact if_neg (beq_eq_false_iff_ne.1 h)
  have hnone : (Lookahead.ofCursor c).typeArguments Lookahead.typeArgumentDepth = none := by
    unfold Lookahead.typeArgumentDepth Lookahead.typeArguments
    rw [heat]
    rfl
  unfold genericArguments
  rw [run_asks_bind, hnone]
  rfl

theorem chain_stops (h : g.chain e ctx c = .ok (e', d)) (hc : c.startsLink = false) : d = c := by
  obtain ⟨links, -, hlinks, -⟩ := chain_ok.1 h
  cases hlinks with
  | nil => rfl
  | cons hl => exact absurd hl.startsLink (Bool.eq_false_iff.1 hc)

theorem run_asTypes {type : Production Unit} (h : c.isAt .identifier = false) :
    asTypes type ctx c = .ok ((), c) := by
  have hword : c.peek.isWord "as" = false := by
    show (c.isAt .identifier && _) = false
    rw [h]
    rfl
  unfold asTypes rounds
  refine loopFrom_ok.2 (.inl ?_)
  rw [run_bind, run_isAtWord_bind, hword]
  rfl

theorem casts_stops {u : Unit} (h : (ofDepth n).casts ctx c = .ok (u, d))
    (hc : c.isAt .identifier = false) : d = c := by
  cases n with
  | zero => cases h
  | succ n =>
    rw [ofDepth_succ] at h
    have hrun : (ofDepth n).around.casts ctx c = .ok ((), c) := run_asTypes hc
    cases h.symm.trans hrun
    rfl

theorem operation_stops {least : Level} (h : c.binaryOperator? = none) :
    g.operation least e ctx c = .ok (.done e, c) := by
  unfold operation
  rw [run_asks_bind, h]
  rfl

/-! ## Names and parentheses -/

/-- A conditional expression that starts with no operator starts with a primary expression. If that one
ends in front of a stop, nothing but the two values of a ternary operator can follow. -/
theorem conditional_ok (hkind : c.peekKind ∈ .identifier :: .mark .openParen :: Kind.startingNothing)
    (h : (ofDepth n).conditional ctx c = .ok (e, d)) :
    ∃ e₀ d₀, (ofDepth n).primary ctx c = .ok (e₀, d₀) ∧
      (d₀.AtStop → ∃ condition, (ofDepth n).ternary condition ctx d₀ = .ok (e, d)) := by
  have hunary : (ofDepth n).unaryExpression ctx c = (ofDepth n).operand ctx c := by
    unfold unaryExpression
    rw [run_peekKind_bind]
    simp only [Kind.startingNothing, List.mem_cons, List.not_mem_nil, or_false] at hkind
    rcases hkind with hkind | hkind | hkind | hkind | hkind | hkind <;> simp only [hkind] <;> rfl
  have hless : c.isAt (.mark .less) = false := by
    refine beq_eq_false_iff_ne.2 fun hless => ?_
    rw [hless] at hkind
    revert hkind
    decide
  simp only [conditional, binaryExpression, bind_ok, hunary] at h
  obtain ⟨condition, c₁, ⟨first, c₂, hoperand, hloop⟩, hternary⟩ := h
  simp only [operand, postfixExpression, bind_ok, pure_ok] at hoperand
  obtain ⟨e₁, c₃, ⟨_, _, htype, e₀, d₀, hprimary, hchain⟩, _, _, hcasts, rfl, rfl⟩ := hoperand
  cases htype.symm.trans (run_typeAssertion hless)
  refine ⟨e₀, d₀, hprimary, fun hstop => ?_⟩
  obtain rfl := chain_stops hchain hstop.startsLink
  obtain rfl := casts_stops hcasts (hstop.isAt_eq_false (by decide))
  rcases loopFrom_ok.1 hloop with hdone | ⟨_, _, hagain, -⟩
  · cases hdone.symm.trans (operation_stops hstop.binaryOperator?)
    exact ⟨_, hternary⟩
  · cases hagain.symm.trans (operation_stops hstop.binaryOperator?)

/-- No expression starts with a mark that stands behind a parameter, nor with an ellipsis. -/
theorem conditional_fails (hkind : c.StartsNothing) {r : Expr × Cursor} :
    (ofDepth n).conditional ctx c ≠ .ok r := by
  intro h
  obtain ⟨e₀, d₀, hprimary, -⟩ := conditional_ok (List.mem_cons_of_mem _ (List.mem_cons_of_mem _ hkind)) h
  unfold primary at hprimary
  rw [run_peek_bind] at hprimary
  unfold Cursor.StartsNothing Kind.startingNothing Cursor.peekKind at hkind
  simp only [List.mem_cons, List.not_mem_nil, or_false] at hkind
  rcases hkind with hkind | hkind | hkind | hkind <;> rw [hkind] at hprimary <;> cases hprimary

theorem primary_name (hkind : c.peekKind = .identifier) (hstop : c.next.AtStop)
    (h : g.primary ctx c = .ok (e, d)) : d = c.next := by
  have hrun : g.primary ctx c = (do genericArguments; return Expr.identifier c.peek.ident) ctx c.next := by
    unfold primary
    rw [run_peek_bind, show c.peek.kind = .identifier from hkind]
    rfl
  rw [hrun, run_bind_of_ok (run_genericArguments (hstop.isAt_eq_false (by decide)))] at h
  exact (pure_ok.1 h).2

theorem primary_parentheses (hkind : c.peekKind = .mark .openParen) :
    g.primary ctx c = .ok (e, d) ↔
      ∃ d', g.value ctx c.next = .ok (e, d') ∧ d'.isAt (.mark .closeParen) = true ∧ d = d'.next := by
  have hrun : g.primary ctx c = (do
      let e ← g.value
      discard (accept (.mark .closeParen))
      return e) ctx c.next := by
    unfold primary
    rw [run_peek_bind, show c.peek.kind = .mark .openParen from hkind]
    rfl
  rw [hrun]
  simp only [bind_ok, discard_ok, accept_ok, pure_ok]
  constructor
  · rintro ⟨e, d', hvalue, _, _, ⟨_, hclose, _, rfl⟩, rfl, rfl⟩
    exact ⟨d', hvalue, hclose, rfl⟩
  · rintro ⟨d', hvalue, hclose, rfl⟩
    exact ⟨e, d', hvalue, (), _, ⟨_, hclose, rfl, rfl⟩, rfl, rfl⟩

/-- A value that is no arrow function is a conditional expression of some grammar below. -/
theorem value_ok (hstart : c.startsArrow = false) (h : (ofDepth n).value ctx c = .ok (e, d)) :
    ∃ m ctx', (ofDepth m).conditional ctx' c = .ok (e, d) := by
  cases n with
  | zero => cases h
  | succ n =>
    rw [ofDepth_succ] at h
    change nested (asks Cursor.startsArrow >>= _) ctx c = _ at h
    unfold nested at h
    split at h
    · cases h
    · rw [run_asks_bind, hstart] at h
      exact ⟨n, _, h⟩

/-- A name in front of a stop is the whole condition of an expression. -/
theorem conditional_name (hkind : c.peekKind = .identifier) (hstop : c.next.AtStop)
    (h : (ofDepth n).conditional ctx c = .ok (e, d)) :
    ∃ condition, (ofDepth n).ternary condition ctx c.next = .ok (e, d) := by
  obtain ⟨e₀, d₀, hprimary, hrest⟩ := conditional_ok (by rw [hkind]; decide) h
  obtain rfl := primary_name hkind hstop hprimary
  exact hrest hstop

theorem ternary_ok {condition : Expr} (hstop : c.isAt (.mark .question) = false)
    (h : g.ternary condition ctx c = .ok (e, d)) : d = c := by
  unfold ternary at h
  rw [run_bind_of_ok (run_skips_of_not ctx hstop)] at h
  exact (pure_ok.1 h).2

theorem value_fails (hkind : c.StartsNothing) {r : Expr × Cursor} : (ofDepth n).value ctx c ≠ .ok r := by
  have hstart : c.startsArrow = false := by
    unfold Cursor.StartsNothing Kind.startingNothing at hkind
    simp only [List.mem_cons, List.not_mem_nil, or_false] at hkind
    unfold Cursor.startsArrow
    rcases hkind with hkind | hkind | hkind | hkind <;> rw [hkind]
  intro h
  obtain ⟨m, ctx', hread⟩ := value_ok hstart h
  exact conditional_fails hkind hread

theorem ternary_fails {condition : Expr} (hquestion : c.isAt (.mark .question) = true)
    (hkind : c.next.StartsNothing) {r : Expr × Cursor} : (ofDepth n).ternary condition ctx c ≠ .ok r := by
  intro h
  unfold ternary at h
  rw [run_bind_of_ok (run_skips_of_isAt ctx hquestion)] at h
  obtain ⟨_, _, hvalue, -⟩ := bind_ok.1 h
  exact value_fails hkind hvalue

/-- A name in front of a stop that is no arrow is the condition of a value. -/
theorem ternary_of_value (hkind : c.peekKind = .identifier) (hstop : c.next.AtStop)
    (harrow : c.next.isAt (.mark .arrow) = false) (h : (ofDepth n).value ctx c = .ok (e, d)) :
    ∃ m ctx' condition, (ofDepth m).ternary condition ctx' c.next = .ok (e, d) := by
  obtain ⟨m, ctx', hread⟩ := value_ok ((Cursor.startsArrow_name hkind).trans harrow) h
  obtain ⟨condition, hternary⟩ := conditional_name hkind hstop hread
  exact ⟨m, ctx', condition, hternary⟩

theorem value_name (hkind : c.peekKind = .identifier)
    (hnext : c.next.peekKind ∈ [Kind.mark .comma, .mark .colon, .mark .closeParen])
    (h : (ofDepth n).value ctx c = .ok (e, d)) : d = c.next := by
  have hne : ∀ k ∉ [Kind.mark .comma, .mark .colon, .mark .closeParen], c.next.isAt k = false :=
    fun k hk => beq_eq_false_iff_ne.2 fun hkind => hk (hkind ▸ hnext)
  have hstop : c.next.AtStop :=
    List.mem_append_left [Kind.mark .question, .mark .arrow] hnext
  obtain ⟨m, ctx', condition, hternary⟩ := ternary_of_value hkind hstop (hne _ (by decide)) h
  exact ternary_ok (hne _ (by decide)) hternary

theorem value_optionalName (hkind : c.peekKind = .identifier)
    (hnext : c.next.peekKind = .mark .question) (hbehind : c.next.next.StartsNothing)
    {r : Expr × Cursor} : (ofDepth n).value ctx c ≠ .ok r := by
  intro h
  obtain ⟨m, ctx', condition, hternary⟩ :=
    ternary_of_value hkind (.of_kind hnext (by decide)) (by simp [Cursor.isAt, hnext]) h
  exact ternary_fails (beq_iff_eq.2 hnext) hbehind hternary

/-! ## What starts like an arrow function is no other expression -/

/-- Behind the parenthesis of what starts like an arrow function, the only value that a closing
parenthesis can follow is a name, and an arrow stands behind the two. -/
theorem isAt_arrow_of_value (hparen : c.peekKind = .mark .openParen) (hstart : c.startsArrow = true)
    (hvalue : (ofDepth n).value ctx c.next = .ok (e, d)) (hclose : d.isAt (.mark .closeParen) = true) :
    d.next.isAt (.mark .arrow) = true := by
  unfold Cursor.startsArrow at hstart
  rw [hparen] at hstart
  dsimp only at hstart
  rw [Cursor.kind_one hparen (by decide)] at hstart
  split at hstart
  · next hend => exact absurd hvalue (value_fails (.of_kind hend (by decide)))
  · next hend => exact absurd hvalue (value_fails (.of_kind hend (by decide)))
  · next hname =>
    rw [Cursor.kind_two hparen hname (by decide) (by decide)] at hstart
    split at hstart
    · next hcomma =>
      obtain rfl := value_name hname (by simp [hcomma]) hvalue
      simp [Cursor.isAt, hcomma] at hclose
    · next hcolon =>
      obtain rfl := value_name hname (by simp [hcolon]) hvalue
      simp [Cursor.isAt, hcolon] at hclose
    · next hquestion =>
      rw [Cursor.kind_three hparen hname hquestion (by decide) (by decide) (by decide)] at hstart
      refine absurd hvalue (value_optionalName hname hquestion ?_)
      split at hstart
      · next hbehind => exact .of_kind hbehind (by decide)
      · next hbehind => exact .of_kind hbehind (by decide)
      · next hbehind => exact .of_kind hbehind (by decide)
      · cases hstart
    · next hend =>
      rw [Cursor.kind_three hparen hname hend (by decide) (by decide) (by decide)] at hstart
      obtain rfl := value_name hname (by simp [hend]) hvalue
      exact hstart
    · cases hstart
  · cases hstart

theorem isAt_arrow_of_conditional (hstart : c.startsArrow = true)
    (h : (ofDepth n).conditional ctx c = .ok (e, d)) : d.isAt (.mark .arrow) = true := by
  have hkind : c.peekKind = .identifier ∨ c.peekKind = .mark .openParen := by
    unfold Cursor.startsArrow at hstart
    split at hstart
    · next hname => exact .inl hname
    · next hparen => exact .inr hparen
    · cases hstart
  rcases hkind with hname | hparen
  · have harrow : c.next.isAt (.mark .arrow) = true := (Cursor.startsArrow_name hname).symm.trans hstart
    obtain ⟨condition, hternary⟩ := conditional_name hname (.arrow harrow) h
    obtain rfl := ternary_ok (Cursor.isAt_question_of_arrow harrow) hternary
    exact harrow
  · obtain ⟨e₀, d₀, hprimary, hrest⟩ := conditional_ok (by rw [hparen]; decide) h
    obtain ⟨d', hvalue, hclose, rfl⟩ := (primary_parentheses hparen).1 hprimary
    have harrow := isAt_arrow_of_value hparen hstart hvalue hclose
    obtain ⟨condition, hternary⟩ := hrest (.arrow harrow)
    obtain rfl := ternary_ok (Cursor.isAt_question_of_arrow harrow) hternary
    exact harrow

/-! ## What can be read as the head of an arrow function starts one -/

theorem ascribedType_ok {type : Production Unit} {u : Unit} (h : ascribedType type ctx c = .ok (u, d))
    (hcolon : c.isAt (.mark .colon) = false) : d = c := by
  unfold ascribedType at h
  rw [run_bind_of_ok (run_skips_of_not ctx hcolon)] at h
  exact (pure_ok.1 h).2

theorem ascription_ok {u : Unit} (h : (ofDepth n).ascription ctx c = .ok (u, d))
    (hcolon : c.isAt (.mark .colon) = false) : d = c := by
  cases n with
  | zero => cases h
  | succ n =>
    rw [ofDepth_succ] at h
    exact ascribedType_ok h hcolon

/-- How parameters go on behind their parenthesis. -/
theorem parameters_head {parameters : Parameters}
    (h : (ofDepth n).parameters ctx c = .ok (parameters, d)) :
    c.peekKind = .mark .openParen ∧
      (c.next.peekKind = .mark .ellipsis ∨
        (c.next.peekKind = .mark .closeParen ∧ d = c.next.next) ∨
        c.next.peekKind = .identifier ∧
          let b := c.next.next.past (.mark .question)
          b.peekKind = .mark .colon ∨ b.peekKind = .mark .comma ∨
            (b.peekKind = .mark .closeParen ∧ d = b.next)) := by
  obtain ⟨hopen, entries, dangling, d', hentries, hclose, rfl, -⟩ := parameters_ok h
  refine ⟨beq_iff_eq.1 hopen, ?_⟩
  cases hdots : c.next.isAt (.mark .ellipsis) with
  | true => exact .inl (beq_iff_eq.1 hdots)
  | false =>
    refine .inr ?_
    have hpast := Cursor.past_of_not hdots
    -- The first entry is a name, and its type ends where it starts unless there is a colon.
    have hentry : ∀ {e : Parameters.Entry} {d'}, e.Stands (ofDepth n).ascription ctx c.next d' →
        c.next.peekKind = .identifier ∧ ((c.next.next.past (.mark .question)).peekKind = .mark .colon ∨
          d' = c.next.next.past (.mark .question)) := by
      intro e d' he
      have hname := he.name
      have htype := he.type
      rw [hpast] at hname htype
      refine ⟨beq_iff_eq.1 hname, ?_⟩
      cases hcolon : (c.next.next.past (.mark .question)).isAt (.mark .colon) with
      | true => exact .inl (beq_iff_eq.1 hcolon)
      | false => exact .inr (ascription_ok htype hcolon)
    cases hentries with
    | stop =>
      rw [hpast] at hclose ⊢
      exact .inl ⟨beq_iff_eq.1 hclose, rfl⟩
    | last he =>
      obtain ⟨hname, hcolon | rfl⟩ := hentry he
      · exact .inr ⟨hname, .inl hcolon⟩
      · exact .inr ⟨hname, .inr (.inr ⟨beq_iff_eq.1 hclose, rfl⟩)⟩
    | more he _ hcomma =>
      obtain ⟨hname, hcolon | rfl⟩ := hentry he
      · exact .inr ⟨hname, .inl hcolon⟩
      · exact .inr ⟨hname, .inr (.inl (beq_iff_eq.1 hcomma))⟩

/-- Where the head of an arrow function with parameters can be read, one starts unless it is the head of
a single name in parentheses with the type of the result. -/
theorem startsArrow_of_head {parameters : Parameters} {u : Unit}
    (hparameters : (ofDepth n).parameters ctx c = .ok (parameters, d))
    (htype : ascribedType (ofDepth n).type ctx d = .ok (u, d')) (harrow : d'.isAt (.mark .arrow) = true) :
    c.startsArrow = true ↔ ¬ ((c.peekNth 1).kind = .identifier ∧
      (c.peekNth 2).kind = .mark .closeParen ∧ (c.peekNth 3).kind = .mark .colon) := by
  obtain ⟨hparen, hrest⟩ := parameters_head hparameters
  have hend : d.peekKind = .mark .colon ∨ d.peekKind = .mark .arrow := by
    cases hcolon : d.isAt (.mark .colon) with
    | true => exact .inl (beq_iff_eq.1 hcolon)
    | false =>
      obtain rfl := ascribedType_ok htype hcolon
      exact .inr (beq_iff_eq.1 harrow)
  unfold Cursor.startsArrow
  rw [hparen]
  dsimp only
  rw [Cursor.kind_one hparen (by decide)]
  rcases hrest with hdots | ⟨hclose, rfl⟩ | ⟨hname, hrest⟩
  · rw [hdots]
    simp
  · rw [hclose, Cursor.kind_two hparen hclose (by decide) (by decide)]
    rcases hend with hend | hend <;> rw [hend] <;> simp
  · rw [hname, Cursor.kind_two hparen hname (by decide) (by decide)]
    dsimp only at hrest ⊢
    unfold Cursor.past at hrest
    split at hrest
    · next hquestion =>
      have hquestion := beq_iff_eq.1 hquestion
      rw [hquestion, Cursor.kind_three hparen hname hquestion (by decide) (by decide) (by decide)]
      rcases hrest with hcolon | hcomma | ⟨hclose, -⟩
      · rw [hcolon]
        simp
      · rw [hcomma]
        simp
      · rw [hclose]
        simp
    · rcases hrest with hcolon | hcomma | ⟨hclose, rfl⟩
      · rw [hcolon]
        simp
      · rw [hcomma]
        simp
      · rw [hclose, Cursor.kind_three hparen hname hclose (by decide) (by decide) (by decide)]
        rcases hend with hend | hend <;> rw [hend] <;> simp

/-- The tokens that are looked at tell where an arrow function starts. Where they say that one does, an
expression that is no arrow function fails or ends in front of an arrow. And they say so at a name with an
arrow behind it, and wherever parameters, the type of the result if there is one and an arrow can be read,
other than at `(x):`. -/
theorem startsArrow_decides (n : Nat) (ctx : Context) (c : Cursor) :
    (c.startsArrow = true → ∀ e d, (ofDepth n).conditional ctx c = .ok (e, d) →
      d.isAt (.mark .arrow) = true) ∧
    (c.isAt .identifier = true → (c.peekNth 1).kind = .mark .arrow → c.startsArrow = true) ∧
    (∀ parameters d d', (ofDepth n).parameters ctx c = .ok (parameters, d) →
      ascribedType (ofDepth n).type ctx d = .ok ((), d') → d'.isAt (.mark .arrow) = true →
      (c.startsArrow = true ↔ ¬ ((c.peekNth 1).kind = .identifier ∧
        (c.peekNth 2).kind = .mark .closeParen ∧ (c.peekNth 3).kind = .mark .colon))) := by
  refine ⟨fun hstart e d h => isAt_arrow_of_conditional hstart h, fun hname harrow => ?_,
    fun _ _ _ hparameters htype harrow => startsArrow_of_head hparameters htype harrow⟩
  rw [Cursor.startsArrow_name (beq_iff_eq.1 hname)]
  rw [Cursor.kind_one (beq_iff_eq.1 hname) (by decide)] at harrow
  exact beq_iff_eq.2 harrow

/-- The heads `(x) =>`, `x =>` and `(x?: n): n =>`. -/
theorem startsArrow_decides_heads :
    let here (tokens : List (Kind × String)) : Cursor :=
      .ofTokens (tokens.map fun t => ⟨t.1, t.2, .start⟩)
    let name : List (Kind × String) := [(.identifier, "x"), (.mark .arrow, "=>")]
    let parenthesized : List (Kind × String) :=
      [(.mark .openParen, "("), (.identifier, "x"), (.mark .closeParen, ")"), (.mark .arrow, "=>")]
    let ascribed : List (Kind × String) :=
      [(.mark .openParen, "("), (.identifier, "x"), (.mark .question, "?"), (.mark .colon, ":"),
        (.identifier, "n"), (.mark .closeParen, ")"), (.mark .colon, ":"), (.identifier, "n"),
        (.mark .arrow, "=>")]
    (∃ e d, (ofDepth 3).conditional ⟨false, 0⟩ (here parenthesized) = .ok (e, d) ∧
      d.isAt (.mark .arrow) = true) ∧
    (here name).startsArrow = true ∧
    ∃ parameters d d', (ofDepth 3).parameters ⟨false, 0⟩ (here ascribed) = .ok (parameters, d) ∧
      ascribedType (ofDepth 3).type ⟨false, 0⟩ d = .ok ((), d') ∧ (here ascribed).startsArrow = true := by
  intro here name parenthesized ascribed
  have hcondition : (ofDepth 3).conditional ⟨false, 0⟩ (here parenthesized) =
      .ok (.identifier ⟨.start, "x"⟩, (here parenthesized).advance 3) := rfl
  have hparameters : (ofDepth 3).parameters ⟨false, 0⟩ (here ascribed) =
      .ok (⟨.start, [⟨.start, "x", true⟩], false⟩, (here ascribed).advance 6) := rfl
  have htype : ascribedType (ofDepth 3).type ⟨false, 0⟩ ((here ascribed).advance 6) =
      .ok ((), (here ascribed).advance 8) := rfl
  exact ⟨⟨_, _, hcondition, (startsArrow_decides 3 _ _).1 (by decide) _ _ hcondition⟩,
    (startsArrow_decides 3 ⟨false, 0⟩ (here name)).2.1 (by decide) (by decide),
    _, _, _, hparameters, htype,
    ((startsArrow_decides 3 _ (here ascribed)).2.2 _ _ _ hparameters htype (by decide)).2 (by decide)⟩

end Grammar

end ScriptFront
