import ScriptFront.Production.SourceFile
import ScriptFront.Proofs.Expression.Grouping
import ScriptFront.Proofs.Production.StatementsRead

/-!
# Reading flat expressions

Reading a flat expression ends in one of two ways. Without type arguments every operand and operator is
kept, and the tree has them in order and is grouped by the levels of the operators, so that there is no
other one (`Expr.ofSource_grouped`). With type arguments their tokens are dropped, so that the tree is less
wide than the expression is long.
-/

namespace ScriptFront

open Grammar Production

variable {ctx : Context} {c d : Cursor} {t : Token} {p : Piece} {ts us : List Token} {ps : List Piece}

/-! ## Cursors in flat expressions -/

theorem Cursor.At.lookahead (h : c.At ts) : (Lookahead.ofCursor c).At ts := ⟨h.ahead, h.last⟩

theorem Cursor.At.closed (h : c.At ts) : c.Closed := h.last

/-- In a flat expression a cursor sees operands, operators and the end. -/
theorem Cursor.At.peekKind_flat (h : c.At ts) (hts : FlatRest ts) :
    c.peekKind = .endOfFile ∨ c.peekKind.IsOperator ∨ c.peekKind.IsOperand := by
  have hpeek : (Lookahead.ofCursor c).peek = c.peek := by
    unfold Lookahead.ofCursor Lookahead.peek Cursor.peek Cursor.peekNth
    rw [List.head?_eq_getElem?]
  rw [Cursor.peekKind, ← hpeek]
  exact h.lookahead.peek_flat hts

theorem Cursor.At.isAt_flat (h : c.At ts) (hts : FlatRest ts) {m : Mark}
    (hm : BinaryOperator.ofMark? m = none) : c.isAt (.mark m) = false := by
  rw [Cursor.isAt, beq_eq_false_iff_ne]
  intro hpeek
  rcases h.peekKind_flat hts with h | h | h
  · cases hpeek.symm.trans h
  · obtain ⟨m', op, hm', hop⟩ := h
    cases hpeek.symm.trans hm'
    cases hm.symm.trans hop
  · rcases h with h | h | h <;> cases hpeek.symm.trans h

/-! ## Operands -/

/-- Behind a name, nothing is read unless type arguments are found. -/
theorem genericArguments_flat (ctx : Context) (hc : c.At ts) (hts : FlatTail ts ps) :
    (genericArguments ctx c = .ok ((), c) ∧ ¬ StartsArguments ts) ∨
      ∃ d us, genericArguments ctx c = .ok ((), d) ∧ d.At us ∧ FlatRest us ∧
        us.length + 3 ≤ ts.length ∧ (StartsArguments ts ∨ HasArguments ts) := by
  have hrun : ∀ o, (Lookahead.ofCursor c).typeArguments Lookahead.typeArgumentDepth = o →
      genericArguments ctx c = .ok ((), c.advance ((o.map (·.consumed)).getD 0)) := by
    intro o ho
    unfold genericArguments
    rw [run_bind]
    unfold asks
    simp only [ho]
    cases o <;> rfl
  cases hscan : (Lookahead.ofCursor c).typeArguments Lookahead.typeArgumentDepth with
  | none =>
    refine Or.inl ⟨hrun _ hscan, fun hstarts => ?_⟩
    obtain ⟨l, hl⟩ := Lookahead.typeArguments_of_starts hc.lookahead hstarts 7
    cases hscan.symm.trans hl
  | some l =>
    obtain ⟨us, hfound, hlength, hstarts⟩ :=
      Lookahead.typeArguments_flat hc.lookahead hts hscan
    obtain ⟨xs, hxs⟩ := hfound.suffix
    have hconsumed : l.consumed = xs.length := by
      have hsum := hfound.consumed
      have hzero : (Lookahead.ofCursor c).consumed = 0 := rfl
      rw [← hxs, List.length_append, hzero] at hsum
      omega
    refine Or.inr ⟨_, us, hrun _ hscan, ?_, hfound.rest, hlength, hstarts⟩
    rw [Option.map_some, Option.getD_some, hconsumed]
    rw [← hxs] at hc hts
    exact hc.advance fun x hx => hts.ne_endOfFile x (List.mem_append_left _ hx)

/-- No link of a postfix chain stands in a flat expression. -/
theorem chain_flat {g : Grammar} (e : Expr) (hc : c.At ts) (hts : FlatRest ts) :
    g.chain e ctx c = .ok (e, c) := by
  have hmark : ∀ m, BinaryOperator.ofMark? m = none → c.peekKind ≠ .mark m := fun m hm =>
    beq_eq_false_iff_ne.1 (hc.isAt_flat hts hm)
  have hlink : g.link e ctx c = .ok (none, c) := by
    unfold link
    rw [run_peekKind_bind]
    refine congrFun (congrFun (?_ : (_ : Production (Option Expr)) = Pure.pure none) ctx) c
    split
    · next hkind => exact absurd hkind (hmark _ rfl)
    · next hkind => exact absurd hkind (hmark _ rfl)
    · next hkind => exact absurd hkind (hmark _ rfl)
    · next hkind => exact absurd hkind (hmark _ rfl)
    · rfl
  unfold chain loop loopFrom
  rw [run_bind, run_bind, hlink]
  rfl

/-- A name or an integer is read as what it is, with the type arguments that are found behind a name. -/
theorem primary_flat (g : Grammar) (ctx : Context) (hc : c.At (t :: ts)) (ht : t.operand? = some p) :
    ∃ e : Expr, e.inorder = [p] ∧ e.width = 1 ∧
      ((t.kind ≠ .identifier ∧ g.primary ctx c = .ok (e, c.next)) ∨
        (t.kind = .identifier ∧
          g.primary ctx c = (do genericArguments; return e : Production Expr) ctx c.next)) := by
  unfold primary
  rw [run_peek_bind, hc.peek_cons]
  unfold Token.operand? at ht
  split at ht
  · next hkind =>
    cases ht
    refine ⟨.identifier t.ident, rfl, rfl, Or.inr ⟨hkind, ?_⟩⟩
    simp only [hkind, ConstantKind.ofKind?]
    rfl
  · next hkind =>
    cases ht
    refine ⟨.constant t.position .int t.text, rfl, rfl, Or.inl ⟨by simp [hkind], ?_⟩⟩
    simp only [hkind, ConstantKind.ofKind?]
    rfl
  · next hkind =>
    obtain ⟨n, hn, rfl⟩ := Option.map_eq_some_iff.1 ht
    refine ⟨.constant t.position .int (toString n), rfl, rfl, Or.inl ⟨by simp [hkind], ?_⟩⟩
    simp only [hkind, ConstantKind.ofKind?, run_discard_next_bind, hn]
    rfl
  · cases ht

/-- No type stands in a flat expression behind an operand. -/
theorem casts_flat {n : Nat} (hc : c.At ts) (hts : FlatTail ts ps) :
    (ofDepth (n + 1)).casts ctx c = .ok ((), c) := by
  have hword : c.peek.isWord "as" = false := by
    unfold Token.isWord
    rw [Bool.and_eq_false_iff]
    refine Or.inl (beq_eq_false_iff_ne.2 fun hkind => ?_)
    cases ts with
    | nil => cases hkind.symm.trans hc.peekKind_nil
    | cons t ts =>
      rw [hc.peek_cons] at hkind
      exact (show Kind.IsOperand t.kind from Or.inl hkind).not_isOperator hts.isOperator
  rw [ofDepth_succ]
  show asTypes _ ctx c = _
  unfold asTypes rounds loop loopFrom
  rw [run_bind, run_bind, run_isAtWord_bind, hword]
  rfl

/-- An operand is read as a postfix chain without links. -/
theorem unaryExpression_eq (g : Grammar) (ctx : Context) (hc : c.At (t :: ts)) (ht : t.kind.IsOperand) :
    g.unaryExpression ctx c =
      (do
        let e ← g.primary
        let e ← g.chain e
        g.casts
        return e : Production Expr) ctx c := by
  have hless : c.isAt (.mark .less) = false := by
    rw [Cursor.isAt, hc.peekKind_cons, beq_eq_false_iff_ne]
    intro hkind
    rcases ht with h | h | h <;> cases hkind.symm.trans h
  have hassertion : typeAssertion g.type ctx c = .ok ((), c) := by
    unfold typeAssertion
    rw [run_isAt_bind, hless]
    rfl
  have hpostfix : ∀ f : Expr → Production Expr,
      (g.postfixExpression >>= f) ctx c = (g.primary >>= fun e => g.chain e >>= f) ctx c := by
    intro f
    unfold postfixExpression
    rw [run_bind, run_bind_of_ok hassertion, run_bind, run_bind]
    cases g.primary ctx c <;> rfl
  unfold unaryExpression
  rw [run_peekKind_bind, hc.peekKind_cons]
  rcases ht with hkind | hkind | hkind
  all_goals
    rw [hkind]
    exact hpostfix _

/-- An operand is read as it stands, or with type arguments that are dropped. -/
theorem unaryExpression_flat (n : Nat) (ctx : Context) (hc : c.At (t :: ts))
    (ht : t.operand? = some p) (hts : FlatTail ts ps) :
    (∃ e, (ofDepth (n + 1)).unaryExpression ctx c = .ok (e, c.next) ∧ e.inorder = [p] ∧
        (HasArguments (t :: ts) → HasArguments ts)) ∨
      (HasArguments (t :: ts) ∧ ∀ e d, (ofDepth (n + 1)).unaryExpression ctx c = .ok (e, d) →
        e.width + d.remaining < (t :: ts).length) := by
  have hnext : c.next.At ts := hc.next (Token.isOperand_of_operand? ht).ne_endOfFile
  obtain ⟨e, hinorder, hwidth, hprimary⟩ := primary_flat (ofDepth (n + 1)) ctx hc ht
  -- What is read behind the operand when nothing is dropped.
  have hclean : (ofDepth (n + 1)).primary ctx c = .ok (e, c.next) →
      (ofDepth (n + 1)).unaryExpression ctx c = .ok (e, c.next) := by
    intro hok
    rw [unaryExpression_eq _ ctx hc (Token.isOperand_of_operand? ht), run_bind_of_ok hok,
      run_bind_of_ok (chain_flat e hnext ⟨ps, Or.inl hts⟩), run_bind_of_ok (casts_flat hnext hts)]
    rfl
  have hlater : ¬ (t.kind = .identifier ∧ StartsArguments ts) → HasArguments (t :: ts) →
      HasArguments ts := fun hnot hargs => hargs.resolve_left hnot
  rcases hprimary with ⟨hkind, hok⟩ | ⟨hkind, heq⟩
  · exact Or.inl ⟨e, hclean hok, hinorder, hlater fun h => hkind h.1⟩
  · rcases genericArguments_flat ctx hnext hts with
      ⟨hok, hnot⟩ | ⟨d, us, hok, hd, hus, hlength, hstarts⟩
    · refine Or.inl ⟨e, hclean ?_, hinorder, hlater fun h => hnot h.2⟩
      rw [heq, run_bind_of_ok hok]
      rfl
    · refine Or.inr ⟨hstarts.imp_left fun h => ⟨hkind, h⟩, fun e' d' hok' => ?_⟩
      · have hread : (ofDepth (n + 1)).primary ctx c = .ok (e, d) := by
          rw [heq, run_bind_of_ok hok]
          rfl
        rw [unaryExpression_eq _ ctx hc (Token.isOperand_of_operand? ht), run_bind_of_ok hread,
          run_bind_of_ok (chain_flat e hd hus)] at hok'
        obtain ⟨_, d'', hcasts, hok'⟩ := bind_ok.1 hok'
        cases hok'
        have hle := ((progress_ofDepth (n + 1)).casts.reads.reaches hd.closed hcasts).remaining_le
        rw [hd.remaining_eq] at hle
        rw [hwidth, List.length_cons]
        omega

/-! ## Widths -/

/-- The number of tokens that a piece is written with. -/
def Piece.width : Piece → Nat
  | .operator op => op.width
  | _ => 1

/-- The number of tokens that all of some pieces are written with. -/
def Piece.widths : List Piece → Nat
  | [] => 0
  | p :: ps => p.width + widths ps

theorem Piece.widths_append (ps qs : List Piece) : widths (ps ++ qs) = widths ps + widths qs := by
  induction ps with
  | nil => exact (Nat.zero_add _).symm
  | cons p ps ih =>
    simp only [List.cons_append, widths, ih]
    omega

theorem Expr.widths_inorder (e : Expr) : Piece.widths e.inorder = e.width := by
  induction e using Expr.inorder.induct with
  | case1 op left right ihl ihr =>
    simp only [inorder, width, Piece.widths_append, Piece.widths, ihl, ihr, Piece.width]
    omega
  | case2 => rfl
  | case3 => rfl
  | case4 e hbinary =>
    cases e with
    | binary op left right => exact absurd rfl (hbinary op left right)
    | _ => rfl

theorem BinaryOperator.Writes.length_eq {written : List Token} {op : BinaryOperator}
    (h : op.Writes written) : written.length = op.width := by
  cases h with
  | mark _ hop => exact (width_of_ofMark? hop).symm
  | shiftRight => rfl

theorem Piece.width_of_operand? (ht : t.operand? = some p) : p.width = 1 := by
  unfold Token.operand? at ht
  split at ht
  · cases ht
    rfl
  · cases ht
    rfl
  · obtain ⟨n, -, rfl⟩ := Option.map_eq_some_iff.1 ht
    rfl
  · cases ht

theorem FlatTail.widths_eq (h : FlatTail ts ps) : Piece.widths ps = ts.length := by
  induction h with
  | nil => rfl
  | cons hop ht _ ih =>
    simp only [Piece.widths, List.length_append, List.length_cons, ih, Piece.width_of_operand? ht,
      hop.length_eq]
    rw [Piece.width]
    omega

theorem Flat.widths_eq (h : Flat ts ps) : Piece.widths ps = ts.length := by
  obtain ⟨ht, hrest⟩ := h
  simp only [Piece.widths, List.length_cons, hrest.widths_eq, Piece.width_of_operand? ht]
  omega

/-! ## Operators -/

/-- In what follows an operand, the next operator is seen with its operand behind it. -/
theorem binaryOperator_flat (hc : c.At ts) (hts : FlatTail ts ps) :
    (ts = [] ∧ ps = [] ∧ c.binaryOperator? = none) ∨
      ∃ op written t p us qs, ts = written ++ t :: us ∧ ps = .operator op :: p :: qs ∧
        op.Writes written ∧ t.operand? = some p ∧ FlatTail us qs ∧
        c.binaryOperator? = some (op, written.length) ∧ (c.advance written.length).At (t :: us) := by
  cases hts with
  | nil =>
    refine Or.inl ⟨rfl, rfl, ?_⟩
    unfold Cursor.binaryOperator?
    have hkind : c.peek.kind = .endOfFile := hc.peekKind_nil
    simp only [hkind]
  | @cons written op t p us qs hop ht hrest =>
    refine Or.inr ⟨op, written, t, p, us, qs, rfl, rfl, hop, ht, hrest, ?_, ?_⟩
    · cases hop with
      | @mark s m _ hs hop =>
        have hsecond : (c.peekNth 1).kind ≠ .mark .greater := by
          rw [hc.peekNth_one_cons]
          intro hkind
          exact (Token.isOperand_of_operand? ht).not_isOperator ⟨_, _, hkind, rfl⟩
        unfold Cursor.binaryOperator?
        have hkind : c.peek.kind = .mark m := hc.peekKind_cons.trans hs
        simp only [hkind]
        split
        · next hgreater =>
          cases hgreater
          cases hop
          rw [if_neg fun h => hsecond h.1]
          rfl
        · next hmark =>
          cases hmark
          rw [hop]
          rfl
        · next hmark => exact absurd rfl (hmark _)
      | @shiftRight s s' hs hs' hadjacent =>
        unfold Cursor.binaryOperator?
        have hsecond : c.peekNth 1 = s' := hc.peekNth_one_cons
        have hfirst : c.peek = s := hc.peek_cons
        simp only [hsecond, hs', hfirst, hs, hadjacent]
        rfl
    · exact hc.advance fun x hx => (hop.isOperator x hx).ne_endOfFile

/-! ## Whole expressions -/

/-- The tree `e` has the pieces `ps` of the tokens `ts` but for those that are left at `d`, where no
operator of level `least` follows. -/
structure Keeps (least : Level) (ts : List Token) (ps : List Piece) (e : Expr) (d : Cursor) : Prop where
  rest : ∃ us qs, d.At us ∧ FlatTail us qs ∧ us <:+ ts ∧ e.inorder ++ qs = ps ∧
    (HasArguments ts → HasArguments us)
  stops : ∀ op width, d.binaryOperator? = some (op, width) → op.level.rank < least.rank
  joins : e.Joins least d

/-- The tree that is read, if one is, is less wide than the `n` tokens that it was read from. -/
def Drops (n : Nat) (r : Except Error (Expr × Cursor)) : Prop :=
  ∀ e d, r = .ok (e, d) → e.width + d.remaining < n

/-- What was dropped on the left of an operator stays dropped. -/
theorem drops_operations {g : Grammar} [g.Progress] {least : Level} {rounds : List Stop} {left : Expr}
    {n : Nat} (hc : c.Closed) (hleft : left.width + c.remaining < n) :
    Drops n (loopFrom (g.operation least) rounds left ctx c) := by
  intro e d hok
  have hle := ((loopFrom_reads (operation_reads least) rounds left).reaches hc hok).remaining_le
  omega

/-- How a flat expression is read by `run`. -/
def ReadsFlat (least : Level) (ts : List Token) (ps : List Piece)
    (r : Except Error (Expr × Cursor)) : Prop :=
  (∃ e d, r = .ok (e, d) ∧ Keeps least ts ps e d) ∨ (HasArguments ts ∧ Drops ts.length r)

/-- Operators are read one by one, if their operands are. -/
theorem operations_flat {g : Grammar} [g.Progress] {least : Level} {all : List Token}
    {pieces : List Piece} (hpieces : Piece.widths pieces = all.length)
    (hbinary : ∀ {least : Level} {c : Cursor} {ts : List Token} {ps : List Piece}, c.At ts →
      Flat ts ps → ts.length < all.length → ReadsFlat least ts ps (g.binary least ctx c))
    (rounds : List Stop) (left : Expr) (hc : c.At ts) (hts : FlatTail ts ps)
    (hsuffix : ts <:+ all) (hlength : ts.length < all.length) (hrounds : ts.length < rounds.length)
    (hleft : left.inorder ++ ps = pieces) (hjoins : left.Joins least c)
    (hargs : HasArguments all → HasArguments ts) :
    ReadsFlat least all pieces (loopFrom (g.operation least) rounds left ctx c) := by
  induction rounds generalizing left c ts ps with
  | nil => exact absurd hrounds (Nat.not_lt_zero _)
  | cons _ rounds ih =>
    have hdone : ∀ {r : Except Error (Expr × Cursor)}, r = .ok (left, c) →
        (∀ op width, c.binaryOperator? = some (op, width) → op.level.rank < least.rank) →
        ReadsFlat least all pieces r := fun hr hstops =>
      Or.inl ⟨left, c, hr, ⟨ts, ps, hc, hts, hsuffix, hleft, hargs⟩, hstops, hjoins⟩
    unfold loopFrom operation
    rw [run_bind, run_asks_bind]
    rcases binaryOperator_flat hc hts with ⟨rfl, rfl, hnone⟩ |
      ⟨op, written, t, p, us, qs, rfl, rfl, hop, ht, hrest, hsome, hoperand⟩
    · rw [hnone]
      exact hdone rfl fun op width h => by cases hnone.symm.trans h
    · rw [hsome]
      simp only
      by_cases hlevel : op.level.rank < least.rank
      · rw [if_pos hlevel]
        refine hdone rfl fun op' width h => ?_
        cases hsome.symm.trans h
        exact hlevel
      · have hadvance : advance written.length ctx c = .ok ((), c.advance written.length) := rfl
        have hshort : (t :: us).length < (written ++ t :: us).length := by
          rw [List.length_append, hop.length_eq]
          have := op.one_le_width
          omega
        have hbehind : (t :: us) <:+ all := (List.suffix_append written _).trans hsuffix
        have hlater : HasArguments all → HasArguments (t :: us) := fun h => hop.of_hasArguments (hargs h)
        rw [if_neg hlevel, run_bind_of_ok hadvance, run_bind]
        rcases hbinary hoperand ⟨ht, hrest⟩ (Nat.lt_trans hshort hlength) with
          ⟨right, d, hok, ⟨us', qs', hd, hus', hsuffix', hinorder, hmore⟩, hstops, hright⟩ |
          ⟨hhas, hdrops⟩
        · rw [hok]
          have hle := hsuffix'.length_le
          refine ih _ hd hus' (hsuffix'.trans hbehind) (by omega) ?_ ?_ ?_ (hmore ∘ hlater)
          · rw [List.length_cons] at hrounds
            omega
          · rw [← hleft, ← hinorder]
            simp only [Expr.inorder, List.append_assoc, List.cons_append]
          · exact hjoins.binary hsome (Nat.le_of_not_lt hlevel) hright hstops
        · refine Or.inr ⟨hhas.of_suffix hbehind, ?_⟩
          cases hright : g.binary op.level.tighter ctx (c.advance written.length) with
          | error e =>
            intro _ _ h
            cases h
          | ok r =>
            obtain ⟨right, d⟩ := r
            have hreach := (Progress.binary op.level.tighter).reaches hoperand.closed hright
            refine drops_operations (hreach.closed hoperand.closed) ?_
            have hdropped := hdrops right d hright
            have hwidth := congrArg Piece.widths hleft
            rw [hpieces, Piece.widths_append, left.widths_inorder] at hwidth
            simp only [Piece.widths, hrest.widths_eq, Piece.width_of_operand? ht] at hwidth
            simp only [Piece.width, Expr.width, List.length_cons] at hwidth hdropped ⊢
            omega

/-- A flat expression is read in order, or type arguments in it are dropped. -/
theorem binaryExpression_flat (n : Nat) (ctx : Context) (least : Level) (hc : c.At ts)
    (hflat : Flat ts ps) (hlength : ts.length ≤ n) :
    ReadsFlat least ts ps ((ofDepth n).binaryExpression least ctx c) := by
  induction n generalizing least c ts ps with
  | zero =>
    cases hflat
    exact absurd hlength (Nat.not_succ_le_zero _)
  | succ n ih =>
    have hbinary : ∀ {least : Level} {c : Cursor} {us : List Token} {qs : List Piece}, c.At us →
        Flat us qs → us.length < ts.length →
        ReadsFlat least us qs ((ofDepth (n + 1)).binary least ctx c) := by
      intro least c us qs hc hus hshort
      rw [ofDepth_succ]
      exact ih least hc hus (by omega)
    have hwidth := hflat.widths_eq
    obtain ⟨ht, hts⟩ := hflat
    unfold binaryExpression
    rcases unaryExpression_flat n ctx hc ht hts with ⟨e, hok, hinorder, hmore⟩ | ⟨hhas, hdrops⟩
    · have hnext := hc.next (Token.isOperand_of_operand? ht).ne_endOfFile
      rw [run_bind_of_ok hok]
      refine operations_flat hwidth hbinary _ e hnext hts (List.suffix_cons _ _)
        (Nat.lt_succ_self _) ?_ ?_ (.of_operand ht hinorder) hmore
      · rw [← hnext.remaining_eq]
        exact Nat.lt_succ_self _
      · rw [hinorder]
        rfl
    · refine Or.inr ⟨hhas, fun e' d' hok' => ?_⟩
      obtain ⟨e, d, hok, hloop⟩ := bind_ok.1 hok'
      have hreach := unaryExpression_reads.reaches hc.closed hok
      exact drops_operations (hreach.closed hc.closed) (hdrops e d hok) e' d' hloop

/-- Operators of every level are read up to the end. -/
theorem Keeps.whole {e : Expr} (h : Keeps .logical ts ps e d) :
    d.At [] ∧ e.inorder = ps ∧ e.Grouped ∧ ¬ HasArguments ts := by
  obtain ⟨⟨us, qs, hd, hus, -, hinorder, hmore⟩, hstops, hjoins⟩ := h
  rcases binaryOperator_flat hd hus with ⟨rfl, rfl, -⟩ | ⟨op, _, _, _, _, _, -, -, -, -, -, hsome, -⟩
  · refine ⟨hd, ?_, hjoins.grouped, hmore⟩
    rw [← hinorder, List.append_nil]
  · exact absurd (hstops _ _ hsome) (Nat.not_lt_zero _)

/-- What is read of a flat expression as a value. -/
theorem conditional_flat (n : Nat) (ctx : Context) (hc : c.At ts) (hflat : Flat ts ps)
    (hlength : ts.length ≤ n) :
    (¬ HasArguments ts ∧ ∃ e d, (ofDepth n).conditional ctx c = .ok (e, d) ∧ d.At [] ∧
        e.inorder = ps ∧ e.Grouped) ∨
      (HasArguments ts ∧ Drops ts.length ((ofDepth n).conditional ctx c)) := by
  unfold conditional
  rcases binaryExpression_flat n ctx .logical hc hflat hlength with
    ⟨e, d, hok, hkeeps⟩ | ⟨hhas, hdrops⟩
  · obtain ⟨hd, hinorder, hgrouped, hnot⟩ := hkeeps.whole
    refine Or.inl ⟨hnot, e, d, ?_, hd, hinorder, hgrouped⟩
    rw [run_bind_of_ok hok]
    unfold ternary
    rw [run_bind_of_ok (run_skips_of_not ctx (hd.isAt_nil (by simp)))]
    rfl
  · refine Or.inr ⟨hhas, fun e' d' hok' => ?_⟩
    obtain ⟨e, d, hok, hternary⟩ := bind_ok.1 hok'
    have hclosed := ((binaryExpression_reads .logical).reaches hc.closed hok).closed hc.closed
    have hle := ((ternary_reads e).reaches hclosed hternary).remaining_le
    have := hdrops e d hok
    omega

/-- No arrow function starts in a flat expression. -/
theorem startsArrow_flat (hc : c.At (t :: ts)) (ht : t.operand? = some p) (hts : FlatTail ts ps) :
    c.startsArrow = false := by
  have hsecond : (c.peekNth 1).kind ≠ .mark .arrow := by
    rw [hc.peekNth_one_cons]
    cases ts with
    | nil => simp [hc.last]
    | cons s ts =>
      obtain ⟨m, op, hm, hop⟩ := hts.isOperator
      intro hkind
      cases hm.symm.trans hkind
      cases hop
  unfold Cursor.startsArrow
  rw [hc.peekKind_cons]
  rcases Token.isOperand_of_operand? ht with hkind | hkind | hkind
  · rw [hkind]
    exact beq_eq_false_iff_ne.2 hsecond
  · rw [hkind]
  · rw [hkind]

/-- A flat expression is no arrow function, so it is read as operands and operators. -/
theorem valueExpression_flat (n : Nat) (optimize : Bool) (hc : c.At ts) (hflat : Flat ts ps) :
    (ofDepth n).valueExpression ⟨optimize, 0⟩ c = (ofDepth n).conditional ⟨optimize, 1⟩ c := by
  have harrow : c.startsArrow = false := by
    obtain ⟨ht, hts⟩ := hflat
    exact startsArrow_flat hc ht hts
  unfold valueExpression
  rw [run_nested _ _ (show 0 < depthLimit by decide), run_asks_bind, harrow]
  rfl

/-- A flat expression that is all of a token list is read in order, and grouped by the levels of its
operators, when it has no type arguments. -/
theorem wholeExpression_grouped (n : Nat) (optimize : Bool) (hc : c.At ts) (hflat : Flat ts ps)
    (hlength : ts.length ≤ n) (hnot : ¬ HasArguments ts) :
    ∃ e d, (ofDepth n).wholeExpression ⟨optimize, 0⟩ c = .ok (e, d) ∧ e.inorder = ps ∧ e.Grouped := by
  rcases conditional_flat n ⟨optimize, 1⟩ hc hflat hlength with
    ⟨-, e, d, hok, hd, hinorder, hgrouped⟩ | ⟨hhas, -⟩
  · refine ⟨e, d, ?_, hinorder, hgrouped⟩
    have hend : d.isAt .endOfFile = true := by
      rw [Cursor.isAt, hd.peekKind_nil]
      rfl
    have hsemicolon : semicolon ⟨optimize, 0⟩ d = .ok ((), d) :=
      run_bind_of_ok (run_optional_of_not _ (hd.isAt_nil (by simp)))
    unfold wholeExpression
    rw [run_bind_of_ok ((valueExpression_flat n optimize hc hflat).trans hok),
      run_bind_of_ok hsemicolon, run_isAt_bind, hend]
    rfl
  · exact absurd hhas hnot

/-- A flat expression that is all of a token list is read in order unless it has type arguments. -/
theorem wholeExpression_flat (n : Nat) (optimize : Bool) (hc : c.At ts) (hflat : Flat ts ps)
    (hlength : ts.length ≤ n) :
    (∃ e d, (ofDepth n).wholeExpression ⟨optimize, 0⟩ c = .ok (e, d) ∧ e.inorder = ps) ↔
      ¬ HasArguments ts := by
  constructor
  · rintro ⟨e, d, hok, rfl⟩
    rcases conditional_flat n ⟨optimize, 1⟩ hc hflat hlength with ⟨hnot, -⟩ | ⟨-, hdrops⟩
    · exact hnot
    · unfold wholeExpression at hok
      obtain ⟨e', d', hok', hrest⟩ := bind_ok.1 hok
      obtain ⟨_, d₁, -, hrest⟩ := bind_ok.1 hrest
      rw [run_isAt_bind] at hrest
      have he : e = e' := by
        cases hend : d₁.isAt .endOfFile with
        | true => rw [hend] at hrest; cases hrest; rfl
        | false => rw [hend] at hrest; cases hrest
      have hdropped := hdrops e' d' (valueExpression_flat n optimize hc hflat ▸ hok')
      have hwidth := hflat.widths_eq
      rw [e.widths_inorder, he] at hwidth
      omega
  · intro hnot
    obtain ⟨e, d, hok, hinorder, -⟩ := wholeExpression_grouped n optimize hc hflat hlength hnot
    exact ⟨e, d, hok, hinorder⟩

/-- A source text of a flat expression is read as the tree with its operands and operators in order
exactly if no name in it is directly followed by `<`, a name and `>`. -/
theorem Expr.ofSource_inorder_iff {source : String} {tokens : List Token}
    (htokens : Source.tokenize (Source.prepare source) = .ok tokens)
    (hflat : Flat (Token.visible tokens) ps) :
    (∃ e, ofSource source = .ok e ∧ e.inorder = ps) ↔ ¬ HasArguments (Token.visible tokens) := by
  have hc := Source.tokenize_at htokens
  rw [← wholeExpression_flat ((Cursor.ofTokens tokens).remaining + 1) false hc hflat
    (by rw [hc.remaining_eq]; exact Nat.le_succ _)]
  have hrun : ofSource source = (((ofDepth ((Cursor.ofTokens tokens).remaining + 1)).wholeExpression
      ⟨false, 0⟩ (Cursor.ofTokens tokens)).map (·.1)) := by
    unfold ofSource
    rw [htokens]
    rfl
  rw [hrun]
  cases (ofDepth ((Cursor.ofTokens tokens).remaining + 1)).wholeExpression ⟨false, 0⟩
      (Cursor.ofTokens tokens) with
  | error e =>
    constructor
    · rintro ⟨_, h, -⟩
      cases h
    · rintro ⟨_, _, h, -⟩
      cases h
  | ok r =>
    constructor
    · rintro ⟨_, h, hinorder⟩
      cases h
      exact ⟨r.1, r.2, rfl, hinorder⟩
    · rintro ⟨_, _, h, hinorder⟩
      cases h
      exact ⟨_, rfl, hinorder⟩

/-- The name in `a < b + 1` is no type argument. -/
theorem Expr.ofSource_lessThanSum :
    ∃ e, ofSource "a < b + 1" = .ok e ∧ e.inorder =
      [.operand ⟨1, 1⟩ none "a", .operator .less, .operand ⟨1, 5⟩ none "b", .operator .add,
        .operand ⟨1, 9⟩ (some .int) "1"] := by
  have htokens : Source.tokenize (Source.prepare "a < b + 1") =
      .ok [⟨.identifier, "a", ⟨1, 1⟩⟩, ⟨.mark .less, "<", ⟨1, 3⟩⟩, ⟨.identifier, "b", ⟨1, 5⟩⟩,
        ⟨.mark .plus, "+", ⟨1, 7⟩⟩, ⟨.int, "1", ⟨1, 9⟩⟩, ⟨.endOfFile, "", ⟨1, 10⟩⟩] := rfl
  exact (ofSource_inorder_iff htokens
    (.mk rfl (.cons (.mark rfl rfl) rfl (.cons (.mark rfl rfl) rfl .nil)))).2 (by decide)

/-- In `a < b >> c` the name `b` is taken for a type argument, whose closing mark is the first half of
the shift. -/
theorem Expr.ofSource_shiftedName :
    ∃ tokens ps, Source.tokenize (Source.prepare "a < b >> c") = .ok tokens ∧
      Flat (Token.visible tokens) ps ∧
      (ofSource "a < b >> c").toOption.map inorder =
        some [.operand ⟨1, 1⟩ none "a", .operator .greater, .operand ⟨1, 10⟩ none "c"] ∧
      ¬ ∃ e, ofSource "a < b >> c" = .ok e ∧ e.inorder = ps := by
  have hread : (ofSource "a < b >> c").toOption.map inorder =
      some [.operand ⟨1, 1⟩ none "a", .operator .greater, .operand ⟨1, 10⟩ none "c"] := by
    decide +kernel
  refine ⟨[⟨.identifier, "a", ⟨1, 1⟩⟩, ⟨.mark .less, "<", ⟨1, 3⟩⟩, ⟨.identifier, "b", ⟨1, 5⟩⟩,
      ⟨.mark .greater, ">", ⟨1, 7⟩⟩, ⟨.mark .greater, ">", ⟨1, 8⟩⟩, ⟨.identifier, "c", ⟨1, 10⟩⟩,
      ⟨.endOfFile, "", ⟨1, 11⟩⟩], _, rfl,
    .mk rfl (.cons (.mark rfl rfl) rfl (.cons (.shiftRight rfl rfl rfl) rfl .nil)), hread, ?_⟩
  rintro ⟨e, he, hinorder⟩
  rw [he] at hread
  exact absurd (hinorder.symm.trans (Option.some.inj hread)) (by decide)

/-! ## The tree of a flat expression -/

/-- **Precedence.** A source text of integers joined by binary operators is read as the only grouped tree
with its integers and operators in order. -/
theorem Expr.ofSource_grouped {source : String} {tokens : List Token}
    (htokens : Source.tokenize (Source.prepare source) = .ok tokens)
    (hflat : Flat (Token.visible tokens) ps)
    (hintegers : ∀ t ∈ Token.visible tokens, t.kind ≠ .identifier) :
    ∃ e, ofSource source = .ok e ∧ e.inorder = ps ∧ e.Grouped ∧
      ∀ e' : Expr, e'.inorder = ps → e'.Grouped → e' = e := by
  have hc := Source.tokenize_at htokens
  have hnot : ¬ HasArguments (Token.visible tokens) := by
    intro hargs
    obtain ⟨t, ht, hname⟩ := hargs.exists_name
    exact hintegers t ht hname
  have hlength : (Token.visible tokens).length ≤ (Cursor.ofTokens tokens).remaining + 1 := by
    rw [hc.remaining_eq]
    exact Nat.le_succ _
  obtain ⟨e, d, hok, hinorder, hgrouped⟩ := wholeExpression_grouped _ false hc hflat hlength hnot
  refine ⟨e, ?_, hinorder, hgrouped, fun e' hinorder' hgrouped' => ?_⟩
  · unfold ofSource
    rw [htokens]
    exact congrArg (Except.map (·.1)) hok
  · exact hgrouped'.unique hgrouped (hinorder'.trans hinorder.symm)

/-- Operators of all levels: the difference is shifted by the product, and the comparison is the left
side of the conjunction. -/
theorem Expr.ofSource_grouped_shift :
    ofSource "1 - 2 >> 3 * 4 < 0x10 && 6" = .ok
      (.binary .logicalAnd
        (.binary .less
          (.binary .shiftRight
            (.binary .sub (.constant ⟨1, 1⟩ .int "1") (.constant ⟨1, 5⟩ .int "2"))
            (.binary .mul (.constant ⟨1, 10⟩ .int "3") (.constant ⟨1, 14⟩ .int "4")))
          (.constant ⟨1, 18⟩ .int "16"))
        (.constant ⟨1, 26⟩ .int "6")) := by
  have htokens : Source.tokenize (Source.prepare "1 - 2 >> 3 * 4 < 0x10 && 6") =
      .ok [⟨.int, "1", ⟨1, 1⟩⟩, ⟨.mark .minus, "-", ⟨1, 3⟩⟩, ⟨.int, "2", ⟨1, 5⟩⟩,
        ⟨.mark .greater, ">", ⟨1, 7⟩⟩, ⟨.mark .greater, ">", ⟨1, 8⟩⟩, ⟨.int, "3", ⟨1, 10⟩⟩,
        ⟨.mark .star, "*", ⟨1, 12⟩⟩, ⟨.int, "4", ⟨1, 14⟩⟩, ⟨.mark .less, "<", ⟨1, 16⟩⟩,
        ⟨.hex, "0x10", ⟨1, 18⟩⟩, ⟨.mark .andAnd, "&&", ⟨1, 23⟩⟩, ⟨.int, "6", ⟨1, 26⟩⟩,
        ⟨.endOfFile, "", ⟨1, 27⟩⟩] := rfl
  obtain ⟨e, hok, -, -, hunique⟩ := ofSource_grouped htokens
    (.mk rfl (.cons (.mark rfl rfl) rfl (.cons (.shiftRight rfl rfl rfl) rfl
      (.cons (.mark rfl rfl) rfl (.cons (.mark rfl rfl) rfl (.cons (.mark rfl rfl) rfl .nil))))))
    (by decide)
  rw [hok]
  refine congrArg Except.ok (hunique _ rfl ?_).symm
  exact .binary (by decide) (by decide)
    (.binary (by decide) (by decide)
      (.binary (by decide) (by decide)
        (.binary (by decide) (by decide) .constant .constant)
        (.binary (by decide) (by decide) .constant .constant))
      .constant)
    .constant

end ScriptFront
