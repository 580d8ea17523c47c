import ScriptFront.Proofs.Brackets.Expressions
import ScriptFront.Proofs.Erasure.Expressions

/-!
# Operators and values beside an insertion

An operator is found by looking at two tokens, and an arrow function by looking at four. Where the place
is among them, the look may come out differently on both sides; but then the place is passed without being
read.
-/

set_option synthInstance.maxSize 4000

namespace ScriptFront.Grammar

open Production

variable {P : Insertion} {g gq g' : Grammar} [hp : g.Progress] [hg : Sides P g gq g']

/-! ## Operands -/

instance : Consumes g.primary := consumes_of_width primary_reads

instance : Tracks P g.postfixExpression gq.postfixExpression g'.postfixExpression := by
  unfold postfixExpression
  infer_instance

instance : Arrives P g.postfixExpression gq.postfixExpression g'.postfixExpression := by
  unfold postfixExpression
  infer_instance

instance : Tracks P g.operand gq.operand g'.operand := by
  unfold operand
  infer_instance

instance : Tracks P g.unaryExpression gq.unaryExpression g'.unaryExpression := by
  unfold unaryExpression
  refine @Tracks.bind _ _ _ _ _ _ _ _ _ _ fun kind => ?_
  split
  · infer_instance
  · split <;> infer_instance
  · infer_instance

/-! ## Operators -/

theorem binaryOperator?_congr {c c' : Cursor} (h : c.peek = c'.peek)
    (hgreater : c.peekKind = .mark .greater → c.peekNth 1 = c'.peekNth 1) :
    c.binaryOperator? = c'.binaryOperator? := by
  unfold Cursor.binaryOperator?
  rw [← h]
  dsimp only
  split
  · next hkind => rw [hgreater hkind]
  · rfl
  · rfl

/-- The operator behind an operand, if it is one of level `least` at least. -/
def operator? (least : Level) (c : Cursor) : Option (BinaryOperator × Nat) :=
  c.binaryOperator?.filter fun o => least.rank ≤ o.1.level.rank

omit hp in
theorem operation_eq (least : Level) (left : Expr) :
    g.operation least left = (do
      match ← asks (operator? least) with
      | none => return .done left
      | some (op, width) =>
        advance width
        return .again (.binary op left (← g.binary op.level.tighter))) := by
  funext ctx c
  unfold operation
  rw [run_asks_bind, run_asks_bind]
  unfold operator?
  cases c.binaryOperator? with
  | none => rfl
  | some o =>
    obtain ⟨op, width⟩ := o
    by_cases hlevel : op.level.rank < least.rank
    · have hnot : ¬ least.rank ≤ op.level.rank := Nat.not_le.2 hlevel
      simp [Option.filter, hlevel, hnot]
    · have hle : least.rank ≤ op.level.rank := Nat.not_lt.1 hlevel
      simp [Option.filter, hlevel, hle]

omit hp hg in
/-- A shift may lie around the place, and only then it matters on which side one looks. -/
theorem operator?_eq (least : Level) {front : List Stop} (hne : front ≠ []) :
    operator? least (P.without front) = operator? least (P.within front) ∨
      front.length = 1 ∧ operator? least (P.without front) = some (.shiftRight, 2) := by
  obtain ⟨s, front, rfl⟩ := List.exists_cons_of_ne_nil hne
  cases front with
  | cons t front => exact .inl (congrArg (Option.filter _) (binaryOperator?_congr rfl fun _ => rfl))
  | nil =>
    by_cases hshift : s.token.kind = .mark .greater ∧ P.behind.peek.kind = .mark .greater ∧
        s.token.position.isAdjacentTo P.behind.peek.position
    · have hwithout : (P.without [s]).binaryOperator? = some (.shiftRight, 2) := by
        unfold Cursor.binaryOperator?
        simp only [show (P.without [s]).peek = s.token from rfl,
          show (P.without [s]).peekNth 1 = P.behind.peek from rfl, hshift, and_self, if_true]
      have hopening : P.opening.token.kind ≠ .mark .greater :=
        Insertion.opening_isAt (by simp) (by simp)
      have hwithin : (P.within [s]).binaryOperator? = some (.greater, 1) := by
        unfold Cursor.binaryOperator?
        simp only [show (P.within [s]).peek = s.token from rfl,
          show (P.within [s]).peekNth 1 = P.opening.token from rfl, hshift, hopening, false_and, if_false]
      unfold operator?
      rw [hwithout, hwithin]
      cases least with
      | logical | relational | additive => exact .inr ⟨rfl, rfl⟩
      | multiplicative | unary => exact .inl rfl
    · refine .inl (congrArg (Option.filter _) ?_)
      by_cases hgreater : s.token.kind = .mark .greater
      · have hopening : P.opening.token.kind ≠ .mark .greater :=
          Insertion.opening_isAt (by simp) (by simp)
        have hbehind : ¬ (P.behind.peek.kind = .mark .greater ∧
            s.token.position.isAdjacentTo P.behind.peek.position) := fun h => hshift ⟨hgreater, h⟩
        unfold Cursor.binaryOperator?
        simp only [show (P.without [s]).peek = s.token from rfl,
          show (P.without [s]).peekNth 1 = P.behind.peek from rfl,
          show (P.within [s]).peek = s.token from rfl,
          show (P.within [s]).peekNth 1 = P.opening.token from rfl, hgreater, hopening, hbehind,
          false_and, if_false]
      · exact binaryOperator?_congr rfl fun h => absurd h hgreater

omit hp in
instance (least : Level) (left : Expr) :
    Tracks P (g.operation least left) (gq.operation least left) (g'.operation least left) := by
  rw [operation_eq, operation_eq, operation_eq]
  refine @Tracks.asks_bind _ _ _ _ _ _ _ (fun o => ?_) (fun hc => ?_) fun _ front hfront hne => ?_
  · cases o <;> infer_instance
  · exact congrArg (Option.filter _) (binaryOperator?_congr hc.peek fun _ => hc.peekNth 1)
  · refine (operator?_eq least hne).imp_right ?_
    rintro ⟨hlength, hshift⟩
    rw [hshift]
    exact .bind_left (.advance hfront (Nat.le_trans (Nat.le_of_eq hlength) (by decide)))

instance (least : Level) :
    Tracks P (g.binaryExpression least) (gq.binaryExpression least) (g'.binaryExpression least) := by
  unfold binaryExpression
  infer_instance

omit hp in
instance (condition : Expr) :
    Tracks P (g.ternary condition) (gq.ternary condition) (g'.ternary condition) := by
  unfold ternary
  infer_instance

instance : Tracks P g.conditional gq.conditional g'.conditional := by
  unfold conditional
  infer_instance

/-! ## Values -/

instance : Tracks P g.arrowFunction gq.arrowFunction g'.arrowFunction := by
  unfold arrowFunction
  dsimp only
  infer_instance

/-! ### Past the place -/

section Colon

variable (hcolon : P.opening.token.kind = .mark .colon)

include hcolon

/-- With a colon in front of the type, nothing is refused right behind the first token of an operand. -/
theorem operand_clears : Clears P 1 g.operand gq.operand g'.operand := by
  have hcasts := hg.casts_colon hcolon
  have hprimary : Clears P 1 g.primary gq.primary g'.primary := by
    unfold primary
    refine @Clears.peek_bind _ _ _ _ _ _ fun t => ?_
    split
    · infer_instance
    · split
      · refine @Clears.bind_reads _ _ _ _ _ _ _ _ _ _ _ (fun _ => ?_) fun _ => ?_
        all_goals split <;> infer_instance
      · infer_instance
      · infer_instance
      · infer_instance
      · unfold newInstance
        dsimp only
        infer_instance
      · unfold functionLiteral
        infer_instance
      · unfold arrayLiteral
        infer_instance
      · unfold mapLiteral
        infer_instance
      · infer_instance
  unfold operand postfixExpression
  rw [hg.type.eq]
  have htype : Types P g.type g.type g'.type := ⟨rfl, hg.type.tracks, hg.type.consumes⟩
  infer_instance

theorem conditional_clears : Clears P 1 g.conditional gq.conditional g'.conditional := by
  have hoperand : Clears P 1 g.operand gq.operand g'.operand := operand_clears hcolon
  have hunary : Clears P 1 g.unaryExpression gq.unaryExpression g'.unaryExpression := by
    unfold unaryExpression
    refine @Clears.peekKind_bind _ _ _ _ _ _ fun kind => ?_
    split
    · infer_instance
    · split <;> infer_instance
    · infer_instance
  unfold conditional binaryExpression
  infer_instance

theorem valueExpression_clears :
    Clears P 1 g.valueExpression gq.valueExpression g'.valueExpression := by
  have hconditional : Clears P 1 g.conditional gq.conditional g'.conditional := conditional_clears hcolon
  have harrow : Clears P 1 g.arrowFunction gq.arrowFunction g'.arrowFunction := by
    unfold arrowFunction parameters
    dsimp only
    infer_instance
  unfold valueExpression
  infer_instance

end Colon

section Question

variable {s u : Stop}

omit hp hg in
theorem typeAssertion_carries {front : List Stop} (hs : s.token.kind ≠ .mark .less) :
    Carries P (s :: front) (s :: front) (typeAssertion g.type) (typeAssertion gq.type)
      (typeAssertion g'.type) := by
  refine .of_run fun ctx => ⟨(), ?_⟩
  have hless : (P.without (s :: front)).isAt (.mark .less) = false := beq_eq_false_iff_ne.2 hs
  unfold typeAssertion
  rw [run_isAt_bind, run_isAt_bind, hless]
  exact ⟨rfl, rfl⟩

variable (hcolon : P.opening.token.kind = .mark .colon) (hfront : [s, u] <:+ P.before)
  (hs : s.token.kind = .identifier) (hu : u.token.kind = .mark .question)

include hcolon hfront hs hu

/-- The name before a question mark is an operand of its own. -/
theorem operand_carries : Carries P [s, u] [u] g.operand gq.operand g'.operand := by
  have hkind : (P.without [u]).peekKind = .mark .question := hu
  have hcasts := hg.casts_colon hcolon
  have hprimary : Carries P [s, u] [u] g.primary gq.primary g'.primary := by
    unfold primary
    refine .peek_bind ?_
    rw [show (P.without [s, u]).peek = s.token from rfl, hs]
    refine .discard_next_bind hfront (.bind (.of_run fun ctx => ⟨(), ?_⟩) fun _ => .pure _)
    have hnone : (P.without [u]).argumentWidth? = none :=
      Cursor.argumentWidth?_eq_none (by rw [hkind]; simp)
    rw [genericArguments_eq, run_asks_bind, hnone]
    exact ⟨rfl, rfl⟩
  have hchain (e : Expr) : Carries P [u] [u] (g.chain e) (gq.chain e) (g'.chain e) := by
    refine .of_run fun ctx => ⟨e, ?_⟩
    have hlink : ∀ g : Grammar, g.link e ctx (P.without [u]) = .ok (none, P.without [u]) := by
      intro g
      unfold link
      rw [run_peekKind_bind, hkind]
      rfl
    unfold chain
    exact ⟨run_loop_of_done (run_bind_of_ok (hlink g)), run_loop_of_done (run_bind_of_ok (hlink gq))⟩
  unfold operand postfixExpression
  refine .bind (.bind (typeAssertion_carries (by rw [hs]; simp)) fun _ => .bind hprimary hchain) fun e => ?_
  exact .bind (hg.casts_stays hcolon u hu) fun _ => .pure e

/-- Behind the name and the question mark, the first value of a ternary operator starts. -/
theorem conditional_passes : Passes P [s, u] g.conditional gq.conditional g'.conditional := by
  have hunary : Carries P [s, u] [u] g.unaryExpression gq.unaryExpression g'.unaryExpression := by
    unfold unaryExpression
    refine .peekKind_bind ?_
    rw [show (P.without [s, u]).peekKind = s.token.kind from rfl, hs]
    exact operand_carries hcolon hfront hs hu
  have hoperator : (P.without [u]).binaryOperator? = none := by
    unfold Cursor.binaryOperator?
    dsimp only
    rw [show (P.without [u]).peek = u.token from rfl, hu]
    rfl
  have hdone (g : Grammar) (e : Expr) (ctx : Context) :
      loop (g.operation .logical) e ctx (P.without [u]) = .ok (e, P.without [u]) := by
    apply run_loop_of_done
    unfold operation
    rw [run_asks_bind, hoperator]
    rfl
  unfold conditional binaryExpression
  refine .bind (.bind hunary fun e => .of_run fun ctx => ⟨e, hdone g e ctx, hdone gq e ctx⟩)
    fun e => ?_
  unfold ternary
  rw [← hu]
  exact .skips_bind ((List.suffix_cons s [u]).trans hfront) (Tracks.passes inferInstance)

theorem valueExpression_passes :
    Passes P [s, u] g.valueExpression gq.valueExpression g'.valueExpression := by
  have harrow : (P.without [s, u]).startsArrow = false := by
    unfold Cursor.startsArrow
    rw [show (P.without [s, u]).peekKind = s.token.kind from rfl, hs]
    simp only [show (P.without [s, u]).peekNth 1 = u.token from rfl, hu]
    rfl
  unfold valueExpression
  refine .nested (.asks_bind ?_)
  rw [harrow]
  exact conditional_passes hcolon hfront hs hu

end Question

/-! ### Looking for an arrow -/

/-- What may stand between the parenthesis in front of parameters and the place: the name of a parameter,
a question mark behind it, or the closing parenthesis. -/
inductive EndsParameter : List Stop → Prop
  | name (s : Stop) (h : s.token.kind = .identifier) : EndsParameter [s]
  | question (s u : Stop) (h : s.token.kind = .identifier) (h' : u.token.kind = .mark .question) :
      EndsParameter [s, u]
  | close (s : Stop) (h : s.token.kind = .mark .closeParen) : EndsParameter [s]

/-- With a word in front of the type, nothing is refused in parameters. They close their parenthesis, so
the place is passed if it stands inside them. -/
theorem parameters_passes [hb : g.Brackets] (hword : P.opening.token.isWord "as" = true)
    {front : List Stop}
    (hopen : ∀ taken, taken <+: front → taken ≠ [] → taken ≠ front →
      ¬ Nested (taken.map (·.token.kind))) :
    Passes P front g.parameters gq.parameters g'.parameters := by
  have heq : gq.parameters = g.parameters := by
    unfold parameters
    rw [(hg.ascription_word hword).1]
  rw [heq]
  refine .of_passes fun {ctx a d} hok => ⟨?_, hok⟩
  have hreads : Consumes g.parameters := inferInstance
  have hread := (hreads.reads.reaches (P.without_closed front) hok).remaining_le
  have hparameters : Nests g.parameters := inferInstance
  obtain ⟨hlast, taken, htaken, hnested⟩ := (hparameters.takes []).leads (P.without_closed front) trivial hok
  refine Insertion.exists_past_of_taken hlast htaken (Nat.not_lt.1 fun hlt => ?_)
  have hfront : taken <+: front :=
    List.prefix_of_prefix_length_le ⟨d.ahead, htaken.symm⟩ (List.prefix_append front _) (Nat.le_of_lt hlt)
  refine hopen taken hfront ?_ ?_ hnested
  · rintro rfl
    rw [Cursor.remaining, Cursor.remaining, htaken, List.nil_append] at hread
    omega
  · rintro rfl
    omega

omit hp hg in
/-- Up to the end of a parameter, its parenthesis is open. -/
theorem not_nested_of_endsParameter {s : Stop} {front taken : List Stop}
    (hs : s.token.kind = .mark .openParen) (h : EndsParameter front)
    (htaken : taken <+: s :: front) (hne : taken ≠ []) (hneq : taken ≠ s :: front) :
    ¬ Nested (taken.map (·.token.kind)) := by
  obtain ⟨t, taken, rfl⟩ := List.exists_cons_of_ne_nil hne
  obtain ⟨rfl, hrest⟩ := List.cons_prefix_cons.1 htaken
  clear htaken hne
  have hproper : taken ≠ front := fun h => hneq (congrArg _ h)
  have hopen : ∀ k : Kind, k = .identifier → ¬ Nested [.mark .openParen, k] := by
    rintro _ rfl
    decide
  cases h with
  | name t ht | close t ht =>
    rcases List.prefix_cons_iff.1 hrest with rfl | ⟨rest, rfl, hrest'⟩
    · rw [List.map_singleton, hs]
      decide
    · cases List.prefix_nil.1 hrest'
      exact absurd rfl hproper
  | question t u ht hu =>
    rcases List.prefix_cons_iff.1 hrest with rfl | ⟨rest, rfl, hrest'⟩
    · rw [List.map_singleton, hs]
      decide
    · rcases List.prefix_cons_iff.1 hrest' with rfl | ⟨rest', rfl, hnil⟩
      · rw [List.map_cons, List.map_singleton, hs]
        exact hopen _ ht
      · cases List.prefix_nil.1 hnil
        exact absurd rfl hproper

omit hp in
theorem arrowFunction_passes {s : Stop} {front : List Stop} (hs : s.token.kind ≠ .identifier)
    (h : Passes P (s :: front) g.parameters gq.parameters g'.parameters) :
    Passes P (s :: front) g.arrowFunction gq.arrowFunction g'.arrowFunction := by
  unfold arrowFunction
  dsimp only
  refine .peek_bind ?_
  rw [show (P.without (s :: front)).peek = s.token from rfl, if_neg hs, if_neg hs, if_neg hs]
  exact .bind_left h

/-- Behind a parenthesis that opens an operand, a value starts. -/
theorem conditional_passes_paren {s : Stop} {front : List Stop}
    (hcolon : P.opening.token.kind = .mark .colon) (hfront : (s :: front) <:+ P.before)
    (hs : s.token.kind = .mark .openParen) (h : EndsParameter front) :
    Passes P (s :: front) g.conditional gq.conditional g'.conditional := by
  have hfront' := (List.suffix_cons s front).trans hfront
  have hvalue : Passes P front g.value gq.value g'.value := by
    cases h with
    | name t ht | close t ht => exact (hg.value_clears hcolon).passes hfront' (Nat.le_refl 1)
    | question t u ht hu => exact hg.value_passes hcolon t u hfront' ht hu
  have hprimary : Passes P (s :: front) g.primary gq.primary g'.primary := by
    unfold primary
    refine .peek_bind ?_
    rw [show (P.without (s :: front)).peek = s.token from rfl, hs]
    exact .discard_next_bind hfront (.bind_left hvalue)
  have hcasts := hg.casts_colon hcolon
  have hoperand : Passes P (s :: front) g.operand gq.operand g'.operand := by
    unfold operand postfixExpression
    exact .bind_left (.bind (typeAssertion_carries (by rw [hs]; simp)) fun _ => .bind_left hprimary)
  have hunary : Passes P (s :: front) g.unaryExpression gq.unaryExpression g'.unaryExpression := by
    unfold unaryExpression
    refine .peekKind_bind ?_
    rw [show (P.without (s :: front)).peekKind = s.token.kind from rfl, hs]
    exact hoperand
  unfold conditional binaryExpression
  exact .bind_left (.bind_left hunary)

section Arrow

variable {s : Stop} {front : List Stop}

/-- Behind a parenthesis and the end of a parameter, a colon looks like the type of one, and a word does
not. -/
theorem startsArrow_within (hs : s.token.kind = .mark .openParen) (h : EndsParameter front) :
    (P.within (s :: front)).startsArrow = (P.opening.token.kind == .mark .colon) := by
  have hopening : P.opening.token.kind = .mark .colon ∨ P.opening.token.kind = .identifier :=
    P.opening_kind.imp_right Insertion.opening_identifier
  have hkind : (P.within (s :: front)).peekKind = .mark .openParen := hs
  unfold Cursor.startsArrow
  rw [hkind]
  cases h with
  | name t ht =>
    simp only [show (P.within [s, t]).peekNth 1 = t.token from rfl, ht,
      show (P.within [s, t]).peekNth 2 = P.opening.token from rfl]
    rcases hopening with h | h <;> simp [h]
  | question t u ht hu =>
    simp only [show (P.within [s, t, u]).peekNth 1 = t.token from rfl, ht,
      show (P.within [s, t, u]).peekNth 2 = u.token from rfl, hu,
      show (P.within [s, t, u]).peekNth 3 = P.opening.token from rfl]
    rcases hopening with h | h <;> simp [h]
  | close t ht =>
    simp only [show (P.within [s, t]).peekNth 1 = t.token from rfl, ht,
      show (P.within [s, t]).peekNth 2 = P.opening.token from rfl]
    rcases hopening with h | h <;> simp [h]

/-- Elsewhere an arrow is seen from both sides or from none. -/
theorem startsArrow_eq (hfits : P.Fits) (hfront : (s :: front) <:+ P.before)
    (h : s.token.kind = .mark .openParen → ¬ EndsParameter front) :
    (P.without (s :: front)).startsArrow = (P.within (s :: front)).startsArrow := by
  have harrow : (P.behind.peek.kind == .mark .arrow) = (P.opening.token.kind == .mark .arrow) := by
    have hbehind : P.behind.peek.kind ≠ .mark .arrow := Insertion.behind_ne_arrow
    have hopening : P.opening.token.kind ≠ .mark .arrow := Insertion.opening_isAt (by simp) (by simp)
    rw [beq_eq_false_iff_ne.2 hbehind, beq_eq_false_iff_ne.2 hopening]
  unfold Cursor.startsArrow
  rw [show (P.within (s :: front)).peekKind = s.token.kind from rfl,
    show (P.without (s :: front)).peekKind = s.token.kind from rfl]
  match front with
  | [] =>
    rw [show (P.without [s]).peekNth 1 = P.behind.peek from rfl,
      show (P.within [s]).peekNth 1 = P.opening.token from rfl]
    split
    · exact harrow
    · next hs =>
      have hleads := hfits.leadsOn hfront
      rw [hs] at hleads
      cases hleads
    · rfl
  | [t] =>
    rw [show (P.without [s, t]).peekNth 1 = t.token from rfl,
      show (P.within [s, t]).peekNth 1 = t.token from rfl]
    split
    · rfl
    · next hs =>
      split
      · next ht => exact absurd (.close t ht) (h hs)
      · rfl
      · next ht => exact absurd (.name t ht) (h hs)
      · rfl
    · rfl
  | [t, u] =>
    rw [show (P.without [s, t, u]).peekNth 1 = t.token from rfl,
      show (P.within [s, t, u]).peekNth 1 = t.token from rfl,
      show (P.without [s, t, u]).peekNth 2 = u.token from rfl,
      show (P.within [s, t, u]).peekNth 2 = u.token from rfl,
      show (P.without [s, t, u]).peekNth 3 = P.behind.peek from rfl,
      show (P.within [s, t, u]).peekNth 3 = P.opening.token from rfl]
    split
    · rfl
    · next hs =>
      split
      · rfl
      · rfl
      · next ht =>
        split
        · rfl
        · rfl
        · next hu => exact absurd (.question t u ht hu) (h hs)
        · exact harrow
        · rfl
      · rfl
    · rfl
  | t :: u :: v :: front => rfl

end Arrow

instance [hb : g.Brackets] : Tracks P g.valueExpression gq.valueExpression g'.valueExpression := by
  unfold valueExpression
  refine @Tracks.nested _ _ _ _ _ (.asks_bind (fun hc => ?_) fun hfits front hfront hne => ?_)
  · unfold Cursor.startsArrow
    rw [hc.peekKind, hc.peekNth, hc.peekNth, hc.peekNth]
  · obtain ⟨s, front, rfl⟩ := List.exists_cons_of_ne_nil hne
    by_cases hends : s.token.kind = .mark .openParen ∧ EndsParameter front
    · obtain ⟨hs, hends⟩ := hends
      by_cases heq : (P.without (s :: front)).startsArrow = (P.within (s :: front)).startsArrow
      · exact .inl heq
      · refine .inr ?_
        rw [startsArrow_within hs hends] at heq
        rcases P.opening_kind with hcolon | hword
        · have hnot : (P.without (s :: front)).startsArrow = false := by simpa [hcolon] using heq
          rw [hnot]
          exact conditional_passes_paren hcolon hfront hs hends
        · have hnot : (P.without (s :: front)).startsArrow = true := by
            have hidentifier : (Kind.identifier == .mark .colon) = false := rfl
            rw [Insertion.opening_identifier hword, hidentifier] at heq
            exact eq_true_of_ne_false heq
          rw [hnot]
          exact arrowFunction_passes (by rw [hs]; simp)
            (parameters_passes hword fun _ => not_nested_of_endsParameter hs hends)
    · exact .inl (startsArrow_eq hfits hfront fun hs h => hends ⟨hs, h⟩)

end ScriptFront.Grammar
