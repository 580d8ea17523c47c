import ScriptFront.Proofs.Erasure.Declarations
import ScriptFront.Proofs.Erasure.Slot

/-!
# Statements beside an insertion
-/

set_option synthInstance.maxSize 4000

namespace ScriptFront.Grammar

open Production

variable {P : Insertion} {g gq g' : Grammar} [hp : g.Progress] [hg : Sides P g gq g']

/-! ## Expressions as statements -/

omit hp hg in
instance (left : Expr) (k : Kind) : Tracks P (simpleStatement.asCall left k)
    (simpleStatement.asCall left k) (simpleStatement.asCall left k) := by
  unfold simpleStatement.asCall
  split
  · infer_instance
  · split <;> infer_instance

instance : Tracks P g.simpleStatement gq.simpleStatement g'.simpleStatement := by
  unfold simpleStatement
  refine @Tracks.bind _ _ _ _ _ _ _ _ _ _ fun left => @Tracks.bind _ _ _ _ _ _ _ _ _ _ fun k => ?_
  split
  · infer_instance
  · split <;> infer_instance
  · infer_instance

theorem simpleStatement_clears (hcolon : P.opening.token.kind = .mark .colon) :
    Clears P 1 g.simpleStatement gq.simpleStatement g'.simpleStatement := by
  have hoperand : Clears P 1 g.operand gq.operand g'.operand := operand_clears hcolon
  unfold simpleStatement
  refine @Clears.bind_left _ _ _ _ _ _ _ _ _ _ _ fun left => @Tracks.bind _ _ _ _ _ _ _ _ _ _ fun k => ?_
  split
  · infer_instance
  · split <;> infer_instance
  · infer_instance

instance [g.Brackets] : Tracks P g.newStatement gq.newStatement g'.newStatement := by
  unfold newStatement
  refine @Tracks.bind _ _ _ _ _ _ _ _ _ _ fun t => @Tracks.bind _ _ _ _ _ _ _ _ _ _ fun e => ?_
  split <;> infer_instance

omit hp hg in
instance : Tracks P deleteStatement deleteStatement deleteStatement := by
  unfold deleteStatement
  dsimp only
  infer_instance

/-! ## Jumps -/

omit hp hg in
instance (keyword : Token) : Tracks P (jumpLabel keyword) (jumpLabel keyword) (jumpLabel keyword) := by
  unfold jumpLabel
  infer_instance

omit hp in
instance : Tracks P g.returnStatement gq.returnStatement g'.returnStatement := by
  unfold returnStatement
  dsimp only
  infer_instance

/-! ## Conditions and loops -/

omit hp in
instance : Tracks P g.condition gq.condition g'.condition := by
  unfold condition
  infer_instance

omit hp in
instance : Tracks P g.branch gq.branch g'.branch := by
  unfold branch
  infer_instance

omit hp in
instance : Tracks P g.ifStatement gq.ifStatement g'.ifStatement := by
  unfold ifStatement
  dsimp only
  infer_instance

omit hp in
instance : Tracks P g.whileStatement gq.whileStatement g'.whileStatement := by
  unfold whileStatement
  infer_instance

omit hp in
instance : Tracks P g.forVariables gq.forVariables g'.forVariables := by
  unfold forVariables
  infer_instance

instance : Tracks P g.classicHeader gq.classicHeader g'.classicHeader := by
  unfold classicHeader
  dsimp only
  infer_instance

omit hp in
instance : Tracks P g.iterationHeader gq.iterationHeader g'.iterationHeader := by
  unfold iterationHeader
  infer_instance

/-- A keyword that declares a variable is read before anything is refused. -/
theorem classicHeader_passes {s : Stop} (hfront : [s] <:+ P.before)
    (hs : Cursor.declaresVariable s.token.kind = true) :
    Passes P [s] g.classicHeader gq.classicHeader g'.classicHeader := by
  have hvariables : Clears P 1 g.forVariables gq.forVariables g'.forVariables := by
    unfold forVariables variableStatement
    infer_instance
  unfold classicHeader
  dsimp only
  refine .peekKind_bind ?_
  rw [show (P.without [s]).peekKind = s.token.kind from rfl, if_pos hs, if_pos hs, if_pos hs]
  exact .bind_left (hvariables.passes hfront (Nat.le_refl 1))

instance : Tracks P g.forHeader gq.forHeader g'.forHeader := by
  have hiteration : Clears P 2 g.iterationHeader gq.iterationHeader g'.iterationHeader := by
    unfold iterationHeader
    infer_instance
  unfold forHeader
  refine .asks_bind (fun hc => ?_) fun _ front hfront hne => ?_
  · unfold Cursor.startsIteration
    rw [hc.peekKind, hc.peekNth]
  · match front with
    | [s] =>
      by_cases hs : Cursor.declaresVariable s.token.kind = true
      · refine .inr ?_
        split
        · exact hiteration.passes hfront (Nat.le_succ 1)
        · exact classicHeader_passes hfront hs
      · refine .inl ?_
        unfold Cursor.startsIteration
        rw [show (P.without [s]).peekKind = s.token.kind from rfl,
          show (P.within [s]).peekKind = s.token.kind from rfl, eq_false_of_ne_true hs]
        rfl
    | [s, t] =>
      cases hwithout : (P.without [s, t]).startsIteration with
      | true => exact .inr (hiteration.passes hfront (Nat.le_refl 2))
      | false =>
        refine .inl ?_
        unfold Cursor.startsIteration
        rw [show (P.within [s, t]).peekNth 2 = P.opening.token from rfl,
          Insertion.opening_isWord (by decide), Insertion.opening_isWord (by decide)]
        exact (Bool.and_false _).symm
    | s :: t :: u :: front => exact .inl rfl

instance : Tracks P g.forStatement gq.forStatement g'.forStatement := by
  unfold forStatement
  infer_instance

/-! ## Blocks -/

omit hp in
instance itemTurn (items : List Stmt) : Tracks P
    (do
      match ← g.item with
      | some s => return (Turn.again (s :: items) : Turn (List Stmt) (List Stmt))
      | none => return .again items)
    (do
      match ← gq.item with
      | some s => return .again (s :: items)
      | none => return .again items)
    (do
      match ← g'.item with
      | some s => return .again (s :: items)
      | none => return .again items) := by
  refine @Tracks.bind _ _ _ _ _ _ _ _ _ _ fun s => ?_
  cases s <;> infer_instance

theorem blockBody_sides : Tracks P g.blockBody gq.blockBody g'.blockBody ∧
    Arrives P g.blockBody gq.blockBody g'.blockBody := by
  unfold blockBody
  constructor
  · refine @Tracks.nested _ _ _ _ _ (@Tracks.bind _ _ _ _ _ _ _ _ _ _ fun brace =>
      @Tracks.bind _ _ _ _ _ _ _ _ _ (@Tracks.loop _ _ _ _ _ _ (fun items =>
        @Tracks.bind _ _ _ _ _ _ _ _ _ _ fun kind => ?_) _) _)
    split <;> infer_instance
  · refine @Arrives.nested _ _ _ _ _ (@Arrives.bind_last _ _ _ _ _ _ _ _ _ _ (fun brace => ?_)
      fun brace => @Arrives.bind_last _ _ _ _ _ _ _ _ _ (@Meets.of_tracks _ _ _ _ _
        (@Tracks.loop _ _ _ _ _ _ (fun items => @Tracks.bind _ _ _ _ _ _ _ _ _ _ fun kind => ?_) _)) _ _)
    · refine @Consumes.bind_right _ _ _ _ (@Advances.loop _ _ _ (fun items =>
        @Advances.bind _ _ _ _ _ fun kind => ?_) _) _
      split
      · infer_instance
      · infer_instance
      · refine @Advances.bind _ _ _ _ _ fun s => ?_
        cases s <;> infer_instance
    · split <;> infer_instance

instance : Tracks P g.blockBody gq.blockBody g'.blockBody := blockBody_sides.1

instance : Arrives P g.blockBody gq.blockBody g'.blockBody := blockBody_sides.2

/-! ## Switches -/

omit hp in
instance (position : Position) : Tracks P (g.caseStatements position) (gq.caseStatements position)
    (g'.caseStatements position) := by
  unfold caseStatements
  refine @Tracks.loop _ _ _ _ _ _ (fun items => @Tracks.bind _ _ _ _ _ _ _ _ _ _ fun kind => ?_) _
  split
  · infer_instance
  · infer_instance
  · infer_instance
  · infer_instance
  · refine @Tracks.bind _ _ _ _ _ _ _ _ _ _ fun s => ?_
    cases s <;> infer_instance

omit hp in
instance (blocks : List CaseBlock) :
    Tracks P (g.caseBlock blocks) (gq.caseBlock blocks) (g'.caseBlock blocks) := by
  unfold caseBlock
  refine @Tracks.bind _ _ _ _ _ _ _ _ _ _ fun t => ?_
  split
  · refine @Tracks.bind _ _ _ _ _ _ _ _ _ _ fun _ => @Tracks.bind _ _ _ _ _ _ _ _ _ _ fun label =>
      @Tracks.bind _ _ _ _ _ _ _ _ _ _ fun _ => ?_
    split <;> infer_instance
  · infer_instance
  · infer_instance

omit hp in
instance : Tracks P g.caseBlocks gq.caseBlocks g'.caseBlocks := by
  unfold caseBlocks
  refine @Tracks.bind _ _ _ _ _ _ _ _ _ ?_ fun blocks => @Tracks.bind _ _ _ _ _ _ _ _ _ _ fun _ => ?_
  · refine @Tracks.loop _ _ _ _ _ _ (fun blocks => @Tracks.bind _ _ _ _ _ _ _ _ _ _ fun b => ?_) _
    cases b <;> infer_instance
  · split <;> infer_instance

omit hp in
instance : Tracks P g.switchStatement gq.switchStatement g'.switchStatement := by
  unfold switchStatement
  infer_instance

/-! ## Other statements -/

omit hp in
instance (keyword : Token) :
    Tracks P (g.catchClause keyword) (gq.catchClause keyword) (g'.catchClause keyword) := by
  unfold catchClause
  dsimp only
  infer_instance

omit hp in
instance : Tracks P g.tryStatement gq.tryStatement g'.tryStatement := by
  unfold tryStatement
  refine @Tracks.bind _ _ _ _ _ _ _ _ _ _ fun keyword => @Tracks.bind _ _ _ _ _ _ _ _ _ _ fun body =>
    @Tracks.bind _ _ _ _ _ _ _ _ _ _ fun t => ?_
  dsimp only
  cases t <;> infer_instance

theorem labelStatement_sides : Tracks P g.labelStatement gq.labelStatement g'.labelStatement ∧
    Clears P 1 g.labelStatement gq.labelStatement g'.labelStatement := by
  unfold labelStatement
  refine ⟨@Tracks.bind _ _ _ _ _ _ _ _ _ _ fun name => ?_,
    @Clears.bind_reads _ _ _ _ _ _ _ _ _ _ _ (fun name => ?_) fun name => @Clears.of_tracks _ _ _ _ _ ?_⟩
  all_goals
    refine @Tracks.bind _ _ _ _ _ _ _ _ _ _ fun _ => @Tracks.bind _ _ _ _ _ _ _ _ _ _ fun t => ?_
    dsimp only
    split <;> infer_instance

instance : Tracks P g.labelStatement gq.labelStatement g'.labelStatement := labelStatement_sides.1

instance : Clears P 1 g.labelStatement gq.labelStatement g'.labelStatement := labelStatement_sides.2

/-! ## Statements -/

omit hp hg in
/-- No part of what is looked at for an assignment to a prototype is inserted. -/
theorem startsPrototypeMethod_within (hfits : P.Fits) {front : List Stop} (hfront : front <:+ P.before)
    (hne : front ≠ []) (hn : front.length ≤ 6) : (P.within front).startsPrototypeMethod = false := by
  have hkind : ∀ k : Kind, k ≠ .mark .colon → k ≠ .identifier → (P.opening.token.kind == k) = false :=
    fun k hcolon hname => beq_eq_false_iff_ne.2 (Insertion.opening_isAt hcolon hname)
  have hword : P.opening.token.isWord "prototype" = false := Insertion.opening_isWord (by decide)
  have hlook : (P.within front).peekNth front.length = P.opening.token := Insertion.peekNth_within_length
  have hpos := List.length_pos_iff.2 hne
  unfold Cursor.startsPrototypeMethod
  obtain h | h | h | h | h | h : front.length = 1 ∨ front.length = 2 ∨ front.length = 3 ∨
      front.length = 4 ∨ front.length = 5 ∨ front.length = 6 := by omega
  case inr.inr.inr.inl =>
    obtain ⟨init, t, rfl⟩ := (List.eq_nil_or_concat front).resolve_left hne
    rw [List.concat_eq_append] at h hfront ⊢
    have hlength : init.length = 3 := by simpa using h
    have hdot : t.token.kind ≠ .mark .dot := by
      intro hkind
      have hleads := hfits.leadsOn ((List.suffix_append init [t]).trans hfront)
      rw [hkind] at hleads
      cases hleads
    have hlast : (P.within (init ++ [t])).peekNth 3 = t.token := by
      rw [← hlength]
      simp [Cursor.peekNth, Insertion.within]
    rw [hlast, beq_eq_false_iff_ne.2 hdot]
    simp
  all_goals
    rw [h] at hlook
    rw [hlook]
    first
    | rw [hword]
      simp
    | rw [hkind _ (by simp) (by simp)]
      simp

section Looks

variable {α : Type} {r rq r' s sq s' : Production α} [hr : Tracks P r rq r'] [hs : Tracks P s sq s']

omit hp hg in
/-- What is assigned to a prototype is read as far as it is looked at. -/
theorem startsPrototypeMethod_ite (htrue : Clears P 6 r rq r') :
    Tracks P (do if ← asks Cursor.startsPrototypeMethod then r else s)
      (do if ← asks Cursor.startsPrototypeMethod then rq else sq)
      (do if ← asks Cursor.startsPrototypeMethod then r' else s') := by
  refine .asks_bind_clears (n := 6) (fun hc => ?_) fun hfits front hfront hne => ?_
  · unfold Cursor.startsPrototypeMethod
    rw [hc.peek, hc.peekNth, hc.peekNth, hc.peekNth, hc.peekNth, hc.peekNth]
  · by_cases hn : 6 < front.length
    · refine .inl ?_
      unfold Cursor.startsPrototypeMethod
      rw [Insertion.peek_eq hne, Insertion.peekNth_eq hn, Insertion.peekNth_eq (by omega : 5 < front.length),
        Insertion.peekNth_eq (by omega : 3 < front.length),
        Insertion.peekNth_eq (by omega : 2 < front.length),
        Insertion.peekNth_eq (by omega : 1 < front.length)]
    · have hwithin := startsPrototypeMethod_within hfits hfront hne (Nat.not_lt.1 hn)
      cases hwithout : (P.without front).startsPrototypeMethod with
      | false => exact .inl hwithin.symm
      | true => exact .inr ⟨Nat.not_lt.1 hn, htrue⟩

omit hp hg in
/-- A name in front of the place may look like a label, on one side or the other. -/
theorem startsLabel_ite (htrue : Clears P 1 r rq r')
    (hfalse : P.opening.token.kind = .mark .colon → Clears P 1 s sq s') :
    Tracks P (do if ← asks Cursor.startsLabel then r else s)
      (do if ← asks Cursor.startsLabel then rq else sq)
      (do if ← asks Cursor.startsLabel then r' else s') := by
  refine .asks_bind_clears (n := 1) (fun hc => ?_) fun _ front _ hne => ?_
  · unfold Cursor.startsLabel
    rw [hc.peekNth]
  · obtain ⟨s, front, rfl⟩ := List.exists_cons_of_ne_nil hne
    cases front with
    | cons t front => exact .inl rfl
    | nil =>
      cases hwithout : (P.without [s]).startsLabel with
      | true => exact .inr ⟨Nat.le_refl 1, htrue⟩
      | false =>
        rcases P.opening_kind with hcolon | hword
        · exact .inr ⟨Nat.le_refl 1, hfalse hcolon⟩
        · refine .inl ?_
          unfold Cursor.startsLabel
          rw [show (P.within [s]).peekNth 1 = P.opening.token from rfl,
            Insertion.opening_identifier hword]
          rfl

end Looks

instance [g.Brackets] : Tracks P g.bareStatement gq.bareStatement g'.bareStatement := by
  have hprototype : Clears P 6 g.prototypeMethod gq.prototypeMethod g'.prototypeMethod :=
    Clears.mono (n := 7) inferInstance (by decide)
  unfold bareStatement
  refine @Tracks.bind _ _ _ _ _ _ _ _ _ _ fun t => ?_
  split
  case h_18 =>
    refine @startsPrototypeMethod_ite _ _ _ _ _ _ _ _ inferInstance ?_ inferInstance
    exact startsLabel_ite inferInstance simpleStatement_clears
  all_goals infer_instance

instance [g.Brackets] : Tracks P g.statementBody gq.statementBody g'.statementBody := by
  unfold statementBody
  infer_instance

omit hp hg in
theorem typeAlias_clears {t tq t' : Production Unit} [Types P t tq t'] :
    Clears P 1 (typeAlias t) (typeAlias tq) (typeAlias t') := by
  unfold typeAlias
  infer_instance

instance [g.Brackets] : TracksBut P ["type"] g.blockItem gq.blockItem g'.blockItem := by
  have hclears : Clears P 1 (typeAlias g.type) (typeAlias gq.type) (typeAlias g'.type) :=
    typeAlias_clears
  unfold blockItem
  exact TracksBut.startsDeclaration_ite List.mem_cons_self

end ScriptFront.Grammar
