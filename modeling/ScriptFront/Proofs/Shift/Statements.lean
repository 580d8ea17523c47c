import ScriptFront.Proofs.Shift.Expressions
import ScriptFront.Proofs.Tree.Asked

/-!
# Statements in different places

What is asked of a place is its line, which does not change, and what is asked of a tree does not depend
on its places.
-/

namespace ScriptFront

open Production
open Rewriting (unplaced)

namespace Shift

variable {r : Shift}

/-! ## What is asked of a tree -/

theorem constant?_expr {e e' : Expr} (h : r.expr e e') : e.constant? = e'.constant? := by
  rw [← unplaced.constant?_expr e, ← unplaced.constant?_expr e', h.shape]

theorem call_or_other {e e' : Expr} (h : r.expr e e') :
    (∃ c c', e = .call c ∧ e' = .call c' ∧ r.call c c') ∨ e.call? = none ∧ e'.call? = none := by
  have hcall := unplaced.call?_expr e
  rw [h.shape, unplaced.call?_expr e'] at hcall
  cases hc : e.call? <;> cases hc' : e'.call? <;> rw [hc, hc'] at hcall
  · exact .inr ⟨rfl, rfl⟩
  · cases hcall
  · cases hcall
  · obtain rfl := Expr.call?_eq_some.1 hc
    obtain rfl := Expr.call?_eq_some.1 hc'
    exact .inl ⟨_, _, rfl, rfl, expr_call.1 h⟩

/-- A call that a statement ends in is a call alone or the value of a `return`. -/
theorem finalCall?_eq_some {s : Stmt} {c : Call} (h : s.finalCall? = some c) :
    s = .call c ∨ ∃ p, s = .returns p (some (.call c)) := by
  unfold Stmt.finalCall? at h
  split at h
  · exact .inr ⟨_, by rw [Option.some.inj h]⟩
  · exact .inl (congrArg Stmt.call (Option.some.inj h))
  · cases h

theorem finalCall?_stmt (s : Stmt) :
    (unplaced.stmt s).finalCall? = s.finalCall?.map unplaced.callOf := by
  cases s with
  | returns p value => rcases value with - | ⟨- | - | - | - | d⟩ <;> simp [Stmt.finalCall?]
  | _ => simp [Stmt.finalCall?]

theorem finalCall? {s s' : Stmt} (h : r.stmt s s') : Option.Rel r.call s.finalCall? s'.finalCall? := by
  have hcall := finalCall?_stmt s
  rw [h.shape, finalCall?_stmt s'] at hcall
  cases hc : s.finalCall? <;> cases hc' : s'.finalCall? <;> rw [hc, hc'] at hcall
  · exact .none
  · cases hcall
  · cases hcall
  · obtain ⟨hshape, hplaces⟩ := h
    refine .some ⟨(Option.some.inj hcall).symm, ?_⟩
    rcases finalCall?_eq_some hc with rfl | ⟨p, rfl⟩ <;>
      rcases finalCall?_eq_some hc' with rfl | ⟨q, rfl⟩
    · simpa using hplaces
    · simp at hshape
    · simp at hshape
    · simp only [Positions.stmt, Positions.expr?, Positions.expr] at hplaces
      exact (List.forall₂_cons.1 hplaces).2

theorem isOf {c c' : Call} (h : r.call c c') (name : String) : c.isOf name = c'.isOf name := by
  have hshape : ∀ c : Call, (unplaced.callOf c).isOf name = c.isOf name := by
    intro c
    obtain ⟨callee, -, -, -, -, -⟩ := c
    cases callee <;> simp [Call.isOf, Rewriting.ident]
  rw [← hshape c, ← hshape c', h.shape]

theorem markTailCall {s s' : Stmt} (h : r.stmt s s') (name : String) :
    r.stmt (s.markTailCall name) (s'.markTailCall name) := by
  have hcall := finalCall? h
  unfold Stmt.markTailCall
  generalize s.finalCall? = o at hcall ⊢
  generalize s'.finalCall? = o' at hcall ⊢
  cases hcall with
  | none => exact h
  | some hcall =>
    dsimp only
    rw [isOf hcall name]
    split
    · exact stmt_tailCall hcall
    · exact h

theorem markLast {ss ss' : List Stmt} (h : List.Forall₂ r.stmt ss ss') (name : String) :
    List.Forall₂ r.stmt (Stmt.markLast name ss) (Stmt.markLast name ss') := by
  induction h with
  | nil => exact .nil
  | cons hs hrest ih =>
    cases hrest with
    | nil => exact .cons (markTailCall hs name) .nil
    | cons hs' hrest' => exact .cons hs ih

theorem markLast_block {b b' : Block} (h : r.block b b') (name : String) :
    r.block { b with statements := Stmt.markLast name b.statements }
      { b' with statements := Stmt.markLast name b'.statements } :=
  ⟨h.openBrace, markLast h.statements name, h.closeBrace⟩

/-- What is asked of the cases before does not depend on places. -/
theorem any_caseBlock {bs bs' : List CaseBlock} (h : List.Forall₂ r.caseBlock bs bs')
    {ask : CaseBlock → Bool} (hask : ∀ b, ask (unplaced.caseBlock b) = ask b) : bs.any ask = bs'.any ask := by
  have hshape := congrArg (·.any ask) (Same.list h).shape
  simpa only [List.any_map, Function.comp_def, hask] using hshape

theorem find?_caseBlock {bs bs' : List CaseBlock} (h : List.Forall₂ r.caseBlock bs bs')
    {ask : CaseBlock → Bool} (hask : ∀ b, ask (unplaced.caseBlock b) = ask b) :
    Option.Rel r.caseBlock (bs.find? ask) (bs'.find? ask) := by
  induction h with
  | nil => exact .none
  | @cons b b' _ _ hb _ ih =>
    have hfound : ask b = ask b' := by rw [← hask b, hb.shape, hask b']
    rw [List.find?_cons, List.find?_cons, hfound]
    split
    · exact .some hb
    · exact ih

namespace Matches

variable {g : Grammar} [hg : r.grammar g]

/-! ## Variables and functions -/

theorem variableDeclaration (isConst : Bool) :
    r.Matches r.varDecl (g.variableDeclaration isConst) (g.variableDeclaration isConst) := by
  unfold Grammar.variableDeclaration
  refine .token fun _ name _ _ hname => .read fun _ => .read fun _ => .read fun given => .ite ?_ ?_
  · exact hg.value.bind fun hvalue => .pure (varDecl_mk hname name hvalue false isConst)
  · exact Matches.bind (A := r.expr) (.pure (constant hname _ _)) fun hvalue =>
      .pure (varDecl_mk hname name hvalue false isConst)

theorem variableStatement : r.Matches r.varDecl g.variableStatement g.variableStatement := by
  unfold Grammar.variableStatement
  exact .token fun _ _ _ _ _ => variableDeclaration _

theorem namedFunction {p q : Position} (h : r.moves p q) (name : String) (exported : Bool) :
    r.Matches r.funcDecl (g.namedFunction p name exported) (g.namedFunction q name exported) := by
  unfold Grammar.namedFunction
  refine functionRest.bind ?_
  rintro _ _ ⟨hparameters, hbody⟩
  refine .read fun _ => .read fun optimize => .ite (.pure ?_) (.pure ?_)
  · exact funcDecl_mk h name hparameters exported [] (markLast_block hbody name) none
  · exact funcDecl_mk h name hparameters exported [] hbody none

theorem functionDeclaration (exported : Bool) :
    r.Matches r.funcDecl (g.functionDeclaration exported) (g.functionDeclaration exported) := by
  unfold Grammar.functionDeclaration
  exact .token fun _ _ _ _ hkeyword => .token fun _ name _ _ _ => namedFunction hkeyword name exported

theorem prototypeMethod : r.Matches r.funcDecl g.prototypeMethod g.prototypeMethod := by
  unfold Grammar.prototypeMethod
  refine .token fun _ receiver _ _ _ => .read fun _ => .token fun _ _ _ _ hplace => .read fun _ =>
    .token fun _ name _ _ _ => .read fun _ => .read fun _ => functionRest.bind ?_
  rintro _ _ ⟨hparameters, hbody⟩
  exact .pure (funcDecl_mk hplace name hparameters false [] hbody _)

/-! ## Classes and enums -/

/-- Members of classes at different places. -/
inductive Members : Grammar.ClassMember → Grammar.ClassMember → Prop where
  | field {d d' : VarDecl} (h : r.varDecl d d') : Members (.field d) (.field d')
  | method {d d' : FuncDecl} (h : r.funcDecl d d') : Members (.method d) (.method d')
  | getter {d d' : FuncDecl} (h : r.funcDecl d d') : Members (.getter d) (.getter d')
  | setter {d d' : FuncDecl} (h : r.funcDecl d d') : Members (.setter d) (.setter d')

theorem method (exported : Bool) :
    r.Matches r.funcDecl (g.method exported) (g.method exported) := by
  unfold Grammar.method
  exact .token fun _ name _ _ hname => namedFunction hname name exported

theorem field (exported : Bool) : r.Matches r.varDecl (g.field exported) (g.field exported) := by
  unfold Grammar.field
  exact (variableDeclaration false).bind fun hfield => .read fun _ =>
    .pure (varDecl_exported hfield exported)

theorem bareMember (exported : Bool) :
    r.Matches (Members (r := r)) (g.bareMember exported) (g.bareMember exported) := by
  unfold Grammar.bareMember
  refine .read fun isGetter => .ite ?_ (.read fun isSetter => .ite ?_ (.read fun isMethod => .ite ?_ ?_))
  · exact .read fun _ => (method exported).bind fun h => .pure (.getter h)
  · exact .read fun _ => (method exported).bind fun h => .pure (.setter h)
  · exact (method exported).bind fun h => .pure (.method h)
  · exact (field exported).bind fun h => .pure (.field h)

theorem classMember : r.Matches (Members (r := r)) g.classMember g.classMember := by
  unfold Grammar.classMember
  exact .read fun isPrivate => .ite (.read fun _ => bareMember false) (bareMember true)

theorem classMembers :
    r.Matches (List.Forall₂ (Members (r := r))) g.classMembers g.classMembers := by
  unfold Grammar.classMembers
  refine .loop (S := List.Forall₂ (Members (r := r))) (fun {ms ms'} hmembers => ?_) .nil
  refine .token fun kind _ p q hplace => ?_
  dsimp only
  split
  · exact .read fun _ => .pure (.done (List.rel_reverse hmembers))
  · exact .fail _ hplace
  · exact .read fun _ => .pure (.again hmembers)
  · exact classMember.bind fun h => .pure (.again (.cons h hmembers))
  · exact classMember.bind fun h => .pure (.again (.cons h hmembers))
  · exact .failHere _

theorem classDeclaration (exported : Bool) :
    r.Matches r.classDecl (g.classDeclaration exported) (g.classDeclaration exported) := by
  unfold Grammar.classDeclaration
  refine .token fun _ _ _ _ hkeyword => .token fun _ name _ _ _ => .read fun _ => .read fun isHeir => ?_
  extract_lets body body'
  have hbody : ∀ u, r.Matches r.classDecl (body u) (body' u) := by
    intro u
    refine .read fun _ => classMembers.bind fun hmembers => .pure (classDecl_mk hkeyword _ _ _ ?_ ?_ ?_ ?_)
    all_goals
      refine List.rel_filterMap ?_ hmembers
      intro m m' h
      cases h <;> constructor
      assumption
  exact .ite (.read hbody) (hbody ())

theorem functionOrClass (exported : Bool) :
    r.Matches r.stmt (g.functionOrClass exported) (g.functionOrClass exported) := by
  unfold Grammar.functionOrClass
  refine .read fun isClass => .ite ?_ ?_
  · exact (classDeclaration exported).bind fun h => .pure (stmt_classDecl h)
  · exact (functionDeclaration exported).bind fun h => .pure (stmt_funcDecl h)

theorem enumInitializer :
    r.Matches (Both Eq (Both Eq r.moves)) enumInitializer enumInitializer := by
  unfold Production.enumInitializer
  refine .read fun negative => .token fun kind text p q hplace => ?_
  dsimp only
  split
  · exact .read fun _ => .pure (.intro rfl (.intro rfl hplace))
  · refine .ite (.failHere _) (.read fun _ => ?_)
    exact .pure (.intro rfl (.intro rfl hplace))
  · exact .failHere _

theorem enumMember (isFirst : Bool) (counter : Int) :
    r.Matches (Both r.enumMember Eq) (Production.enumMember isFirst counter)
      (Production.enumMember isFirst counter) := by
  unfold Production.enumMember
  refine .token fun _ name _ _ hname => .read fun given => .ite (enumInitializer.bind ?_) ?_
  · rintro ⟨kind, value, p⟩ ⟨_, _, q⟩ ⟨rfl, rfl, hplace⟩
    dsimp only
    have hmember : ∀ n : Int, Both r.enumMember Eq
        (⟨_, name, kind, value⟩, Text.next64 n) (⟨_, name, kind, value⟩, Text.next64 n) :=
      fun n => .intro ⟨hname, rfl, rfl, rfl⟩ rfl
    refine .ite ?_ (.pure (hmember counter))
    split
    · exact .pure (hmember _)
    · exact stops _ hplace
  · exact .pure (.intro ⟨hname, rfl, rfl, rfl⟩ rfl)

theorem enumDeclaration (exported : Bool) :
    r.Matches r.enumDecl (enumDeclaration exported) (enumDeclaration exported) := by
  have hmembers : r.Matches (List.Forall₂ r.enumMember) enumMembers enumMembers := by
    unfold enumMembers
    refine .loop (S := Both (List.Forall₂ r.enumMember) Eq) ?_ (.intro .nil rfl)
    rintro ⟨ms, n⟩ ⟨ms', _⟩ ⟨hmembers, rfl⟩
    have hempty : ms.isEmpty = ms'.isEmpty := by
      cases hmembers <;> rfl
    refine .read fun closed => .ite (.pure (.done (List.rel_reverse hmembers))) ?_
    dsimp only
    rw [hempty]
    refine (enumMember _ _).bind ?_
    rintro _ _ ⟨hmember, rfl⟩
    exact .read fun _ => .pure (.again (.intro (.cons hmember hmembers) rfl))
  unfold Production.enumDeclaration
  exact .read fun _ => .token fun _ name _ _ hname => .read fun _ => hmembers.bind fun hmembers =>
    .read fun _ => .read fun _ => .pure (enumDecl_mk hname name exported hmembers)

/-! ## Simple statements -/

theorem asCall {e e' : Expr} (he : r.expr e e') (k : Kind) :
    r.Matches r.stmt (Grammar.simpleStatement.asCall e k) (Grammar.simpleStatement.asCall e' k) := by
  unfold Grammar.simpleStatement.asCall
  obtain ⟨c, c', rfl, rfl, hcall⟩ | ⟨hother, hother'⟩ := call_or_other he
  · exact .pure (stmt_call hcall)
  · split
    · cases hother
    split
    all_goals
      split
      · cases hother'
      first
        | exact .fail _ (position_expr he)
        | exact .failHere _

theorem simpleStatement : r.Matches r.stmt g.simpleStatement g.simpleStatement := by
  unfold Grammar.simpleStatement
  refine operand.bind fun hleft => .read fun k => ?_
  split
  · exact .read fun _ => hg.value.bind fun hvalue => .pure (assign hleft hvalue)
  · split
    · exact .read fun _ => .pure (step _ hleft)
    · exact .read fun _ => hg.value.bind fun hvalue => .pure (assign hleft (binary _ hleft hvalue))
    · exact asCall hleft _
  · exact asCall hleft k

theorem newStatement : r.Matches r.stmt g.newStatement g.newStatement := by
  unfold Grammar.newStatement
  refine .token fun _ _ p q hplace => conditional.bind fun {e e'} he => ?_
  obtain ⟨c, c', rfl, rfl, hcall⟩ | ⟨hother, hother'⟩ := call_or_other he
  · exact .pure (stmt_call hcall)
  · split
    · cases hother
    split
    · cases hother'
    exact .fail _ hplace

theorem deleteStatement : r.Matches r.stmt Grammar.deleteStatement Grammar.deleteStatement := by
  unfold Grammar.deleteStatement
  refine .token fun _ _ _ _ hkeyword => .token fun _ object _ _ _ => .read fun dotted =>
    .ite (stops _ hkeyword) (.token fun _ property _ _ _ => ?_)
  exact .pure (delete hkeyword object property)

/-! ## Jumps, conditions and loops -/

theorem jumpLabel {t u : Token} (h : r.moves t.position u.position) :
    r.Matches Eq (Grammar.jumpLabel t) (Grammar.jumpLabel u) := by
  unfold Grammar.jumpLabel
  refine .token fun kind text p q hplace => ?_
  dsimp only
  rw [r.line h, r.line hplace]
  exact .ite (.read fun _ => .pure rfl) (.pure rfl)

theorem returnStatement : r.Matches r.stmt g.returnStatement g.returnStatement := by
  unfold Grammar.returnStatement
  refine .token fun _ _ _ _ hkeyword => .token fun kind _ _ _ hplace => ?_
  dsimp only
  rw [r.line hkeyword, r.line hplace]
  refine .ite (.pure (returns hkeyword .none)) ?_
  exact hg.value.bind fun hvalue => .pure (returns hkeyword (.some hvalue))

theorem condition : r.Matches r.expr g.condition g.condition := by
  unfold Grammar.condition
  exact .read fun _ => hg.expression.bind fun he => .read fun _ => .pure he

theorem branch : r.Matches r.branch g.branch g.branch := by
  unfold Grammar.branch
  exact condition.bind fun he => hg.block.bind fun hb => .pure (branch_mk he hb)

theorem ifStatement : r.Matches r.stmt g.ifStatement g.ifStatement := by
  unfold Grammar.ifStatement
  refine .token fun _ _ _ _ hkeyword => branch.bind fun hfirst => Matches.bind
    (A := Both (List.Forall₂ r.branch) (Option.Rel r.block))
    (.loop (S := List.Forall₂ r.branch) (fun hbranches => ?_) (.cons hfirst .nil)) ?_
  · refine .read fun isElse => .ite (.pure (.done (.intro (List.rel_reverse hbranches) .none)))
      (.read fun isIf => .ite ?_ ?_)
    · exact branch.bind fun hb => .pure (.again (.cons hb hbranches))
    · exact hg.block.bind fun hb => .pure (.done (.intro (List.rel_reverse hbranches) (.some hb)))
  · rintro _ _ ⟨hbranches, hotherwise⟩
    exact .pure (ifElse hkeyword hbranches hotherwise)

theorem whileStatement : r.Matches r.stmt g.whileStatement g.whileStatement := by
  unfold Grammar.whileStatement
  exact .token fun _ _ _ _ hkeyword => condition.bind fun he => hg.block.bind fun hb =>
    .pure (whileLoop hkeyword he hb)

theorem forVariables : r.Matches (List.Forall₂ r.stmt) g.forVariables g.forVariables := by
  unfold Grammar.forVariables
  refine variableStatement.bind fun hfirst => ?_
  rw [varDecl_isConst hfirst]
  refine .loop (S := List.Forall₂ r.stmt) (fun hdecls => ?_) (.cons (stmt_varDecl hfirst) .nil)
  refine .read fun comma => .ite ?_ ?_
  · exact (variableDeclaration _).bind fun h => .pure (.again (.cons (stmt_varDecl h) hdecls))
  · exact .pure (.done (List.rel_reverse hdecls))

theorem classicHeader : r.Matches r.header g.classicHeader g.classicHeader := by
  unfold Grammar.classicHeader
  refine .read fun k => ?_
  extract_lets behindDeclarations
  have hdeclarations : ∀ {ds ds' : List Stmt}, List.Forall₂ r.stmt ds ds' →
      r.Matches r.header (behindDeclarations ds) (behindDeclarations ds') := by
    intro ds ds' hds
    refine .read fun _ => .read fun isMissing => ?_
    extract_lets behindCondition behindCondition'
    have hcondition : ∀ {o o' : Option Expr}, Option.Rel r.expr o o' →
        r.Matches r.header (behindCondition o) (behindCondition' o') := by
      intro o o' ho
      refine .read fun _ => .read fun isMissing => .ite ?_ ?_
      · exact Matches.bind (A := Option.Rel r.stmt) (.pure .none) fun hstep =>
          .pure (classic hds ho hstep)
      · exact simpleStatement.some.bind fun hstep => .pure (classic hds ho hstep)
    refine .ite ?_ ?_
    · exact Matches.bind (A := Option.Rel r.expr) (.pure .none) hcondition
    · exact hg.expression.some.bind hcondition
  refine .ite (forVariables.bind hdeclarations) (.ite ?_ ?_)
  · exact Matches.bind (A := List.Forall₂ r.stmt) (.pure .nil) hdeclarations
  · exact (simpleStatement.map fun hs => .cons hs .nil).bind hdeclarations

theorem iterationHeader : r.Matches r.header g.iterationHeader g.iterationHeader := by
  unfold Grammar.iterationHeader
  refine .read fun _ => .token fun _ name _ _ hname => .token fun kind text p q _ =>
    hg.expression.bind fun hsubject => .pure ?_
  have hword : Token.isWord ⟨kind, text, q⟩ "of" = Token.isWord ⟨kind, text, p⟩ "of" := rfl
  rw [hword]
  split
  · exact values (ident_mk hname name) hsubject
  · exact keys (ident_mk hname name) hsubject

theorem forStatement : r.Matches r.stmt g.forStatement g.forStatement := by
  unfold Grammar.forStatement Grammar.forHeader
  refine .token fun _ _ _ _ hkeyword => .read fun _ => Matches.bind (A := r.header)
    (.read fun iterates => .ite iterationHeader classicHeader) fun hheader => .read fun _ => ?_
  exact hg.block.bind fun hbody => .pure (forLoop hkeyword hheader hbody)

/-! ## Blocks -/

/-- Items are kept unless they are types. -/
theorem itemTurn {A : List Stmt → List Stmt → Prop} {items items' : List Stmt}
    (h : List.Forall₂ r.stmt items items') :
    r.Matches (Turns (S := List.Forall₂ r.stmt) (A := A))
      (do
        match ← g.item with
        | some s => return .again (s :: items)
        | none => return .again items)
      (do
        match ← g.item with
        | some s => return .again (s :: items')
        | none => return .again items') := by
  refine hg.item.bind fun hitem => ?_
  cases hitem with
  | some hs => exact .pure (.again (.cons hs h))
  | none => exact .pure (.again h)

theorem blockBody : r.Matches r.block g.blockBody g.blockBody := by
  unfold Grammar.blockBody
  refine .nested (.token fun _ _ _ _ hopen => Matches.bind (A := List.Forall₂ r.stmt)
    (.loop (S := List.Forall₂ r.stmt) (fun hitems => .read fun kind => ?_) .nil)
    fun hitems => .token fun _ _ _ _ hclose => .pure ⟨hopen, hitems, hclose⟩)
  split
  · exact .pure (.done (List.rel_reverse hitems))
  · exact .fail _ hopen
  · exact itemTurn hitems

/-! ## Switches -/

theorem caseStatements {p q : Position} (h : r.moves p q) :
    r.Matches (List.Forall₂ r.stmt) (g.caseStatements p) (g.caseStatements q) := by
  unfold Grammar.caseStatements
  refine .loop (S := List.Forall₂ r.stmt) (fun hitems => .read fun kind => ?_) .nil
  split
  · exact .pure (.done (List.rel_reverse hitems))
  · exact .pure (.done (List.rel_reverse hitems))
  · exact .pure (.done (List.rel_reverse hitems))
  · exact .fail _ h
  · exact itemTurn hitems

theorem caseBlock {bs bs' : List CaseBlock} (h : List.Forall₂ r.caseBlock bs bs') :
    r.Matches (Option.Rel r.caseBlock) (g.caseBlock bs) (g.caseBlock bs') := by
  unfold Grammar.caseBlock
  refine .token fun kind _ p q hplace => ?_
  dsimp only
  split
  · refine .read fun _ => hg.expression.bind fun {label label'} hlabel => .read fun _ => ?_
    have hconstant := constant?_expr hlabel
    have hblock : r.Matches (Option.Rel r.caseBlock)
        (do return some ⟨p, some label, ← g.caseStatements p⟩)
        (do return some ⟨q, some label', ← g.caseStatements q⟩) :=
      (caseStatements hplace).bind fun hs => .pure (.some (caseBlock_mk hplace (.some hlabel) hs))
    cases hc : label.constant? with
    | some constant =>
      obtain ⟨p', rfl⟩ := Expr.constant?_eq_some.1 hc
      obtain ⟨q', rfl⟩ := Expr.constant?_eq_some.1 (hconstant ▸ hc)
      dsimp only
      rw [any_caseBlock h fun b => unplaced.isFor_caseBlock b _ _]
      exact .ite (stops _ hplace) hblock
    | none =>
      rw [hc] at hconstant
      split
      · cases hc
      split
      · cases hconstant
      exact hblock
  · refine .read fun _ => ?_
    rw [any_caseBlock h unplaced.isDefault_caseBlock]
    refine .ite (stops _ hplace) (.read fun _ => (caseStatements hplace).bind fun hs => ?_)
    exact .pure (.some (caseBlock_mk hplace .none hs))
  · exact .pure .none

theorem caseBlocks : r.Matches (List.Forall₂ r.caseBlock) g.caseBlocks g.caseBlocks := by
  unfold Grammar.caseBlocks
  refine Matches.bind (A := List.Forall₂ r.caseBlock)
    (.loop (S := List.Forall₂ r.caseBlock) (fun hbefore => ?_) .nil)
    fun {blocks blocks'} hblocks => .read fun _ => ?_
  · refine (caseBlock hbefore).bind fun hblock => ?_
    cases hblock with
    | some hb => exact .pure (.again (.cons hb hbefore))
    | none => exact .pure (.done (List.rel_reverse hbefore))
  · rw [List.dropLast_eq_take, List.dropLast_eq_take, hblocks.length_eq]
    have hbefore := List.forall₂_take (blocks'.length - 1) hblocks
    have hfound := find?_caseBlock hbefore unplaced.fallsThrough_caseBlock
    generalize List.find? _ _ = o at hfound ⊢
    generalize List.find? _ _ = o' at hfound ⊢
    cases hfound with
    | some hb => exact .fail _ (position_caseBlock hb)
    | none => exact .pure hblocks

theorem switchStatement : r.Matches r.stmt g.switchStatement g.switchStatement := by
  unfold Grammar.switchStatement
  refine .token fun _ _ _ _ hkeyword => condition.bind fun hsubject => .read fun _ =>
    caseBlocks.bind fun hblocks => .pure (switch hkeyword hsubject ?_ ?_)
  · refine List.rel_filter (fun b b' hb => ?_) hblocks
    have hdefault : b.isDefault = b'.isDefault := by
      rw [← unplaced.isDefault_caseBlock b, hb.shape, unplaced.isDefault_caseBlock]
    simp [hdefault]
  · exact find?_caseBlock hblocks unplaced.isDefault_caseBlock

/-! ## Other statements -/

theorem catchClause {t u : Token} (h : r.moves t.position u.position) :
    r.Matches r.catchClause (g.catchClause t) (g.catchClause u) := by
  unfold Grammar.catchClause
  refine .read fun isBound => ?_
  extract_lets behindBinding behindBinding'
  have hbinding : ∀ {o o' : Option Ident}, Option.Rel r.ident o o' →
      r.Matches r.catchClause (behindBinding o) (behindBinding' o') :=
    fun ho => hg.block.bind fun hbody => .pure (catchClause_mk h ho hbody)
  refine .ite (.token fun _ name _ _ hname => .read fun _ => .read fun _ => ?_) ?_
  · exact Matches.bind (A := Option.Rel r.ident) (.pure (.some (ident_mk hname name))) hbinding
  · exact Matches.bind (A := Option.Rel r.ident) (.pure .none) hbinding

theorem tryStatement : r.Matches r.stmt g.tryStatement g.tryStatement := by
  unfold Grammar.tryStatement
  refine .token fun _ _ _ _ hkeyword => hg.block.bind fun hbody => (Matches.optional _).bind fun hcaught => ?_
  extract_lets behindHandler behindHandler'
  have hhandler : ∀ {o o' : Option CatchClause}, Option.Rel r.catchClause o o' →
      r.Matches r.stmt (behindHandler o) (behindHandler' o') := by
    intro o o' ho
    refine .read fun hasFinalizer => .ite ?_ ?_
    · exact hg.block.some.bind fun hfinalizer => .pure (tryCatch hkeyword hbody ho hfinalizer)
    · exact Matches.bind (A := Option.Rel r.block) (.pure .none) fun hfinalizer =>
        .pure (tryCatch hkeyword hbody ho hfinalizer)
  cases hcaught with
  | some ht => exact (catchClause ht.place).some.bind hhandler
  | none => exact Matches.bind (A := Option.Rel r.catchClause) (.pure .none) hhandler

theorem labelStatement : r.Matches r.stmt g.labelStatement g.labelStatement := by
  unfold Grammar.labelStatement
  refine .token fun _ name _ _ hname => .read fun _ => .token fun kind _ _ _ hplace => ?_
  have hlabel : ∀ {p q : Production Stmt}, r.Matches r.stmt p q → r.Matches r.stmt
      (do return .label _ name (← p)) (do return .label _ name (← q)) :=
    fun h => h.bind fun hbody => .pure (label hname name hbody)
  dsimp only
  split
  · exact hlabel forStatement
  · exact hlabel whileStatement
  · exact hlabel switchStatement
  · exact hlabel (.fail _ hplace)

theorem bareStatement : r.Matches r.stmt g.bareStatement g.bareStatement := by
  have hvariable : r.Matches r.stmt (do return .varDecl (← g.variableStatement))
      (do return .varDecl (← g.variableStatement)) :=
    variableStatement.bind fun h => .pure (stmt_varDecl h)
  unfold Grammar.bareStatement
  refine .token fun kind text p q hplace => ?_
  dsimp only
  split
  · exact hvariable
  · exact hvariable
  · exact hvariable
  · exact (enumDeclaration false).bind fun h => .pure (stmt_enumDecl h)
  · exact (functionDeclaration false).bind fun h => .pure (stmt_funcDecl h)
  · exact ifStatement
  · exact whileStatement
  · exact forStatement
  · exact switchStatement
  · exact tryStatement
  · exact returnStatement
  · exact .read fun _ => hg.value.bind fun h => .pure (throws hplace h)
  · exact .read fun _ => (jumpLabel hplace).bind fun h => h ▸ .pure (breaks hplace _)
  · exact .read fun _ => (jumpLabel hplace).bind fun h => h ▸ .pure (continues hplace _)
  · exact deleteStatement
  · exact newStatement
  · exact blockBody.bind fun h => .pure (stmt_block h)
  · refine .read fun isMethod => .ite ?_ (.read fun isLabel => .ite labelStatement simpleStatement)
    exact prototypeMethod.bind fun h => .pure (stmt_funcDecl h)
  · exact simpleStatement
  · exact .fail _ hplace
  · exact .failHere _

theorem statementBody : r.Matches r.stmt g.statementBody g.statementBody := by
  unfold Grammar.statementBody
  exact bareStatement.bind fun h => .read fun _ => .pure h

theorem blockItem : r.Matches (Option.Rel r.stmt) g.blockItem g.blockItem := by
  unfold Grammar.blockItem
  refine .read fun isAlias => .ite (.read fun _ => .pure .none) (.read fun isInterface => .ite ?_ ?_)
  · exact .read fun _ => .pure .none
  · exact statementBody.bind fun h => .pure (.some h)

end Matches

/-! ## The whole grammar -/

theorem grammar_around (g : Grammar) [r.grammar g] : r.grammar g.around where
  value := Matches.valueExpression
  expression := Matches.conditional
  binary := Matches.binaryExpression
  unary := Matches.unaryExpression
  block := Matches.blockBody
  item := Matches.blockItem
  type := Uniform.unionType
  ascription := Uniform.ascribedType
  casts := Uniform.asTypes

theorem grammar_empty : r.grammar Grammar.empty where
  value := .token fun _ _ _ _ h => .fail _ h
  expression := .token fun _ _ _ _ h => .fail _ h
  binary := fun _ => .token fun _ _ _ _ h => .fail _ h
  unary := .token fun _ _ _ _ h => .fail _ h
  block := .token fun _ _ _ _ h => .fail _ h
  item := .token fun _ _ _ _ h => .fail _ h
  type := ⟨.token fun _ _ _ _ h => .fail _ h⟩
  ascription := ⟨.token fun _ _ _ _ h => .fail _ h⟩
  casts := ⟨.token fun _ _ _ _ h => .fail _ h⟩

/-- However deep the grammar is entered, it is read alike. -/
instance grammar_ofDepth (n : Nat) : r.grammar (.ofDepth n) := by
  induction n with
  | zero => exact grammar_empty
  | succ n ih =>
    exact grammar_around (.ofDepth n)

end Shift

end ScriptFront
