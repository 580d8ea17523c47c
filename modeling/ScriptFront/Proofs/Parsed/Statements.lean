import ScriptFront.Proofs.Parsed.Expressions

/-!
# Parsed statements

Whatever statement the grammar answers is made as the grammar makes it, everywhere in its tree. Marking a
tail call keeps that, and a switch that is accepted keeps the rules of a switch.
-/

set_option linter.unusedSectionVars false

namespace ScriptFront

open Node (AllParsed)

variable {file : Cursor}

/-! ## Tail calls -/

theorem Stmt.Parsed.mk {s : Stmt} (hself : (Node.stmt s).Proper file) (hparts : AllParsed file s.parts) :
    s.Parsed file := Node.Parsed.mk hself hparts

theorem Stmt.parsed_markTailCall {s : Stmt} (name : String) (h : s.Parsed file) :
    (s.markTailCall name).Parsed file := by
  unfold markTailCall
  split
  · next c hcall =>
    split
    · refine .mk trivial ?_
      unfold finalCall? at hcall
      split at hcall
      · cases hcall
        exact (h.parts _ (List.mem_singleton_self _)).parts
      · cases hcall
        exact h.parts
      · cases hcall
    · exact h
  · exact h

theorem Stmt.parsed_markLast (name : String) {body : List Stmt} (h : ∀ s ∈ body, s.Parsed file) :
    ∀ s ∈ markLast name body, s.Parsed file := by
  fun_induction markLast name body with
  | case1 => exact List.forall_mem_nil _
  | case2 s =>
    rw [List.forall_mem_singleton] at h ⊢
    exact parsed_markTailCall name h
  | case3 s rest _ ih =>
    rw [List.forall_mem_cons] at h ⊢
    exact ⟨h.1, ih h.2⟩

theorem FuncDecl.parsed_markTailCall {f : FuncDecl} (h : (Stmt.funcDecl f).Parsed file) :
    (Stmt.funcDecl f.markTailCall).Parsed file := by
  refine .mk h.self (Node.allParsed_stmts.2 (Stmt.parsed_markLast f.name ?_))
  exact Node.allParsed_stmts.1 h.parts

namespace Grammar

open Production

/-- The declaration that a member of a class stands for. -/
def ClassMember.stmt : ClassMember → Stmt
  | field d => .varDecl d
  | method f | getter f | setter f => .funcDecl f

namespace Parses

variable {g : Grammar} [g.Progress] [hg : g.Parses file]

/-! ## Variables and functions -/

theorem variableDeclaration (isConst : Bool) :
    Answers file (fun d => Stmt.Parsed file (.varDecl d)) (g.variableDeclaration isConst) := by
  unfold Grammar.variableDeclaration
  refine .read fun name => .read fun _ => .read fun _ => .read fun given => ?_
  have hdecl : ∀ {value} exported isConst, value.Parsed file →
      Stmt.Parsed file (.varDecl ⟨name.position, name.text, value, exported, isConst⟩) :=
    fun _ _ hvalue => .mk trivial (List.forall_mem_singleton.2 hvalue)
  refine .ite ?_ ?_
  · exact hg.value.bind fun value hvalue => .pure (hdecl _ _ hvalue)
  · refine Answers.bind (Q := Expr.Parsed file) (.pure (.mk trivial (List.forall_mem_nil _))) fun value hvalue =>
      .pure (hdecl _ _ hvalue)

theorem variableStatement :
    Answers file (fun d => Stmt.Parsed file (.varDecl d)) g.variableStatement := by
  unfold Grammar.variableStatement
  exact .read fun keyword => variableDeclaration _

theorem namedFunction (position : Position) (name : String) (exported : Bool) :
    Answers file (fun f => Stmt.Parsed file (.funcDecl f))
      (g.namedFunction position name exported) := by
  unfold Grammar.namedFunction
  refine functionRest.bind fun rest hrest => .read fun _ => .read fun optimizes => ?_
  have hplain : Stmt.Parsed file
      (.funcDecl ⟨position, name, rest.1, exported, [], rest.2, none⟩) :=
    .mk ⟨rfl, hrest.1⟩ hrest.2
  exact .ite (.pure (FuncDecl.parsed_markTailCall hplain)) (.pure hplain)

theorem functionDeclaration (exported : Bool) :
    Answers file (fun f => Stmt.Parsed file (.funcDecl f)) (g.functionDeclaration exported) := by
  unfold Grammar.functionDeclaration
  exact .read fun keyword => .read fun name => namedFunction _ _ _

theorem prototypeMethod :
    Answers file (fun f => Stmt.Parsed file (.funcDecl f)) g.prototypeMethod := by
  unfold Grammar.prototypeMethod
  exact .read fun receiver => .read fun _ => .read fun prototype => .read fun _ => .read fun name =>
    .read fun _ => .read fun _ => functionRest.bind fun rest hrest => .pure (.mk ⟨rfl, hrest.1⟩ hrest.2)

/-! ## Classes -/

theorem method (exported : Bool) :
    Answers file (fun f => Stmt.Parsed file (.funcDecl f)) (g.method exported) := by
  unfold Grammar.method
  exact .read fun name => namedFunction _ _ _

theorem field (exported : Bool) :
    Answers file (fun d => Stmt.Parsed file (.varDecl d)) (g.field exported) := by
  unfold Grammar.field
  refine (variableDeclaration false).bind fun field hfield => .read fun _ => .pure ?_
  exact .mk trivial hfield.parts

theorem bareMember (exported : Bool) :
    Answers file (fun m => m.stmt.Parsed file) (g.bareMember exported) := by
  unfold Grammar.bareMember
  refine .read fun isGetter => .ite ?_ (.read fun isSetter => .ite ?_ (.read fun isMethod => .ite ?_ ?_))
  · exact .read fun _ => (method exported).bind fun f hf => .pure hf
  · exact .read fun _ => (method exported).bind fun f hf => .pure hf
  · exact (method exported).bind fun f hf => .pure hf
  · exact (field exported).bind fun d hd => .pure hd

theorem classMember : Answers file (fun m => m.stmt.Parsed file) g.classMember := by
  unfold Grammar.classMember
  exact .read fun isPrivate => .ite (.read fun _ => bareMember false) (bareMember true)

theorem classMembers :
    Answers file (fun members => ∀ m ∈ members, m.stmt.Parsed file) g.classMembers := by
  unfold Grammar.classMembers
  refine .loop (I := fun members => ∀ m ∈ members, ClassMember.stmt m |>.Parsed file)
    (Q := fun members => ∀ m ∈ members, ClassMember.stmt m |>.Parsed file) (fun members h => ?_)
    (List.forall_mem_nil _)
  refine .read fun t => ?_
  split
  · refine .read fun _ => .pure ?_
    exact fun m hm => h m (List.mem_reverse.1 hm)
  · exact .fail _ _
  · exact .read fun _ => .pure h
  · exact classMember.bind fun m hm => .pure (List.forall_mem_cons.2 ⟨hm, h⟩)
  · exact classMember.bind fun m hm => .pure (List.forall_mem_cons.2 ⟨hm, h⟩)
  · exact .failHere _

theorem classDeclaration (exported : Bool) :
    Answers file (fun c => Stmt.Parsed file (.classDecl c)) (g.classDeclaration exported) := by
  -- Every part of a class is the declaration of one of its members.
  have hpart : ∀ {α : Type} {part : ClassMember → Option α} {decl : α → Stmt},
      (∀ m a, part m = some a → m.stmt = decl a) →
      ∀ {members : List ClassMember}, (∀ m ∈ members, m.stmt.Parsed file) →
      ∀ n ∈ (members.filterMap part).map fun a => Node.stmt (decl a), n.Parsed file := by
    intro α part decl hdecl members hmembers n hn
    obtain ⟨a, ha, rfl⟩ := List.mem_map.1 hn
    obtain ⟨m, hm, hma⟩ := List.mem_filterMap.1 ha
    exact hdecl m a hma ▸ hmembers m hm
  unfold Grammar.classDeclaration
  refine .read fun keyword => .read fun name => .read fun _ => .read fun isHeir => ?_
  extract_lets body
  have hbody : ∀ u, Answers file (fun c => Stmt.Parsed file (.classDecl c)) (body u) := by
    intro u
    refine .read fun _ => classMembers.bind fun members hmembers => .pure (.mk rfl ?_)
    refine List.forall_mem_append.2 ⟨List.forall_mem_append.2 ⟨List.forall_mem_append.2
      ⟨hpart ?_ hmembers, hpart ?_ hmembers⟩, hpart ?_ hmembers⟩, hpart ?_ hmembers⟩
    all_goals
      intro m a ha
      cases m <;> cases ha
      rfl
  exact .ite (.read hbody) (hbody ())

theorem functionOrClass (exported : Bool) :
    Answers file (Stmt.Parsed file) (g.functionOrClass exported) := by
  unfold Grammar.functionOrClass
  refine .read fun isClass => .ite ?_ ?_
  · exact (classDeclaration exported).bind fun c hc => .pure hc
  · exact (functionDeclaration exported).bind fun f hf => .pure hf

/-! ## Simple statements -/

theorem asCall {left : Expr} (hleft : left.Parsed file) (k : Kind) :
    Answers file (Stmt.Parsed file) (simpleStatement.asCall left k) := by
  unfold simpleStatement.asCall
  split
  · exact .pure (.mk trivial hleft.parts)
  · split
    · exact .fail _ _
    · exact .fail _ _
    · exact .fail _ _
    · exact .failHere _

theorem simpleStatement : Answers file (Stmt.Parsed file) g.simpleStatement := by
  have hassign : ∀ {left value}, left.Parsed file → value.Parsed file →
      Stmt.Parsed file (.assign left value) :=
    fun hleft hvalue => .mk trivial
      (List.forall_mem_cons.2 ⟨hleft, List.forall_mem_singleton.2 hvalue⟩)
  unfold Grammar.simpleStatement
  refine operand.bind fun left hleft => .read fun k => ?_
  split
  · exact .read fun _ => hg.value.bind fun value hvalue => .pure (hassign hleft hvalue)
  · split
    · exact .read fun _ => .pure (.mk trivial (List.forall_mem_singleton.2 hleft))
    · refine .read fun _ => hg.value.bind fun value hvalue => .pure (hassign hleft (.mk trivial ?_))
      exact List.forall_mem_cons.2 ⟨hleft, List.forall_mem_singleton.2 hvalue⟩
    · exact asCall hleft _
  · exact asCall hleft k

theorem newStatement : Answers file (Stmt.Parsed file) g.newStatement := by
  unfold Grammar.newStatement
  refine .read fun t => conditional.bind fun e he => ?_
  split
  · exact .pure (.mk trivial he.parts)
  · exact .fail _ _

theorem deleteStatement : Answers file (Stmt.Parsed file) deleteStatement := by
  unfold Grammar.deleteStatement
  refine .read fun keyword => .read fun object => .read fun dotted => .ite ?_ ?_
  · exact .read fun _ => .read fun property => .pure (.mk trivial (List.forall_mem_nil _))
  · exact .read fun property => .pure (.mk trivial (List.forall_mem_nil _))

/-! ## Jumps, conditions and loops -/

theorem returnStatement : Answers file (Stmt.Parsed file) g.returnStatement := by
  unfold Grammar.returnStatement
  refine .read fun keyword => .read fun t => .ite (.pure (.mk trivial (List.forall_mem_nil _))) ?_
  exact hg.value.bind fun value hvalue => .pure (.mk trivial (List.forall_mem_singleton.2 hvalue))

theorem condition : Answers file (Expr.Parsed file) g.condition := by
  unfold Grammar.condition
  exact .read fun _ => hg.expression.bind fun e he => .read fun _ => .pure he

theorem branch : Answers file (fun b => AllParsed file b.parts) g.branch := by
  unfold Grammar.branch
  exact condition.bind fun e he => hg.block.bind fun body hbody =>
    .pure (List.forall_mem_cons.2 ⟨he, hbody⟩)

theorem ifStatement : Answers file (Stmt.Parsed file) g.ifStatement := by
  unfold Grammar.ifStatement
  refine .read fun keyword => branch.bind fun first hfirst => Answers.bind
    (Q := fun r : List Branch × Option Block =>
      (∀ b ∈ r.1, AllParsed file b.parts) ∧ ∀ b ∈ r.2, AllParsed file b.parts)
    (.loop (I := fun branches => ∀ b ∈ branches, AllParsed file b.parts) (fun branches h => ?_)
      (List.forall_mem_singleton.2 hfirst)) fun parts hparts => .pure (.mk trivial ?_)
  · have hbranches : ∀ b ∈ branches.reverse, AllParsed file b.parts :=
      fun b hb => h b (List.mem_reverse.1 hb)
    refine .read fun isElse => .ite (.pure ⟨hbranches, fun b hb => nomatch hb⟩)
      (.read fun isIf => .ite ?_ ?_)
    · exact branch.bind fun b hb => .pure (List.forall_mem_cons.2 ⟨hb, h⟩)
    · exact hg.block.bind fun b hb => .pure ⟨hbranches, fun b' hb' => by cases hb'; exact hb⟩
  · refine List.forall_mem_append.2 ⟨List.forall_mem_flatMap.2 hparts.1, ?_⟩
    exact List.forall_mem_flatMap.2 fun b hb => hparts.2 b (Option.mem_toList.1 hb)

theorem whileStatement : Answers file (Stmt.Parsed file) g.whileStatement := by
  unfold Grammar.whileStatement
  exact .read fun keyword => condition.bind fun e he => hg.block.bind fun body hbody =>
    .pure (.mk trivial (List.forall_mem_cons.2 ⟨he, hbody⟩))

theorem forVariables : Answers file (fun decls => ∀ s ∈ decls, s.Parsed file) g.forVariables := by
  unfold Grammar.forVariables
  refine variableStatement.bind fun first hfirst => ?_
  refine .loop (I := fun decls => ∀ s ∈ decls, Stmt.Parsed file s)
    (Q := fun decls => ∀ s ∈ decls, Stmt.Parsed file s) (fun decls h => ?_)
    (List.forall_mem_singleton.2 hfirst)
  refine .read fun comma => .ite ?_ ?_
  · exact (variableDeclaration _).bind fun d hd => .pure (List.forall_mem_cons.2 ⟨hd, h⟩)
  · refine .pure ?_
    exact fun s hs => h s (List.mem_reverse.1 hs)

theorem classicHeader : Answers file (fun h => AllParsed file h.parts) g.classicHeader := by
  unfold Grammar.classicHeader
  refine .read fun k => ?_
  extract_lets behindDeclarations
  have hdeclarations : ∀ declarations, (∀ s ∈ declarations, Stmt.Parsed file s) →
      Answers file (fun h => AllParsed file h.parts) (behindDeclarations declarations) := by
    intro declarations hdecls
    refine .read fun _ => .read fun isMissing => ?_
    extract_lets behindCondition
    have hcondition : ∀ condition, (∀ e ∈ condition, Expr.Parsed file e) →
        Answers file (fun h => AllParsed file h.parts) (behindCondition condition) := by
      intro condition hcond
      have hheader : ∀ step, (∀ s ∈ step, Stmt.Parsed file s) →
          AllParsed file (ForHeader.classic declarations condition step).parts := by
        intro step hstep
        refine List.forall_mem_append.2 ⟨List.forall_mem_append.2 ⟨?_, ?_⟩, ?_⟩
        · exact Node.allParsed_stmts.2 hdecls
        · exact Node.allParsed_exprs.2 fun e he => hcond e (Option.mem_toList.1 he)
        · exact Node.allParsed_stmts.2 fun s hs => hstep s (Option.mem_toList.1 hs)
      refine .read fun _ => .read fun isMissing => .ite ?_ ?_
      · exact Answers.bind (Q := fun step => ∀ s ∈ step, Stmt.Parsed file s)
          (.pure fun s hs => nomatch hs) fun step hstep => .pure (hheader step hstep)
      · exact simpleStatement.some.bind fun step hstep => .pure (hheader step hstep)
    refine .ite ?_ ?_
    · exact Answers.bind (Q := fun condition => ∀ e ∈ condition, Expr.Parsed file e)
        (.pure fun e he => nomatch he) hcondition
    · exact hg.expression.some.bind hcondition
  refine .ite (forVariables.bind hdeclarations) (.ite ?_ ?_)
  · exact Answers.bind (Q := fun decls => ∀ s ∈ decls, Stmt.Parsed file s)
      (.pure (List.forall_mem_nil _)) hdeclarations
  · refine Answers.bind (Q := fun decls => ∀ s ∈ decls, Stmt.Parsed file s)
      (simpleStatement.map fun s hs => ?_) hdeclarations
    exact List.forall_mem_singleton.2 hs

theorem iterationHeader : Answers file (fun h => AllParsed file h.parts) g.iterationHeader := by
  unfold Grammar.iterationHeader
  refine .read fun _ => .read fun binding => .read fun joint => hg.expression.bind fun e he =>
    .pure ?_
  split <;> exact List.forall_mem_singleton.2 he

theorem forHeader : Answers file (fun h => AllParsed file h.parts) g.forHeader := by
  unfold Grammar.forHeader
  exact .read fun iterates => .ite iterationHeader classicHeader

theorem forStatement : Answers file (Stmt.Parsed file) g.forStatement := by
  unfold Grammar.forStatement
  exact .read fun keyword => .read fun _ => forHeader.bind fun header hheader => .read fun _ =>
    hg.block.bind fun body hbody => .pure (.mk trivial (List.forall_mem_append.2 ⟨hheader, hbody⟩))

/-! ## Blocks -/

/-- Items are kept unless they are types. -/
theorem itemTurn {items : List Stmt} (hitems : ∀ s ∈ items, s.Parsed file) {Q : List Stmt → Prop} :
    Answers file (Turn.Is (fun items => ∀ s ∈ items, Stmt.Parsed file s) Q) (do
      match ← g.item with
      | some s => return .again (s :: items)
      | none => return .again items) := by
  refine hg.item.bind fun item hitem => ?_
  cases item with
  | some s => exact .pure (List.forall_mem_cons.2 ⟨hitem s rfl, hitems⟩)
  | none => exact .pure hitems

theorem blockBody : Answers file (fun b => AllParsed file b.parts) g.blockBody := by
  unfold Grammar.blockBody
  refine .nested (.read fun brace => Answers.bind (Q := fun items => ∀ s ∈ items, Stmt.Parsed file s)
    (.loop (I := fun items => ∀ s ∈ items, Stmt.Parsed file s) (fun items h => .read fun kind => ?_)
      (List.forall_mem_nil _))
    fun items h => .read fun close => .pure (Node.allParsed_stmts.2 h))
  split
  · refine .pure ?_
    exact fun s hs => h s (List.mem_reverse.1 hs)
  · exact .fail _ _
  · exact itemTurn h

/-! ## Switches -/

theorem caseStatements (position : Position) :
    Answers file (fun items => ∀ s ∈ items, Stmt.Parsed file s) (g.caseStatements position) := by
  unfold Grammar.caseStatements
  refine .loop (I := fun items => ∀ s ∈ items, Stmt.Parsed file s)
    (Q := fun items => ∀ s ∈ items, Stmt.Parsed file s)
    (fun items h => .read fun kind => ?_) (List.forall_mem_nil _)
  have hdone : ∀ s ∈ items.reverse, s.Parsed file := fun s hs => h s (List.mem_reverse.1 hs)
  split
  · exact .pure hdone
  · exact .pure hdone
  · exact .pure hdone
  · exact .fail _ _
  · exact itemTurn h

theorem writtenBlock :
    Answers file (fun b => ∀ x ∈ b, AllParsed file (CaseBlock.parts x)) g.writtenBlock := by
  have hblock : ∀ (p : Position) {label : Option Expr}, (∀ e ∈ label, Expr.Parsed file e) →
      Answers file (fun b => ∀ x ∈ b, AllParsed file (CaseBlock.parts x))
        (do return some ⟨p, label, ← g.caseStatements p⟩) := by
    intro p label hlabel
    refine (caseStatements p).bind fun statements hstatements => .pure fun x hx => ?_
    cases hx
    refine List.forall_mem_append.2 ⟨?_, Node.allParsed_stmts.2 hstatements⟩
    exact Node.allParsed_exprs.2 fun e he => hlabel e (Option.mem_toList.1 he)
  unfold Grammar.writtenBlock
  refine .read fun t => ?_
  split
  · refine .read fun _ => hg.expression.bind fun label hlabel => .read fun _ => hblock _ ?_
    intro e he
    cases he
    exact hlabel
  · exact .read fun _ => .read fun _ => hblock _ fun e he => absurd he (Option.not_mem_none e)
  · exact .pure fun x hx => absurd hx (Option.not_mem_none x)

theorem writtenBlocks :
    Answers file (fun blocks => ∀ b ∈ blocks, AllParsed file b.parts) g.writtenBlocks := by
  unfold Grammar.writtenBlocks
  refine Answers.bind (Q := fun blocks => ∀ b ∈ blocks, AllParsed file (CaseBlock.parts b))
    (.loop (I := fun blocks => ∀ b ∈ blocks, AllParsed file (CaseBlock.parts b)) (fun blocks h => ?_)
      (List.forall_mem_nil _)) fun blocks h => .read fun _ => .pure h
  unfold blockTurn
  refine writtenBlock.bind fun b hb => ?_
  cases b with
  | some b => exact .pure (List.forall_mem_cons.2 ⟨hb b rfl, h⟩)
  | none =>
    refine .pure ?_
    exact fun b hb => h b (List.mem_reverse.1 hb)

theorem writtenSwitch :
    Answers file (fun w => w.subject.Parsed file ∧ ∀ b ∈ w.blocks, AllParsed file b.parts)
      g.writtenSwitch := by
  unfold Grammar.writtenSwitch
  exact .read fun keyword => condition.bind fun e he => .read fun _ =>
    writtenBlocks.bind fun blocks hblocks => .pure ⟨he, hblocks⟩

/-- A block starts at the first token that is read for it. -/
theorem writtenBlock_reaches {ctx : Context} {c d : Cursor} {b : CaseBlock} (hc : c.Closed)
    (h : g.writtenBlock ctx c = .ok (some b, d)) : b.position = c.peek.position ∧ c.Reaches 1 d := by
  unfold Grammar.writtenBlock at h
  rw [run_peek_bind] at h
  generalize hkind : c.peek.kind = kind at h
  split at h
  · have hnext := Cursor.next_reaches_one hc (by rw [Cursor.peekKind, hkind]; simp)
    rw [run_discard_next_bind] at h
    refine ⟨?_, hnext.trans (Advances.reads.reaches (hnext.closed hc) h)⟩
    obtain ⟨_, _, _, h⟩ := bind_ok.1 h
    obtain ⟨_, _, _, h⟩ := bind_ok.1 h
    obtain ⟨_, _, _, hpure⟩ := bind_ok.1 h
    cases hpure
    rfl
  · have hnext := Cursor.next_reaches_one hc (by rw [Cursor.peekKind, hkind]; simp)
    rw [run_discard_next_bind] at h
    refine ⟨?_, hnext.trans (Advances.reads.reaches (hnext.closed hc) h)⟩
    obtain ⟨_, _, _, h⟩ := bind_ok.1 h
    obtain ⟨_, _, _, hpure⟩ := bind_ok.1 h
    cases hpure
    rfl
  · cases h

/-- Blocks stand in the file one behind the other, and before the places ahead. -/
theorem blocks_places {ctx : Context} {rounds : List Stop} {c d : Cursor}
    {before blocks : List CaseBlock} {places : List Position} (hc : c.Closed)
    (hbefore : (before.reverse.map (·.position) ++ c.places).Sublist places)
    (h : loopFrom (blockTurn fun _ => g.writtenBlock) rounds before ctx c = .ok (blocks, d)) :
    (blocks.map (·.position)).Sublist places := by
  induction rounds generalizing before c with
  | nil => cases h
  | cons s rounds ih =>
    cases hblock : g.writtenBlock ctx c with
    | error e =>
      rw [blocks_failed (q := fun _ => g.writtenBlock) hblock] at h
      cases h
    | ok r =>
      obtain ⟨b, c'⟩ := r
      cases b with
      | none =>
        rw [blocks_done (q := fun _ => g.writtenBlock) hblock] at h
        cases h
        exact (List.sublist_append_left _ _).trans hbefore
      | some b =>
        rw [blocks_again (q := fun _ => g.writtenBlock) hblock] at h
        obtain ⟨hposition, hreaches⟩ := writtenBlock_reaches hc hblock
        obtain ⟨read, hread, hpos⟩ := hreaches.places
        obtain ⟨rest, hrest⟩ := c.places_eq_cons
        refine ih (hreaches.closed hc) (.trans ?_ hbefore) h
        rw [List.reverse_cons, List.map_append, List.append_assoc]
        refine .append_left ?_ _
        -- The first token that is read for the block is the first of the places ahead.
        obtain ⟨p, read, rfl⟩ := List.exists_cons_of_length_pos hpos
        rw [hread] at hrest ⊢
        have hfirst : p = b.position := (List.cons.inj hrest).1.trans hposition.symm
        rw [hfirst]
        exact .cons_cons _ (List.sublist_append_right _ _)

theorem writtenSwitch_places {ctx : Context} {c d : Cursor} {w : Written} (hfile : file.Closed)
    (hc : file.Reaches 0 c) (h : g.writtenSwitch ctx c = .ok (w, d)) :
    (w.blocks.map (·.position)).Sublist file.places := by
  unfold Grammar.writtenSwitch at h
  obtain ⟨keyword, c₁, hkeyword, h⟩ := bind_ok.1 h
  have h₁ := hc.trans (Advances.reads.reaches (hc.closed hfile) hkeyword)
  obtain ⟨subject, c₂, hsubject, h⟩ := bind_ok.1 h
  have h₂ := h₁.trans (Advances.reads.reaches (h₁.closed hfile) hsubject)
  obtain ⟨_, c₃, hbrace, h⟩ := bind_ok.1 h
  have h₃ := h₂.trans (Advances.reads.reaches (h₂.closed hfile) hbrace)
  obtain ⟨blocks, c₄, hblocks, h⟩ := bind_ok.1 h
  cases h
  unfold Grammar.writtenBlocks at hblocks
  obtain ⟨read, c₅, hloop, hblocks⟩ := bind_ok.1 hblocks
  obtain ⟨_, c₆, hclose, hblocks⟩ := bind_ok.1 hblocks
  cases hblocks
  refine blocks_places (h₃.closed hfile) ?_ hloop
  obtain ⟨taken, htaken, -⟩ := h₃.places
  rw [htaken]
  exact List.sublist_append_right _ _

/-- Where the default of a switch is kept apart there is one of them at most. -/
theorem find?_isDefault {blocks : List CaseBlock} (h : blocks.Pairwise CaseBlock.Differs) :
    (blocks.find? (·.isDefault)).toList = blocks.filter (·.label.isNone) := by
  induction blocks with
  | nil => rfl
  | cons b blocks ih =>
    obtain ⟨hb, hblocks⟩ := List.pairwise_cons.1 h
    rw [List.find?_cons, List.filter_cons]
    unfold CaseBlock.isDefault at ih ⊢
    cases hlabel : b.label with
    | some label =>
      simp only [Option.isNone_some]
      exact ih hblocks
    | none =>
      have hnone : blocks.filter (·.label.isNone) = [] := by
        refine List.filter_eq_nil_iff.2 fun a ha hdefault => ?_
        exact (hb a ha).defaults ⟨hlabel, Option.isNone_iff_eq_none.1 hdefault⟩
      simp [hnone]

theorem switchStatement : Answers file (Stmt.Parsed file) g.switchStatement := by
  refine ⟨fun hfile ctx c s d hc hok => ?_⟩
  obtain ⟨w, hwritten, rfl, hrules⟩ := writtenSwitch_of_ok hok
  obtain ⟨⟨hsubject, hblocks⟩, hd⟩ := writtenSwitch.holds hfile hc hwritten
  have hcases : w.blocks.filter (!·.isDefault) = w.blocks.filter (·.label.isSome) := by
    refine List.filter_congr fun b _ => ?_
    unfold CaseBlock.isDefault
    cases b.label <;> rfl
  have hdefault := find?_isDefault hrules.differ
  have hplaces := writtenSwitch_places hfile hc hwritten
  refine ⟨.mk ⟨w.blocks, hcases, hdefault, hplaces, hrules⟩ ?_, hd⟩
  refine List.forall_mem_cons.2 ⟨hsubject, List.forall_mem_flatMap.2 fun b hb => hblocks b ?_⟩
  rw [hdefault] at hb
  obtain hb | hb := List.mem_append.1 hb
  · exact (List.mem_filter.1 hb).1
  · exact (List.mem_filter.1 hb).1

/-! ## Other statements -/

theorem catchClause (keyword : Token) :
    Answers file (fun c => AllParsed file c.parts) (g.catchClause keyword) := by
  unfold Grammar.catchClause
  refine .read fun isBound => ?_
  extract_lets behindBinding
  have hbinding : ∀ binding, Answers file (fun c => AllParsed file c.parts)
      (behindBinding binding) :=
    fun binding => hg.block.bind fun body hbody => .pure hbody
  exact .ite (.read fun name => .read fun _ => .read fun _ => .read hbinding) (.read hbinding)

theorem tryStatement : Answers file (Stmt.Parsed file) g.tryStatement := by
  unfold Grammar.tryStatement
  refine .read fun keyword => hg.block.bind fun body hbody => .read fun caught => ?_
  extract_lets behindHandler
  have hhandler : ∀ handler, (∀ c ∈ handler, AllParsed file (CatchClause.parts c)) →
      Answers file (Stmt.Parsed file) (behindHandler handler) := by
    intro handler hhandler
    have hstmt : ∀ finalizer, (∀ b ∈ finalizer, AllParsed file (Block.parts b)) →
        Stmt.Parsed file (.tryCatch keyword.position body handler finalizer) := by
      intro finalizer hfinalizer
      refine .mk trivial (List.forall_mem_append.2 ⟨List.forall_mem_append.2 ⟨hbody, ?_⟩, ?_⟩)
      · exact List.forall_mem_flatMap.2 fun c hc => hhandler c (Option.mem_toList.1 hc)
      · exact List.forall_mem_flatMap.2 fun b hb => hfinalizer b (Option.mem_toList.1 hb)
    refine .read fun hasFinalizer => .ite ?_ ?_
    · exact hg.block.some.bind fun finalizer hfinalizer => .pure (hstmt finalizer hfinalizer)
    · exact Answers.bind (Q := fun finalizer => ∀ b ∈ finalizer, AllParsed file (Block.parts b))
        (.pure fun b hb => nomatch hb) fun finalizer hfinalizer => .pure (hstmt finalizer hfinalizer)
  cases caught with
  | some t => exact (catchClause t).some.bind hhandler
  | none =>
    exact Answers.bind (Q := fun handler => ∀ c ∈ handler, AllParsed file (CatchClause.parts c))
      (.pure fun c hc => nomatch hc) hhandler

theorem labelStatement : Answers file (Stmt.Parsed file) g.labelStatement := by
  have hlabel : ∀ p name {body}, Stmt.Parsed file body → Stmt.Parsed file (.label p name body) :=
    fun _ _ _ hbody => .mk trivial (List.forall_mem_singleton.2 hbody)
  unfold Grammar.labelStatement
  refine .read fun name => .read fun _ => .read fun t => ?_
  dsimp only
  split
  · exact forStatement.bind fun body hbody => .pure (hlabel _ _ hbody)
  · exact whileStatement.bind fun body hbody => .pure (hlabel _ _ hbody)
  · exact switchStatement.bind fun body hbody => .pure (hlabel _ _ hbody)
  · exact Answers.bind (Q := Stmt.Parsed file) (.fail _ _) fun body hbody =>
      .pure (hlabel _ _ hbody)

theorem enumDeclaration (exported : Bool) :
    Answers file (fun d => Stmt.Parsed file (.enumDecl d)) (enumDeclaration exported) :=
  ⟨fun hfile _ _ _ _ hc h => ⟨.mk (enumDeclaration_ok hc h) (List.forall_mem_nil _),
    hc.trans (Advances.reads.reaches (hc.closed hfile) h)⟩⟩

theorem bareStatement : Answers file (Stmt.Parsed file) g.bareStatement := by
  have hvariable : Answers file (Stmt.Parsed file) (do return .varDecl (← g.variableStatement)) :=
    variableStatement.bind fun d hd => .pure hd
  have hleaf : ∀ {s : Stmt}, s.parts = [] → (Node.stmt s).Proper file → s.Parsed file :=
    fun hparts hself => .mk hself (by rw [hparts]; exact List.forall_mem_nil _)
  unfold Grammar.bareStatement
  refine .read fun t => ?_
  split
  · exact hvariable
  · exact hvariable
  · exact hvariable
  · exact (enumDeclaration false).bind fun d hd => .pure hd
  · exact (functionDeclaration false).bind fun f hf => .pure hf
  · exact ifStatement
  · exact whileStatement
  · exact forStatement
  · exact switchStatement
  · exact tryStatement
  · exact returnStatement
  · refine .read fun _ => hg.value.bind fun value hvalue => .pure (.mk trivial ?_)
    exact List.forall_mem_singleton.2 hvalue
  · exact .read fun _ => .read fun label => .pure (hleaf rfl trivial)
  · exact .read fun _ => .read fun label => .pure (hleaf rfl trivial)
  · exact deleteStatement
  · exact newStatement
  · exact blockBody.bind fun b hb => .pure (.mk trivial hb)
  · refine .read fun isMethod => .ite ?_ (.read fun isLabel => .ite labelStatement simpleStatement)
    exact prototypeMethod.bind fun f hf => .pure hf
  · exact simpleStatement
  · exact .fail _ _
  · exact .failHere _

theorem statementBody : Answers file (Stmt.Parsed file) g.statementBody := by
  unfold Grammar.statementBody
  exact bareStatement.bind fun s hs => .read fun _ => .pure hs

theorem blockItem : Answers file (fun item => ∀ s ∈ item, Stmt.Parsed file s) g.blockItem := by
  unfold Grammar.blockItem
  refine .read fun isAlias => .ite (.read fun _ => .pure fun s hs => nomatch hs)
    (.read fun isInterface => .ite (.read fun _ => .pure fun s hs => nomatch hs) ?_)
  exact statementBody.some

end Parses

/-! ## The whole grammar -/

theorem Parses.around (g : Grammar) [g.Progress] [hg : g.Parses file] : g.around.Parses file where
  types := by
    obtain ⟨n, htype, -⟩ := hg.types
    refine ⟨n + 1, ?_⟩
    rw [ofDepth_succ]
    exact ⟨congrArg unionType htype, congrArg ascribedType htype⟩
  value := valueExpression
  expression := conditional
  binary := binaryExpression
  unary := unaryExpression
  block := blockBody
  item := blockItem

theorem Parses.empty : Grammar.empty.Parses file where
  types := ⟨0, rfl, rfl⟩
  value := .read fun _ => .fail _ _
  expression := .read fun _ => .fail _ _
  binary := fun _ => .read fun _ => .fail _ _
  unary := .read fun _ => .fail _ _
  block := .read fun _ => .fail _ _
  item := .read fun _ => .fail _ _

/-- However deep the grammar is entered, everything it answers is made as the grammar makes it. -/
instance parses_ofDepth (n : Nat) : (ofDepth n).Parses file := by
  induction n with
  | zero => exact Parses.empty
  | succ n ih => exact Parses.around (ofDepth n)

end Grammar

end ScriptFront
