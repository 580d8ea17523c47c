import ScriptFront.Proofs.Parsed.Statements
import ScriptFront.Proofs.WellFormed.Expressions

/-!
# Well-formed statements

Whatever the grammar makes for a block, a case or a label may stand there. A function keeps what is
expected of it when its tail call is marked, and a method of a prototype is made where one is written.
-/

set_option linter.unusedSectionVars false

namespace ScriptFront

open Node (AllWellFormed)

variable {r : Reading}

/-! ## Statements by their parts -/

namespace Stmt

variable {s : Stmt}

theorem WellFormed.mk (hself : (Node.stmt s).Formed r) (hparts : AllWellFormed r s.parts) :
    s.WellFormed r := Node.WellFormed.mk hself hparts

theorem Fits.inner (h : s.Fits r) : s.Inner := h.1

theorem Fits.wellFormed (h : s.Fits r) : s.WellFormed r := h.2

theorem wellFormed_varDecl {d : VarDecl} (h : d.value.WellFormed r) : (varDecl d).WellFormed r :=
  .mk trivial (List.forall_mem_singleton.2 h)

theorem wellFormed_assign {left value : Expr} (hleft : left.WellFormed r) (hvalue : value.WellFormed r) :
    (assign left value).WellFormed r :=
  .mk trivial (List.forall_mem_cons.2 ⟨hleft, List.forall_mem_singleton.2 hvalue⟩)

end Stmt

/-! ## Tail calls -/

namespace Stmt

variable {s : Stmt} {name : String}

/-- A mark at the end of a function is put on a call of that function. -/
theorem atEndOf_eq (name : String) (s : Stmt) :
    s.atEndOf name = s ∨ ∃ c : Call, s.atEndOf name = .tailCall c ∧ c.names name = true ∧
      (s = .call c ∨ ∃ p, s = .returns p (some (.call c))) := by
  unfold atEndOf
  split
  · split
    · next p c hnames => exact .inr ⟨c, rfl, hnames, .inr ⟨p, rfl⟩⟩
    · exact .inl rfl
  · split
    · next c hnames => exact .inr ⟨c, rfl, hnames, .inl rfl⟩
    · exact .inl rfl
  · exact .inl rfl

theorem WellFormed.atEndOf (h : s.WellFormed r) (name : String) : (s.atEndOf name).WellFormed r := by
  obtain hsame | ⟨c, hcall, -, rfl | ⟨p, rfl⟩⟩ := atEndOf_eq name s
  · rw [hsame]
    exact h
  · rw [hcall]
    exact .mk h.self h.parts
  · have hc : (Expr.call c).WellFormed r := h.parts _ (List.mem_singleton_self _)
    rw [hcall]
    exact .mk hc.self hc.parts

end Stmt

namespace FuncDecl

variable {f : FuncDecl}

/-- A function that marks no tail call. -/
theorem formed_of_fits (hbody : f.body.Fits r)
    (hreceiver : ∀ type ∈ f.receiver, f.exported = false ∧ ∃ c, r.file.Reaches 0 c ∧
      c.startsPrototypeMethod = true ∧ c.peek.text = type ∧ (c.peekNth 2).position = f.position ∧
      (c.peekNth 4).text = f.name) : f.Formed r where
  receiver := hreceiver
  before s hs := (hbody s ((List.dropLast_sublist _).subset hs)).1
  last s hs := .inl (hbody s (List.mem_of_getLast? hs)).1

/-- A function keeps what is expected of it when its tail call is marked. -/
theorem wellFormed_markTailCall (hbody : f.body.Fits r) (hreceiver : f.receiver = none)
    (hoptimize : r.optimize = true) : (Stmt.funcDecl f.markTailCall).WellFormed r := by
  obtain hnil | ⟨front, s, hstatements⟩ := f.body.statements.eq_nil_or_concat
  · have hsame : f.markTailCall.body.statements = [] := by
      unfold markTailCall
      rw [hnil]
      rfl
    refine .mk ⟨fun _ htype => ?_, fun s hs => ?_, fun s hs => ?_⟩ fun n hn => ?_
    · cases hreceiver.symm.trans htype
    · rw [hsame] at hs
      cases hs
    · rw [hsame] at hs
      cases hs
    · rw [Stmt.parts, Block.parts, hsame] at hn
      cases hn
  · rw [List.concat_eq_append] at hstatements
    have hmarked : f.markTailCall.body.statements = front ++ [s.atEndOf f.name] := by
      show Stmt.markLast f.name f.body.statements = _
      rw [hstatements, Stmt.markLast_eq]
      simp [Stmt.bodyOf]
    have hfits : ∀ s' ∈ front ++ [s], s'.Fits r := hstatements ▸ hbody
    have hlast : s.Fits r := hfits s (by simp)
    refine .mk ⟨fun _ htype => ?_, fun s' hs' => ?_, fun s' hs' => ?_⟩ ?_
    · cases hreceiver.symm.trans htype
    · rw [hmarked, List.dropLast_concat] at hs'
      exact (hfits s' (List.mem_append_left _ hs')).inner
    · rw [hmarked, List.getLast?_concat] at hs'
      cases hs'
      obtain hsame | ⟨c, hcall, hnames, -⟩ := Stmt.atEndOf_eq f.name s
      · rw [hsame]
        exact .inl hlast.inner
      · exact .inr ⟨c, hcall, hoptimize, hreceiver, hnames⟩
    · refine Node.allWellFormed_stmts.2 ?_
      rw [hmarked]
      refine List.forall_mem_append.2 ⟨fun s' hs' => ?_, List.forall_mem_singleton.2 ?_⟩
      · exact (hfits s' (List.mem_append_left _ hs')).wellFormed
      · exact hlast.wellFormed.atEndOf f.name

end FuncDecl

namespace Production

variable {α : Type}

/-! ## Single tokens -/

/-- Whether `p` goes behind the current token and answers something about it. -/
structure Eats (of : Token → α) (p : Production α) : Prop where
  ok : ∀ {ctx : Context} {c : Cursor} {a : α} {d : Cursor}, p ctx c = .ok (a, d) →
    a = of c.peek ∧ d = c.next ∧ c.peekKind ≠ .endOfFile

namespace Eats

theorem nextIf {test : Cursor → Bool} {cause : String → Cause}
    (h : ∀ c, test c = true → c.peekKind ≠ .endOfFile) :
    Eats id (do if ← asks test then next else failHere cause) := by
  refine ⟨fun {ctx c _ _} hok => ?_⟩
  rw [run_asks_bind] at hok
  by_cases htest : test c = true
  · rw [if_pos htest] at hok
    cases hok
    exact ⟨rfl, rfl, h c htest⟩
  · rw [if_neg htest] at hok
    cases hok

theorem accept {k : Kind} (hk : k ≠ .endOfFile) : Eats id (Production.accept k) := by
  refine ⟨fun {ctx c _ _} hok => ?_⟩
  cases hat : c.isAt k with
  | true =>
    rw [run_accept_of_isAt ctx hat] at hok
    cases hok
    exact ⟨rfl, rfl, fun hend => hk (((eq_of_beq hat).symm.trans hend))⟩
  | false =>
    rw [run_accept_of_not ctx hat] at hok
    cases hok

theorem identifier : Eats id Production.identifier :=
  nextIf fun c h => by rw [show c.peekKind = .identifier from eq_of_beq h]; decide

theorem name : Eats id Production.name :=
  @nextIf (fun c => c.peekKind.isName) _ fun c h hkind => by rw [hkind] at h; cases h

theorem word (w : String) : Eats id (Production.word w) := by
  refine nextIf fun c h => ?_
  rw [Token.isWord, Bool.and_eq_true] at h
  rw [show c.peekKind = .identifier from eq_of_beq h.1]
  decide

theorem discard {p : Production Token} (hp : Eats id p) : Eats (fun _ => ()) (Functor.discard p) := by
  refine ⟨fun hok => ?_⟩
  obtain ⟨t, d, ht, hd⟩ := bind_ok.1 hok
  cases hd
  exact ⟨rfl, (hp.ok ht).2⟩

end Eats

end Production

namespace Grammar

open Production

/-! ## Variables and functions -/

/-- A function that is no method of a prototype, before a file gives it attributes. -/
structure PlainFunction (r : Reading) (exported : Bool) (f : FuncDecl) : Prop where
  exported : f.exported = exported
  attributes : f.attributes = []
  receiver : f.receiver = none
  wellFormed : (Stmt.funcDecl f).WellFormed r

theorem PlainFunction.fits {f : FuncDecl} (h : PlainFunction r false f) : (Stmt.funcDecl f).Fits r :=
  ⟨⟨h.exported, h.attributes⟩, h.wellFormed⟩

namespace Forms

variable {g : Grammar} [g.Progress] [hg : g.Forms r]

theorem variableDeclaration (isConst : Bool) :
    Makes r (fun d => d.isConst = isConst ∧ (Stmt.varDecl d).Fits r) (g.variableDeclaration isConst) := by
  have hdecl : ∀ {value : Expr} (p : Position) (name : String), value.WellFormed r →
      (Stmt.varDecl ⟨p, name, value, false, isConst⟩).Fits r :=
    fun _ _ hvalue => ⟨rfl, Stmt.wellFormed_varDecl hvalue⟩
  unfold Grammar.variableDeclaration
  refine .read fun name => .read fun _ => .read fun _ => .read fun given => .ite ?_ ?_
  · exact hg.value.bind fun value hvalue => .pure ⟨rfl, hdecl _ _ hvalue⟩
  · apply Makes.bind (Q := Expr.WellFormed r)
    · exact .pure (.mk trivial (List.forall_mem_nil _))
    · exact fun value hvalue => .pure ⟨rfl, hdecl _ _ hvalue⟩

theorem variableStatement : Makes r (fun d => (Stmt.varDecl d).Fits r) g.variableStatement := by
  unfold Grammar.variableStatement
  exact .read fun keyword => (variableDeclaration _).weaken fun d hd => hd.2

/-- The keyword in front of a variable says whether it is a constant. -/
theorem variableStatement_const (hfile : r.file.Closed) {ctx : Context} {c d : Cursor} {decl : VarDecl}
    (hctx : ctx.optimize = r.optimize) (hc : r.file.Reaches 0 c)
    (hkind : c.peekKind = .keyword .constWord) (h : g.variableStatement ctx c = .ok (decl, d)) :
    decl.isConst = true := by
  unfold Grammar.variableStatement at h
  rw [run_next_bind, show c.peek.kind = .keyword .constWord from hkind] at h
  exact ((variableDeclaration true).holds hfile hctx (hc.trans c.next_reaches) h).1.1

theorem namedFunction (position : Position) (name : String) (exported : Bool) :
    Makes r (PlainFunction r exported) (g.namedFunction position name exported) := by
  unfold Grammar.namedFunction
  refine functionRest.bind fun rest hrest => .read fun _ => .optimizes ?_
  by_cases hoptimize : r.optimize = true
  · rw [if_pos hoptimize]
    exact .pure ⟨rfl, rfl, rfl, FuncDecl.wellFormed_markTailCall hrest rfl hoptimize⟩
  · rw [if_neg hoptimize]
    refine .pure ⟨rfl, rfl, rfl, .mk ?_ hrest.parts⟩
    exact FuncDecl.formed_of_fits hrest fun _ htype => nomatch htype

theorem functionDeclaration (exported : Bool) :
    Makes r (PlainFunction r exported) (g.functionDeclaration exported) := by
  unfold Grammar.functionDeclaration
  exact .read fun keyword => .read fun name => namedFunction _ _ _

/-- A method of a prototype is made where one is written. -/
theorem prototypeMethod (hfile : r.file.Closed) {ctx : Context} {c d : Cursor} {f : FuncDecl}
    (hctx : ctx.optimize = r.optimize) (hc : r.file.Reaches 0 c)
    (hstarts : c.startsPrototypeMethod = true) (h : g.prototypeMethod ctx c = .ok (f, d)) :
    (Stmt.funcDecl f).Fits r ∧ r.file.Reaches 0 d := by
  unfold Grammar.prototypeMethod at h
  obtain ⟨type, c₁, h₁, h⟩ := bind_ok.1 h
  obtain ⟨_, c₂, h₂, h⟩ := bind_ok.1 h
  obtain ⟨prototype, c₃, h₃, h⟩ := bind_ok.1 h
  obtain ⟨_, c₄, h₄, h⟩ := bind_ok.1 h
  obtain ⟨name, c₅, h₅, h⟩ := bind_ok.1 h
  obtain ⟨_, c₆, h₆, h⟩ := bind_ok.1 h
  obtain ⟨_, c₇, h₇, h⟩ := bind_ok.1 h
  obtain ⟨rest, c₈, hrest, h⟩ := bind_ok.1 h
  cases h
  obtain ⟨rfl, rfl, ho₁⟩ := Eats.identifier.ok h₁
  obtain ⟨-, rfl, ho₂⟩ := (Eats.accept (by simp)).discard.ok h₂
  obtain ⟨rfl, rfl, ho₃⟩ := (Eats.word _).ok h₃
  obtain ⟨-, rfl, ho₄⟩ := (Eats.accept (by simp)).discard.ok h₄
  obtain ⟨rfl, rfl, -⟩ := Eats.name.ok h₅
  obtain ⟨-, rfl, -⟩ := (Eats.accept (by simp)).discard.ok h₆
  obtain ⟨-, rfl, -⟩ := (Eats.accept (by simp)).discard.ok h₇
  have hprototype : c.next.next.peek = c.peekNth 2 := by
    rw [Cursor.peek, Cursor.peekNth_next _ ho₂, Cursor.peekNth_next _ ho₁]
  have hname : c.next.next.next.next.peek = c.peekNth 4 := by
    rw [Cursor.peek, Cursor.peekNth_next _ ho₄, Cursor.peekNth_next _ ho₃, Cursor.peekNth_next _ ho₂,
      Cursor.peekNth_next _ ho₁]
  have hreach : r.file.Reaches 0 (c.advance 7) := hc.trans (c.advance_reaches 7)
  obtain ⟨hbody, hd⟩ := functionRest.holds hfile hctx hreach hrest
  refine ⟨⟨⟨rfl, rfl⟩, .mk (FuncDecl.formed_of_fits hbody fun t ht => ?_) hbody.parts⟩, hd⟩
  cases ht
  refine ⟨rfl, c, hc, hstarts, rfl, ?_, ?_⟩
  · exact congrArg Token.position hprototype.symm
  · exact congrArg Token.text hname.symm

theorem enumDeclaration (exported : Bool) :
    Makes r (fun d => d.exported = exported) (Production.enumDeclaration exported) := by
  unfold Production.enumDeclaration
  exact .read fun _ => .read fun name => .read fun _ => .read fun members => .read fun _ => .read fun _ =>
    .pure rfl

/-! ## Simple statements -/

theorem asCall {left : Expr} (hleft : left.WellFormed r) (k : Kind) :
    Makes r (fun s => s.Simple ∧ s.WellFormed r) (simpleStatement.asCall left k) := by
  unfold simpleStatement.asCall
  split
  · exact .pure ⟨trivial, .mk hleft.self hleft.parts⟩
  · split
    · exact .fail _ _
    · exact .fail _ _
    · exact .fail _ _
    · exact .failHere _

theorem simpleStatement : Makes r (fun s => s.Simple ∧ s.WellFormed r) g.simpleStatement := by
  unfold Grammar.simpleStatement
  refine operand.bind fun left hleft => .read fun k => ?_
  split
  · refine .read fun _ => hg.value.bind fun value hvalue => .pure ⟨trivial, ?_⟩
    exact Stmt.wellFormed_assign hleft hvalue
  · split
    · exact .read fun _ => .pure ⟨trivial, .mk trivial (List.forall_mem_singleton.2 hleft)⟩
    · refine .read fun _ => hg.value.bind fun value hvalue => .pure ⟨trivial, ?_⟩
      exact Stmt.wellFormed_assign hleft (hleft.binary hvalue)
    · exact asCall hleft _
  · exact asCall hleft k

theorem newStatement : Makes r (Stmt.Fits r) g.newStatement := by
  unfold Grammar.newStatement
  refine .read fun t => conditional.bind fun e he => ?_
  split
  · exact .pure ⟨trivial, .mk he.self he.parts⟩
  · exact .fail _ _

theorem deleteStatement : Makes r (Stmt.Fits r) deleteStatement := by
  unfold Grammar.deleteStatement
  refine .read fun keyword => .read fun object => .read fun dotted => .ite ?_ ?_
  · exact .read fun _ => .read fun property => .pure ⟨trivial, .mk trivial (List.forall_mem_nil _)⟩
  · exact .read fun property => .pure ⟨trivial, .mk trivial (List.forall_mem_nil _)⟩

/-! ## Jumps, conditions and loops -/

theorem returnStatement : Makes r (Stmt.Fits r) g.returnStatement := by
  unfold Grammar.returnStatement
  refine .read fun keyword => .read fun t => .ite ?_ ?_
  · exact .pure ⟨trivial, .mk trivial (List.forall_mem_nil _)⟩
  · refine hg.value.bind fun value hvalue => .pure ⟨trivial, .mk trivial ?_⟩
    exact List.forall_mem_singleton.2 hvalue

theorem condition : Makes r (Expr.WellFormed r) g.condition := by
  unfold Grammar.condition
  exact .read fun _ => hg.expression.bind fun e he => .read fun _ => .pure he

theorem branch : Makes r (fun b => b.condition.WellFormed r ∧ b.body.Fits r) g.branch := by
  unfold Grammar.branch
  exact condition.bind fun e he => hg.block.bind fun body hbody => .pure ⟨he, hbody⟩

/-- An `if` has the branch that it starts with. -/
theorem ifStatement : Makes r (Stmt.Fits r) g.ifStatement := by
  let Kept (branches : List Branch) : Prop :=
    branches ≠ [] ∧ ∀ b ∈ branches, b.condition.WellFormed r ∧ b.body.Fits r
  have hparts : ∀ {branches otherwise}, Kept branches → (∀ b ∈ otherwise, Block.Fits r b) → ∀ p,
      (Stmt.ifElse p branches otherwise).Fits r := by
    intro branches otherwise hbranches hotherwise p
    refine ⟨trivial, .mk ⟨hbranches.1, fun b hb => (hbranches.2 b hb).2.formed,
      fun b hb => (hotherwise b hb).formed⟩ (List.forall_mem_append.2 ⟨?_, ?_⟩)⟩
    · refine List.forall_mem_flatMap.2 fun b hb => List.forall_mem_cons.2 ⟨?_, ?_⟩
      · exact (hbranches.2 b hb).1
      · exact (hbranches.2 b hb).2.parts
    · exact List.forall_mem_flatMap.2 fun b hb => (hotherwise b (Option.mem_toList.1 hb)).parts
  unfold Grammar.ifStatement
  refine .read fun keyword => branch.bind fun first hfirst => ?_
  apply Makes.bind (Q := fun a : List Branch × Option Block =>
    Kept a.1 ∧ ∀ b ∈ a.2, Block.Fits r b)
  · apply Makes.loop (I := Kept) _ ⟨List.cons_ne_nil _ _, List.forall_mem_singleton.2 hfirst⟩
    intro branches h
    have hdone : Kept branches.reverse :=
      ⟨by simpa using h.1, fun b hb => h.2 b (List.mem_reverse.1 hb)⟩
    refine .read fun isElse => .ite ?_ (.read fun isIf => .ite ?_ ?_)
    · exact .pure ⟨hdone, fun b hb => nomatch hb⟩
    · exact branch.bind fun b hb => .pure ⟨List.cons_ne_nil _ _, List.forall_mem_cons.2 ⟨hb, h.2⟩⟩
    · exact hg.block.bind fun b hb => .pure ⟨hdone, fun b' hb' => by cases hb'; exact hb⟩
  · exact fun parts hkept => .pure (hparts hkept.1 hkept.2 _)

theorem whileStatement : Makes r (fun s => s.Jumpable ∧ s.Fits r) g.whileStatement := by
  unfold Grammar.whileStatement
  exact .read fun keyword => condition.bind fun e he => hg.block.bind fun body hbody =>
    .pure ⟨trivial, trivial, .mk hbody.formed (List.forall_mem_cons.2 ⟨he, hbody.parts⟩)⟩

/-- The variables of a loop share the keyword of the first. -/
theorem forVariables :
    Makes r (fun decls => ForHeader.Starts decls ∧ ∀ s ∈ decls, Stmt.WellFormed r s) g.forVariables := by
  unfold Grammar.forVariables
  refine variableStatement.bind fun first hfirst => ?_
  apply Makes.loop (I := fun decls => ∀ s ∈ decls, Stmt.Declares first.isConst s ∧ s.WellFormed r)
  · intro decls h
    refine .read fun comma => .ite ?_ (.pure ⟨.inl ⟨first.isConst, fun s hs => ?_⟩, fun s hs => ?_⟩)
    · refine (variableDeclaration _).bind fun d hd => .pure (List.forall_mem_cons.2 ⟨?_, h⟩)
      exact ⟨⟨d, rfl, hd.1, hd.2.inner⟩, hd.2.wellFormed⟩
    · exact (h s (List.mem_reverse.1 hs)).1
    · exact (h s (List.mem_reverse.1 hs)).2
  · exact List.forall_mem_singleton.2 ⟨⟨first, rfl, rfl, hfirst.inner⟩, hfirst.wellFormed⟩

theorem classicHeader : Makes r (fun h => h.Formed ∧ AllWellFormed r h.parts) g.classicHeader := by
  unfold Grammar.classicHeader
  refine .read fun k => ?_
  extract_lets behindDeclarations
  have hdeclarations : ∀ declarations : List Stmt,
      (ForHeader.Starts declarations ∧ ∀ s ∈ declarations, s.WellFormed r) →
      Makes r (fun h => h.Formed ∧ AllWellFormed r h.parts) (behindDeclarations declarations) := by
    rintro declarations ⟨hstarts, hdecls⟩
    refine .read fun _ => .read fun isMissing => ?_
    extract_lets behindCondition
    have hcondition : ∀ condition, (∀ e ∈ condition, Expr.WellFormed r e) →
        Makes r (fun h => h.Formed ∧ AllWellFormed r h.parts) (behindCondition condition) := by
      intro condition hcond
      have hheader : ∀ step, (∀ s ∈ step, Stmt.Simple s ∧ s.WellFormed r) →
          (ForHeader.classic declarations condition step).Formed ∧
            AllWellFormed r (ForHeader.classic declarations condition step).parts := by
        intro step hstep
        refine ⟨⟨hstarts, fun s hs => (hstep s hs).1⟩,
          List.forall_mem_append.2 ⟨List.forall_mem_append.2 ⟨?_, ?_⟩, ?_⟩⟩
        · exact Node.allWellFormed_stmts.2 hdecls
        · exact Node.allWellFormed_exprs.2 fun e he => hcond e (Option.mem_toList.1 he)
        · exact Node.allWellFormed_stmts.2 fun s hs => (hstep s (Option.mem_toList.1 hs)).2
      refine .read fun _ => .read fun isMissing => .ite ?_ ?_
      · apply Makes.bind (Q := fun step => ∀ s ∈ step, Stmt.Simple s ∧ s.WellFormed r)
        · exact .pure fun s hs => nomatch hs
        · exact fun step hstep => .pure (hheader step hstep)
      · exact simpleStatement.some.bind fun step hstep => .pure (hheader step hstep)
    refine .ite ?_ ?_
    · apply Makes.bind (Q := fun condition => ∀ e ∈ condition, Expr.WellFormed r e) _ hcondition
      exact .pure fun e he => nomatch he
    · exact hg.expression.some.bind hcondition
  refine .ite (forVariables.bind hdeclarations) (.ite ?_ ?_)
  · apply Makes.bind (Q := fun decls => ForHeader.Starts decls ∧ ∀ s ∈ decls, Stmt.WellFormed r s) _
      hdeclarations
    exact .pure ⟨.inr ⟨Nat.zero_le _, List.forall_mem_nil _⟩, List.forall_mem_nil _⟩
  · apply Makes.bind (Q := fun decls => ForHeader.Starts decls ∧ ∀ s ∈ decls, Stmt.WellFormed r s) _
      hdeclarations
    refine simpleStatement.map fun s hs => ⟨.inr ⟨Nat.le_refl _, ?_⟩, ?_⟩
    · exact List.forall_mem_singleton.2 hs.1
    · exact List.forall_mem_singleton.2 hs.2

theorem iterationHeader : Makes r (fun h => h.Formed ∧ AllWellFormed r h.parts) g.iterationHeader := by
  unfold Grammar.iterationHeader
  refine .read fun _ => .read fun binding => .read fun joint => hg.expression.bind fun e he =>
    .pure ?_
  split
  · exact ⟨trivial, List.forall_mem_singleton.2 he⟩
  · exact ⟨trivial, List.forall_mem_singleton.2 he⟩

theorem forHeader : Makes r (fun h => h.Formed ∧ AllWellFormed r h.parts) g.forHeader := by
  unfold Grammar.forHeader
  exact .read fun iterates => .ite iterationHeader classicHeader

theorem forStatement : Makes r (fun s => s.Jumpable ∧ s.Fits r) g.forStatement := by
  unfold Grammar.forStatement
  refine .read fun keyword => .read fun _ => forHeader.bind fun header hheader => .read fun _ =>
    hg.block.bind fun body hbody => .pure ⟨trivial, trivial, .mk ⟨hheader.1, hbody.formed⟩ ?_⟩
  exact List.forall_mem_append.2 ⟨hheader.2, hbody.parts⟩

/-! ## Blocks -/

/-- Items are kept unless they are types. -/
theorem itemTurn {items : List Stmt} (hitems : ∀ s ∈ items, s.Fits r) {Q : List Stmt → Prop} :
    Makes r (Turn.Is (fun items => ∀ s ∈ items, Stmt.Fits r s) Q) (do
      match ← g.item with
      | some s => return .again (s :: items)
      | none => return .again items) := by
  refine hg.item.bind fun item hitem => ?_
  cases item with
  | some s => exact .pure (List.forall_mem_cons.2 ⟨hitem s rfl, hitems⟩)
  | none => exact .pure hitems

theorem blockBody : Makes r (Block.Fits r) g.blockBody := by
  unfold Grammar.blockBody
  refine .nested (.read fun brace => ?_)
  apply Makes.bind (Q := fun items => ∀ s ∈ items, Stmt.Fits r s)
  · apply Makes.loop (I := fun items => ∀ s ∈ items, Stmt.Fits r s) _ (List.forall_mem_nil _)
    intro items h
    refine .read fun kind => ?_
    split
    · exact .pure fun s hs => h s (List.mem_reverse.1 hs)
    · exact .fail _ _
    · exact itemTurn h
  · exact fun items h => .read fun close => .pure h

/-! ## Switches -/

theorem caseStatements (position : Position) :
    Makes r (fun items => ∀ s ∈ items, Stmt.Fits r s) (g.caseStatements position) := by
  unfold Grammar.caseStatements
  apply Makes.loop (I := fun items => ∀ s ∈ items, Stmt.Fits r s) _ (List.forall_mem_nil _)
  intro items h
  have hdone : ∀ s ∈ items.reverse, s.Fits r := fun s hs => h s (List.mem_reverse.1 hs)
  refine .read fun kind => ?_
  split
  · exact .pure hdone
  · exact .pure hdone
  · exact .pure hdone
  · exact .fail _ _
  · exact itemTurn h

/-- A block of a switch: its label is well formed and its statements may stand in a block. -/
def BlockFits (r : Reading) (b : CaseBlock) : Prop :=
  (∀ e ∈ b.label, e.WellFormed r) ∧ ∀ s ∈ b.statements, s.Fits r

theorem caseBlock (before : List CaseBlock) :
    Makes r (fun b => ∀ x ∈ b, BlockFits r x) (g.caseBlock before) := by
  have hblock : ∀ {label : Option Expr} (p : Position), (∀ e ∈ label, e.WellFormed r) →
      Makes r (fun b => ∀ x ∈ b, BlockFits r x)
        (do return some ⟨p, label, ← g.caseStatements p⟩) := by
    intro label p hlabel
    refine (caseStatements p).bind fun statements hstatements => .pure fun x hx => ?_
    cases hx
    exact ⟨hlabel, hstatements⟩
  unfold Grammar.caseBlock
  refine .read fun t => ?_
  split
  · refine .read fun _ => hg.expression.bind fun label hlabel => .read fun _ => ?_
    have hlabelled := hblock t.position fun e he => Option.some.inj he ▸ hlabel
    split
    · exact .ite (.read fun _ => hlabelled) hlabelled
    · exact hlabelled
  · have hdefault := @hblock none t.position fun e he => absurd he (Option.not_mem_none e)
    refine .read fun _ => .ite ?_ ?_
    · exact .read fun _ => .read fun _ => hdefault
    · exact .read fun _ => hdefault
  · exact .pure fun x hx => absurd hx (Option.not_mem_none x)

theorem caseBlocks : Makes r (fun blocks => ∀ b ∈ blocks, BlockFits r b) g.caseBlocks := by
  unfold Grammar.caseBlocks
  apply Makes.bind (Q := fun blocks => ∀ b ∈ blocks, BlockFits r b)
  · apply Makes.loop (I := fun blocks => ∀ b ∈ blocks, BlockFits r b) _ (List.forall_mem_nil _)
    intro blocks h
    refine (caseBlock blocks).bind fun b hb => ?_
    cases b with
    | some b => exact .pure (List.forall_mem_cons.2 ⟨hb b rfl, h⟩)
    | none => exact .pure fun b hb => h b (List.mem_reverse.1 hb)
  · intro blocks h
    refine .read fun _ => ?_
    split
    · exact .fail _ _
    · exact .pure h

theorem switchStatement : Makes r (fun s => s.Jumpable ∧ s.Fits r) g.switchStatement := by
  unfold Grammar.switchStatement
  refine .read fun keyword => condition.bind fun subject hsubject => .read fun _ =>
    caseBlocks.bind fun blocks hblocks => .pure ⟨trivial, trivial, ?_⟩
  have hkept : ∀ b ∈ blocks.filter (!·.isDefault) ++ (blocks.find? (·.isDefault)).toList,
      BlockFits r b := by
    intro b hb
    obtain hb | hb := List.mem_append.1 hb
    · exact hblocks b (List.mem_filter.1 hb).1
    · exact hblocks b (List.mem_of_find?_eq_some (Option.mem_toList.1 hb))
  refine .mk (fun b hb s hs => ((hkept b hb).2 s hs).inner) ?_
  refine List.forall_mem_cons.2 ⟨hsubject, List.forall_mem_flatMap.2 fun b hb => ?_⟩
  refine List.forall_mem_append.2 ⟨?_, ?_⟩
  · exact Node.allWellFormed_exprs.2 fun e he => (hkept b hb).1 e (Option.mem_toList.1 he)
  · exact Node.allWellFormed_stmts.2 fun s hs => ((hkept b hb).2 s hs).wellFormed

/-! ## Other statements -/

theorem catchClause (keyword : Token) : Makes r (fun c => c.body.Fits r) (g.catchClause keyword) := by
  unfold Grammar.catchClause
  refine .read fun isBound => ?_
  extract_lets behindBinding
  have hbinding : ∀ binding, Makes r (fun c => c.body.Fits r) (behindBinding binding) :=
    fun binding => hg.block.bind fun body hbody => .pure hbody
  exact .ite (.read fun name => .read fun _ => .read fun _ => .read hbinding) (.read hbinding)

theorem tryStatement : Makes r (Stmt.Fits r) g.tryStatement := by
  unfold Grammar.tryStatement
  refine .read fun keyword => hg.block.bind fun body hbody => .read fun caught => ?_
  extract_lets behindHandler
  have hhandler : ∀ handler : Option CatchClause, (∀ c ∈ handler, c.body.Fits r) →
      Makes r (Stmt.Fits r) (behindHandler handler) := by
    intro handler hhandler
    have hstmt : ∀ finalizer : Option Block, (∀ b ∈ finalizer, b.Fits r) →
        (Stmt.tryCatch keyword.position body handler finalizer).Fits r := by
      intro finalizer hfinalizer
      refine ⟨trivial, .mk ⟨hbody.formed, fun c hc => (hhandler c hc).formed,
        fun b hb => (hfinalizer b hb).formed⟩
        (List.forall_mem_append.2 ⟨List.forall_mem_append.2 ⟨hbody.parts, ?_⟩, ?_⟩)⟩
      · exact List.forall_mem_flatMap.2 fun c hc => (hhandler c (Option.mem_toList.1 hc)).parts
      · exact List.forall_mem_flatMap.2 fun b hb => (hfinalizer b (Option.mem_toList.1 hb)).parts
    refine .read fun hasFinalizer => .ite ?_ ?_
    · exact hg.block.some.bind fun finalizer hfinalizer => .pure (hstmt finalizer hfinalizer)
    · apply Makes.bind (Q := fun finalizer => ∀ b ∈ finalizer, Block.Fits r b)
      · exact .pure fun b hb => nomatch hb
      · exact fun finalizer hfinalizer => .pure (hstmt finalizer hfinalizer)
  cases caught with
  | some t => exact (catchClause t).some.bind hhandler
  | none =>
    apply Makes.bind (Q := fun handler => ∀ c ∈ handler, Block.Fits r (CatchClause.body c))
    · exact .pure fun c hc => nomatch hc
    · exact hhandler

theorem labelStatement : Makes r (Stmt.Fits r) g.labelStatement := by
  have hlabel : ∀ {body : Stmt} (p : Position) (name : String), body.Jumpable ∧ body.Fits r →
      (Stmt.label p name body).Fits r :=
    fun _ _ hbody => ⟨trivial, .mk hbody.1 (List.forall_mem_singleton.2 hbody.2.wellFormed)⟩
  unfold Grammar.labelStatement
  refine .read fun name => .read fun _ => .read fun t => ?_
  dsimp only
  split
  · exact forStatement.bind fun body hbody => .pure (hlabel _ _ hbody)
  · exact whileStatement.bind fun body hbody => .pure (hlabel _ _ hbody)
  · exact switchStatement.bind fun body hbody => .pure (hlabel _ _ hbody)
  · apply Makes.bind (Q := fun s => s.Jumpable ∧ s.Fits r)
    · exact .fail _ _
    · exact fun body hbody => .pure (hlabel _ _ hbody)

theorem bareStatement : Makes r (Stmt.Fits r) g.bareStatement := by
  have hvariable : Makes r (Stmt.Fits r) (do return .varDecl (← g.variableStatement)) :=
    variableStatement.bind fun d hd => .pure hd
  have hsimple : Makes r (Stmt.Fits r) g.simpleStatement :=
    simpleStatement.weaken fun s hs => ⟨hs.1.inner, hs.2⟩
  have hleaf : ∀ {s : Stmt}, s.parts = [] → s.Inner → (Node.stmt s).Formed r → s.Fits r :=
    fun hparts hinner hself => ⟨hinner, .mk hself (by rw [hparts]; exact List.forall_mem_nil _)⟩
  unfold Grammar.bareStatement
  refine .read fun t => ?_
  split
  · exact hvariable
  · exact hvariable
  · exact hvariable
  · exact (enumDeclaration false).bind fun d hd => .pure (hleaf rfl hd trivial)
  · exact (functionDeclaration false).bind fun f hf => .pure hf.fits
  · exact ifStatement
  · exact whileStatement.weaken fun s hs => hs.2
  · exact forStatement.weaken fun s hs => hs.2
  · exact switchStatement.weaken fun s hs => hs.2
  · exact tryStatement
  · exact returnStatement
  · refine .read fun _ => hg.value.bind fun value hvalue => .pure ⟨trivial, .mk trivial ?_⟩
    exact List.forall_mem_singleton.2 hvalue
  · exact .read fun _ => .read fun label => .pure (hleaf rfl trivial trivial)
  · exact .read fun _ => .read fun label => .pure (hleaf rfl trivial trivial)
  · exact deleteStatement
  · exact newStatement
  · exact blockBody.bind fun b hb => .pure ⟨trivial, .mk hb.formed hb.parts⟩
  · refine .asked (fun hfile hctx hc hstarts hok => ?_)
      (.read fun isLabel => .ite labelStatement hsimple)
    obtain ⟨f, d, hmethod, hpure⟩ := bind_ok.1 hok
    cases hpure
    exact prototypeMethod hfile hctx hc hstarts hmethod
  · exact hsimple
  · exact .fail _ _
  · exact .failHere _

theorem statementBody : Makes r (Stmt.Fits r) g.statementBody := by
  unfold Grammar.statementBody
  exact bareStatement.bind fun s hs => .read fun _ => .pure hs

theorem blockItem : Makes r (fun item => ∀ s ∈ item, Stmt.Fits r s) g.blockItem := by
  unfold Grammar.blockItem
  refine .read fun isAlias => .ite ?_ (.read fun isInterface => .ite ?_ ?_)
  · exact .read fun _ => .pure fun s hs => nomatch hs
  · exact .read fun _ => .pure fun s hs => nomatch hs
  · exact statementBody.some

end Forms

/-! ## The whole grammar -/

theorem Forms.around (g : Grammar) [g.Progress] [g.Forms r] : g.around.Forms r where
  value := valueExpression
  expression := conditional
  binary := binaryExpression
  unary := unaryExpression
  block := blockBody
  item := blockItem

theorem Forms.empty : Grammar.empty.Forms r where
  value := .read fun _ => .fail _ _
  expression := .read fun _ => .fail _ _
  binary := fun _ => .read fun _ => .fail _ _
  unary := .read fun _ => .fail _ _
  block := .read fun _ => .fail _ _
  item := .read fun _ => .fail _ _

/-- However deep the grammar is entered, everything it makes is well formed. -/
instance forms_ofDepth (n : Nat) : (ofDepth n).Forms r := by
  induction n with
  | zero => exact Forms.empty
  | succ n ih => exact Forms.around (ofDepth n)

end Grammar

end ScriptFront
