import ScriptFront.Proofs.Cursor.Unread
import ScriptFront.Proofs.Production.Accepted
import ScriptFront.Proofs.Production.FilesRead
import ScriptFront.Proofs.WellFormed.Statements

/-!
# Well-formed files

Classes and exported declarations are made for a whole file, and only there does a construct get
attributes. Every statement and every global declaration of a file that is read is well formed.
-/

set_option linter.unusedSectionVars false

namespace ScriptFront

open Node (AllWellFormed)

variable {r : Reading}

/-! ## Statements of a file -/

namespace Stmt

variable {s : Stmt}

/-- A statement of a file, which is anything but a tail call. -/
def Stands (r : Reading) (s : Stmt) : Prop := (∀ c, s ≠ .tailCall c) ∧ s.WellFormed r

/-- A global declaration, which is an enum or a constant. -/
def IsGlobal (s : Stmt) : Prop :=
  (∃ d, s = .enumDecl d ∧ d.exported = false) ∨ s.Declares true

theorem Fits.stands (h : s.Fits r) : s.Stands r := by
  refine ⟨?_, h.wellFormed⟩
  rintro c rfl
  exact h.inner

/-- Attributes are no part of what is expected of a statement of a file. -/
theorem Stands.withAttributes (h : s.Stands r) (attributes : List String) :
    (s.withAttributes attributes).Stands r := by
  obtain ⟨hcall, hwell⟩ := h
  have hself := hwell.self
  have hparts := hwell.parts
  cases s with
  | funcDecl f =>
    refine ⟨by simp [Stmt.withAttributes], .mk ?_ hparts⟩
    exact ⟨hself.receiver, hself.before, hself.last⟩
  | classDecl c => exact ⟨by simp [Stmt.withAttributes], .mk hself hparts⟩
  | _ => exact ⟨hcall, hwell⟩

end Stmt

namespace Grammar

open Production

/-- A member of a class: its variable or function is well formed, a function is a plain one. -/
def MemberFits (r : Reading) : ClassMember → Prop
  | .field d => (Stmt.varDecl d).WellFormed r
  | .method f | .getter f | .setter f => ∃ exported, PlainFunction r exported f

namespace Forms

variable {g : Grammar} [g.Progress] [hg : g.Forms r]

/-! ## Classes -/

theorem method (exported : Bool) : Makes r (PlainFunction r exported) (g.method exported) := by
  unfold Grammar.method
  exact .read fun name => namedFunction _ _ _

theorem field (exported : Bool) : Makes r (fun d => (Stmt.varDecl d).WellFormed r) (g.field exported) := by
  unfold Grammar.field
  refine (variableDeclaration false).bind fun field hfield => .read fun _ => .pure ?_
  exact .mk trivial hfield.2.wellFormed.parts

theorem bareMember (exported : Bool) : Makes r (MemberFits r) (g.bareMember exported) := by
  unfold Grammar.bareMember
  refine .read fun isGetter => .ite ?_ (.read fun isSetter => .ite ?_ (.read fun isMethod => .ite ?_ ?_))
  · exact .read fun _ => (method exported).bind fun f hf => .pure ⟨exported, hf⟩
  · exact .read fun _ => (method exported).bind fun f hf => .pure ⟨exported, hf⟩
  · exact (method exported).bind fun f hf => .pure ⟨exported, hf⟩
  · exact (field exported).bind fun d hd => .pure hd

theorem classMember : Makes r (MemberFits r) g.classMember := by
  unfold Grammar.classMember
  exact .read fun isPrivate => .ite (.read fun _ => bareMember false) (bareMember true)

theorem classMembers : Makes r (fun members => ∀ m ∈ members, MemberFits r m) g.classMembers := by
  unfold Grammar.classMembers
  apply Makes.loop (I := fun members => ∀ m ∈ members, MemberFits r m) _ (List.forall_mem_nil _)
  intro members h
  refine .read fun t => ?_
  split
  · exact .read fun _ => .pure fun m hm => h m (List.mem_reverse.1 hm)
  · exact .fail _ _
  · exact .read fun _ => .pure h
  · exact classMember.bind fun m hm => .pure (List.forall_mem_cons.2 ⟨hm, h⟩)
  · exact classMember.bind fun m hm => .pure (List.forall_mem_cons.2 ⟨hm, h⟩)
  · exact .failHere _

/-- The members of one kind that a class has come from what was read for it. -/
theorem members_fit {α : Type} {kind : ClassMember → Option α} {P : α → Prop}
    (h : ∀ m a, kind m = some a → MemberFits r m → P a) {members : List ClassMember}
    (hmembers : ∀ m ∈ members, MemberFits r m) : ∀ a ∈ members.filterMap kind, P a := by
  intro a ha
  obtain ⟨m, hm, hkind⟩ := List.mem_filterMap.1 ha
  exact h m a hkind (hmembers m hm)

theorem classDeclaration (exported : Bool) :
    Makes r (fun c => (Stmt.classDecl c).WellFormed r) (g.classDeclaration exported) := by
  unfold Grammar.classDeclaration
  refine .read fun keyword => .read fun name => .read fun _ => .read fun isHeir => ?_
  extract_lets body
  have hbody : ∀ u, Makes r (fun c => (Stmt.classDecl c).WellFormed r) (body u) := by
    intro u
    refine .read fun _ => classMembers.bind fun members hmembers => .pure ?_
    have hfields : ∀ d ∈ members.filterMap ClassMember.field?, (Stmt.varDecl d).WellFormed r :=
      members_fit (by rintro (_ | _ | _ | _) a ha hm <;> cases ha; exact hm) hmembers
    have hmethods : ∀ f ∈ members.filterMap ClassMember.method?, ∃ e, PlainFunction r e f :=
      members_fit (by rintro (_ | _ | _ | _) a ha hm <;> cases ha; exact hm) hmembers
    have hgetters : ∀ f ∈ members.filterMap ClassMember.getter?, ∃ e, PlainFunction r e f :=
      members_fit (by rintro (_ | _ | _ | _) a ha hm <;> cases ha; exact hm) hmembers
    have hsetters : ∀ f ∈ members.filterMap ClassMember.setter?, ∃ e, PlainFunction r e f :=
      members_fit (by rintro (_ | _ | _ | _) a ha hm <;> cases ha; exact hm) hmembers
    have hfunctions := List.forall_mem_append.2 ⟨List.forall_mem_append.2 ⟨hmethods, hgetters⟩, hsetters⟩
    have hwell : ∀ {fs : List FuncDecl}, (∀ f ∈ fs, ∃ e, PlainFunction r e f) →
        AllWellFormed r (fs.map fun f => .stmt (.funcDecl f)) :=
      fun hfs => List.forall_mem_map.2 fun f hf => (hfs f hf).elim fun _ h => h.wellFormed
    refine .mk ?_ ?_
    · intro f hf
      obtain ⟨_, hplain⟩ := hfunctions f hf
      exact ⟨hplain.receiver, hplain.attributes⟩
    · refine List.forall_mem_append.2 ⟨List.forall_mem_append.2 ⟨List.forall_mem_append.2
        ⟨List.forall_mem_map.2 hfields, hwell hmethods⟩, hwell hgetters⟩, hwell hsetters⟩
  exact .ite (.read hbody) (hbody ())

theorem functionOrClass (exported : Bool) : Makes r (Stmt.Stands r) (g.functionOrClass exported) := by
  unfold Grammar.functionOrClass
  refine .read fun isClass => .ite ?_ ?_
  · exact (classDeclaration exported).bind fun c hc => .pure ⟨by simp, hc⟩
  · exact (functionDeclaration exported).bind fun f hf => .pure ⟨by simp, hf.wellFormed⟩

/-! ## Declarations of a file -/

theorem exportDeclaration :
    Makes r (fun item => ∀ s ∈ item, Stmt.Stands r s) g.exportDeclaration := by
  have hnone : Makes r (fun item => ∀ s ∈ item, Stmt.Stands r s) (Pure.pure none) :=
    .pure fun s hs => nomatch hs
  have hvariable : Makes r (fun item => ∀ s ∈ item, Stmt.Stands r s) (do
      let decl ← g.variableStatement
      semicolon
      return some (.varDecl { decl with exported := true })) := by
    refine variableStatement.bind fun d hd => .read fun _ => .pure fun s hs => ?_
    cases hs
    exact ⟨by simp, .mk trivial hd.wellFormed.parts⟩
  unfold Grammar.exportDeclaration
  refine .read fun _ => .read fun t => ?_
  split
  · refine .read fun d => .pure fun s hs => ?_
    cases hs
    exact ⟨by simp, .mk trivial (List.forall_mem_nil _)⟩
  · exact (functionOrClass true).some
  · exact (functionOrClass true).some
  · exact hvariable
  · exact hvariable
  · exact hvariable
  · exact .read fun _ => hnone
  · refine .read fun isAlias => .ite (.read fun _ => hnone) (.read fun isSpace => .ite ?_ ?_)
    · exact .fail _ _
    · exact .failHere _
  · exact .failHere _

/-- Only enums and constants are kept of what is declared globally. -/
theorem globalDeclaration :
    Makes r (fun item => ∀ s ∈ item, Stmt.IsGlobal s ∧ s.WellFormed r) g.globalDeclaration := by
  have hnone : Makes r (fun item => ∀ s ∈ item, Stmt.IsGlobal s ∧ s.WellFormed r) (Pure.pure none) :=
    .pure fun s hs => nomatch hs
  refine .intro fun {ctx c item d} hfile hctx hc hok => ?_
  unfold Grammar.globalDeclaration at hok
  rw [run_peekKind_bind] at hok
  generalize hkind : c.peekKind = kind at hok
  split at hok
  · have henum : Makes r (fun item => ∀ s ∈ item, Stmt.IsGlobal s ∧ s.WellFormed r) (do
        return some (.enumDecl (← Production.enumDeclaration false))) := by
      refine (enumDeclaration false).bind fun d hd => .pure fun s hs => ?_
      cases hs
      exact ⟨.inl ⟨d, rfl, hd⟩, .mk trivial (List.forall_mem_nil _)⟩
    exact henum.holds hfile hctx hc hok
  · obtain ⟨decl, c₁, hdecl, hok⟩ := bind_ok.1 hok
    have hconst := variableStatement_const hfile hctx hc hkind hdecl
    obtain ⟨hfits, hc₁⟩ := variableStatement.holds hfile hctx hc hdecl
    have hkept : Makes r (fun item => ∀ s ∈ item, Stmt.IsGlobal s ∧ s.WellFormed r) (do
        semicolon
        return some (.varDecl decl)) := by
      refine .read fun _ => .pure fun s hs => ?_
      cases hs
      exact ⟨.inr ⟨decl, rfl, hconst, hfits.inner⟩, hfits.wellFormed⟩
    exact hkept.holds hfile hctx hc₁ hok
  · exact Makes.holds (.read fun _ => .read fun _ => .read fun _ => .read fun _ => hnone) hfile hctx hc hok
  · exact Makes.holds (.read fun _ => .read fun _ => .read fun _ => .read fun _ => hnone) hfile hctx hc hok
  · exact Makes.holds (.read fun _ => hnone) hfile hctx hc hok
  · exact Makes.holds (.read fun _ => hnone) hfile hctx hc hok
  · exact Makes.holds (.read fun isAlias => .ite (.read fun _ => hnone) (.failHere _)) hfile hctx hc hok

theorem globalBlock :
    Makes r (fun decls => ∀ s ∈ decls, Stmt.IsGlobal s ∧ s.WellFormed r) g.globalBlock := by
  unfold Grammar.globalBlock
  refine .read fun _ => .read fun t => ?_
  extract_lets behindNames behindWords
  have hnames : ∀ u, Makes r (fun decls => ∀ s ∈ decls, Stmt.IsGlobal s ∧ s.WellFormed r)
      (behindNames u) := by
    intro u
    refine .read fun _ => .read fun _ => ?_
    apply Makes.loop (I := fun decls => ∀ s ∈ decls, Stmt.IsGlobal s ∧ s.WellFormed r) _
      (List.forall_mem_nil _)
    intro decls h
    refine .read fun closed => .ite ?_ ?_
    · exact .read fun _ => .pure fun s hs => h s (List.mem_reverse.1 hs)
    · refine globalDeclaration.bind fun item hitem => ?_
      cases item with
      | some s => exact .pure (List.forall_mem_cons.2 ⟨hitem s rfl, h⟩)
      | none => exact .pure h
  have hwords : ∀ u, Makes r (fun decls => ∀ s ∈ decls, Stmt.IsGlobal s ∧ s.WellFormed r)
      (behindWords u) :=
    fun _ => .ite (.read hnames) (hnames ())
  exact .ite (.read hwords) (hwords ())

end Forms

end Grammar

/-! ## Constructs of a file -/

/-- Whether a file is well formed as far as it has been read. -/
structure Draft.Fits (r : Reading) (d : Draft) : Prop where
  statements : ∀ s ∈ d.statements, s.Stands r
  globals : ∀ s ∈ d.globals, s.IsGlobal ∧ s.WellFormed r

namespace Draft.Fits

variable {d : Draft}

theorem addStatement (h : d.Fits r) {s : Stmt} (hs : s.Stands r) : (d.addStatement s).Fits r :=
  ⟨List.forall_mem_cons.2 ⟨hs, h.statements⟩, h.globals⟩

theorem addGlobals (h : d.Fits r) {globals : List Stmt}
    (hglobals : ∀ s ∈ globals, s.IsGlobal ∧ s.WellFormed r) :
    Draft.Fits r { d with globals := globals.reverse ++ d.globals } := by
  refine ⟨h.statements, List.forall_mem_append.2 ⟨fun s hs => ?_, h.globals⟩⟩
  exact hglobals s (List.mem_reverse.1 hs)

end Draft.Fits

namespace Grammar.Forms

open Production

variable {g : Grammar} [g.Progress] [hg : g.Forms r]

theorem settled {d : Draft} (h : d.Fits r) (p : Position) :
    Makes r (Draft.Fits r) (settled d p) := by
  refine .intro fun _ _ hc hok => ?_
  unfold Grammar.settled at hok
  split at hok
  · cases hok
    exact ⟨⟨h.statements, h.globals⟩, hc⟩
  · cases hok

theorem attributed {d : Draft} (h : d.Fits r) {p : Position} {declaration : Production (Option Stmt)}
    (hdecl : Makes r (fun item => ∀ s ∈ item, Stmt.Stands r s) declaration) :
    Makes r (Draft.Fits r) (attributed d p declaration) := by
  unfold Grammar.attributed
  refine hdecl.bind fun item hitem => ?_
  have hrun : Draft.Fits r { d with attributes := (d.attributes.takeFor p).2 } :=
    ⟨h.statements, h.globals⟩
  cases item with
  | some s => exact .pure (hrun.addStatement ((hitem s rfl).withAttributes _))
  | none => exact .pure hrun

theorem other {d : Draft} (h : d.Fits r) (p : Position) :
    Makes r (Draft.Fits r) (construct.other g d p) := by
  unfold construct.other
  exact (settled h p).bind fun d hd => statementBody.bind fun s hs => .pure (hd.addStatement hs.stands)

theorem construct {d : Draft} (h : d.Fits r) (t : Token) :
    Makes r (Draft.Fits r) (g.construct d t) := by
  have htypes : ∀ {p : Production Unit} [Advances p], Makes r (Draft.Fits r) (do
      let d ← Grammar.settled d t.position
      p
      return d) :=
    (settled h t.position).bind fun d hd => .read fun _ => .pure hd
  have himport : Makes r (Draft.Fits r) (do
      let d ← Grammar.settled d t.position
      return { d with imports := (← Production.importDeclaration) :: d.imports }) :=
    (settled h t.position).bind fun d hd => .read fun i => .pure ⟨hd.statements, hd.globals⟩
  unfold Grammar.construct
  split
  · exact .ite (.read fun _ => himport) himport
  · exact attributed h (functionOrClass false).some
  · exact attributed h (functionOrClass false).some
  · refine .read fun isAttributed => .ite (attributed h exportDeclaration) ?_
    refine (settled h t.position).bind fun d hd => exportDeclaration.bind fun item hitem => ?_
    cases item with
    | some s => exact .pure (hd.addStatement (hitem s rfl))
    | none => exact .pure hd
  · exact htypes
  · refine .read fun isAlias => .ite htypes (.read fun isGlobal => .ite ?_ ?_)
    · exact (settled h t.position).bind fun d hd => globalBlock.bind fun globals hglobals =>
        .pure (hd.addGlobals hglobals)
    · exact .read fun isSpace => .ite (.fail _ _) (other (g := g) h t.position)
  · exact other (g := g) h t.position

theorem constructs : Makes r (Draft.Fits r) g.constructs := by
  unfold Grammar.constructs constructsOf
  apply Makes.loop (I := Draft.Fits r)
  · intro d h
    refine .read fun attributes => .read fun t => .ite (.pure ⟨h.statements, h.globals⟩) ?_
    have hpushed : Draft.Fits r { d with attributes := attributes.foldl .push d.attributes } :=
      ⟨h.statements, h.globals⟩
    exact (construct (g := g) hpushed t).bind fun d hd => .pure ⟨hd.statements, hd.globals⟩
  · exact ⟨List.forall_mem_nil _, List.forall_mem_nil _⟩

end Grammar.Forms

/-! ## Whole files -/

/-- How a token list is read. -/
def Reading.ofTokens (tokens : List Token) (options : Options) : Reading :=
  ⟨.ofTokens tokens, options.optimize⟩

/-- Every file that is read is well formed, whatever its tokens. At any depth the parts of a node are of the
kind that is expected there; a class is a whole statement of the file and a tail call never is; nothing
but enums and constants is declared globally. -/
theorem File.ofTokens_wellFormed {tokens : List Token} {path : String} {options : Options} {file : File}
    (h : File.ofTokens tokens path options = .ok file) :
    (∀ s ∈ file.statements, (∀ c, s ≠ .tailCall c) ∧ s.WellFormed (.ofTokens tokens options) ∧
      ∀ c, (Node.stmt s).Holds (.stmt (.classDecl c)) → s = .classDecl c) ∧
    ∀ s ∈ file.globals, s.IsGlobal ∧ s.WellFormed (.ofTokens tokens options) := by
  obtain ⟨d, hrun, rfl⟩ := File.ofTokens_ok h
  obtain ⟨c, hconstructs⟩ := Production.runOn_ok hrun
  have hclosed : (Reading.ofTokens tokens options).file.Closed := (Cursor.ofTokens_shows tokens).closed
  obtain ⟨hfits, -⟩ := Grammar.Forms.constructs.holds hclosed rfl (.refl _) hconstructs
  refine ⟨fun s hs => ?_, fun s hs => hfits.globals s (List.mem_reverse.1 hs)⟩
  obtain ⟨hcall, hwell⟩ := hfits.statements s (List.mem_reverse.1 hs)
  refine ⟨hcall, hwell, fun c hc => ?_⟩
  cases hwell.eq_of_classDecl hc
  rfl

/-- The function `function f() { f() }`, which marks its tail call: it is the only statement of a well-formed
file. -/
theorem File.ofTokens_wellFormed_tailCall :
    let tokens : List Token :=
      [⟨.keyword .functionWord, "function", ⟨1, 1⟩⟩, ⟨.identifier, "f", ⟨1, 10⟩⟩,
        ⟨.mark .openParen, "(", ⟨1, 11⟩⟩, ⟨.mark .closeParen, ")", ⟨1, 12⟩⟩,
        ⟨.mark .openBrace, "\x7b", ⟨1, 14⟩⟩, ⟨.identifier, "f", ⟨1, 16⟩⟩,
        ⟨.mark .openParen, "(", ⟨1, 17⟩⟩, ⟨.mark .closeParen, ")", ⟨1, 18⟩⟩,
        ⟨.mark .closeBrace, "\x7d", ⟨1, 20⟩⟩, .endOfFile ⟨1, 21⟩]
    let call : Call := ⟨.identifier ⟨⟨1, 16⟩, "f"⟩, ⟨1, 17⟩, [], false, false, true⟩
    let f : FuncDecl := ⟨⟨1, 1⟩, "f", ⟨⟨1, 11⟩, [], false⟩, false, [],
      ⟨⟨1, 14⟩, [.tailCall call], ⟨1, 20⟩⟩, none⟩
    File.ofTokens tokens "main.ts" ⟨true⟩ = .ok ⟨"main.ts", [], [.funcDecl f], [], [], []⟩ ∧
      (Stmt.funcDecl f).WellFormed (.ofTokens tokens ⟨true⟩) := by
  intro tokens call f
  have hread : File.ofTokens tokens "main.ts" ⟨true⟩ =
      .ok ⟨"main.ts", [], [.funcDecl f], [], [], []⟩ := by rfl
  exact ⟨hread, ((File.ofTokens_wellFormed hread).1 _ (List.mem_singleton_self _)).2.1⟩

end ScriptFront
