import ScriptFront.Production.SourceFile
import ScriptFront.Proofs.Shift.Statements

/-!
# Files in different places

Two token lists that are the same up to places make the same file up to places, or fail for the same reason
at related places. Which attributes belong to a declaration is decided by lines alone.
-/

namespace ScriptFront

open Production
open Rewriting (unplaced)

namespace Shift

/-! ## The relations -/

structure imported (r : Shift) (i i' : Import) : Prop where
  place : r.moves i.position i'.position
  path : i.path = i'.path
  localName : i.localName = i'.localName
  resolvedPath : i.resolvedPath = i'.resolvedPath

structure comment (r : Shift) (c c' : Comment) : Prop where
  place : r.moves c.position c'.position
  multiLine : c.multiLine = c'.multiLine
  text : c.text = c'.text

structure attributeRun (r : Shift) (a b : AttributeRun) : Prop where
  run : List.Forall₂ r.token a.run b.run
  ofFile : a.ofFile = b.ofFile

structure draft (r : Shift) (d d' : Draft) : Prop where
  attributes : r.attributeRun d.attributes d'.attributes
  started : d.started = d'.started
  imports : List.Forall₂ r.imported d.imports d'.imports
  statements : List.Forall₂ r.stmt d.statements d'.statements
  globals : List.Forall₂ r.stmt d.globals d'.globals

structure file (r : Shift) (f f' : File) : Prop where
  path : f.path = f'.path
  imports : List.Forall₂ r.imported f.imports f'.imports
  statements : List.Forall₂ r.stmt f.statements f'.statements
  attributes : f.attributes = f'.attributes
  comments : List.Forall₂ r.comment f.comments f'.comments
  globals : List.Forall₂ r.stmt f.globals f'.globals

variable {r : Shift}

theorem file_positions {f f' : File} (h : r.file f f') :
    List.Forall₂ r.moves f.positions f'.positions := by
  have himports : List.Forall₂ r.moves (f.imports.map (·.position)) (f'.imports.map (·.position)) := by
    simpa [List.forall₂_map_left_iff, List.forall₂_map_right_iff] using
      h.imports.imp fun _ _ h => h.place
  have hcomments : List.Forall₂ r.moves (f.comments.map (·.position)) (f'.comments.map (·.position)) := by
    simpa [List.forall₂_map_left_iff, List.forall₂_map_right_iff] using
      h.comments.imp fun _ _ h => h.place
  unfold File.positions
  exact List.rel_append (List.rel_append (List.rel_append himports (Same.list h.statements).places)
    hcomments) (Same.list h.globals).places

/-! ## Attributes -/

section Attributes

variable {a b : AttributeRun} {p q : Position}

theorem run_texts (h : r.attributeRun a b) : a.texts = b.texts := by
  have hrun : List.Forall₂ (· = ·) (a.run.map Token.text) (b.run.map Token.text) := by
    simpa [List.forall₂_map_left_iff, List.forall₂_map_right_iff] using
      h.run.imp fun _ _ ht => ht.text
  have htexts : a.run.map Token.text = b.run.map Token.text := List.forall₂_eq_eq_eq ▸ hrun
  unfold AttributeRun.texts
  rw [List.map_reverse, List.map_reverse, htexts]

theorem run_flush (h : r.attributeRun a b) : r.attributeRun a.flush b.flush := by
  refine ⟨.nil, ?_⟩
  dsimp only [AttributeRun.flush]
  rw [h.ofFile, run_texts h]

theorem run_isAbove (h : r.attributeRun a b) (hp : r.moves p q) : a.isAbove p = b.isAbove q := by
  obtain ⟨run, ofFile⟩ := a
  obtain ⟨run', ofFile'⟩ := b
  obtain ⟨hrun, -⟩ := h
  cases hrun with
  | nil => rfl
  | cons ht _ =>
    unfold AttributeRun.isAbove Position.isLineAbove
    dsimp only
    rw [r.line ht.place, r.line hp]

theorem run_push (h : r.attributeRun a b) {t u : Token} (ht : r.token t u) : r.attributeRun (a.push t) (b.push u) := by
  unfold AttributeRun.push
  rw [run_isAbove h ht.place]
  split
  · exact ⟨.cons ht h.run, h.ofFile⟩
  · exact ⟨.cons ht (run_flush h).run, (run_flush h).ofFile⟩

theorem run_foldl_push {ts us : List Token} (hts : List.Forall₂ r.token ts us) :
    ∀ {a b : AttributeRun}, r.attributeRun a b → r.attributeRun (ts.foldl .push a) (us.foldl .push b) := by
  induction hts with
  | nil => exact fun h => h
  | cons ht _ ih => exact fun h => ih (run_push h ht)

theorem run_takeFor (h : r.attributeRun a b) (hp : r.moves p q) :
    Both Eq r.attributeRun (a.takeFor p) (b.takeFor q) := by
  unfold AttributeRun.takeFor
  rw [run_isAbove h hp, run_texts h]
  split
  · exact .intro rfl ⟨.nil, h.ofFile⟩
  · exact .intro rfl (run_flush h)

theorem run_settle (h : r.attributeRun a b) (hp : r.moves p q) (started : Bool) :
    r.Alike r.attributeRun (a.settle p started) (b.settle q started) := by
  have hfirst : Option.Rel r.token a.run.getLast? b.run.getLast? := by
    have hreverse := List.rel_reverse h.run
    rw [← List.head?_reverse, ← List.head?_reverse]
    generalize a.run.reverse = ts at hreverse ⊢
    generalize b.run.reverse = us at hreverse ⊢
    cases hreverse with
    | nil => exact .none
    | cons ht _ => exact .some ht
  unfold AttributeRun.settle
  rw [run_isAbove h hp]
  generalize a.run.getLast? = o at hfirst ⊢
  generalize b.run.getLast? = o' at hfirst ⊢
  cases hfirst with
  | none => exact .ok (run_flush h)
  | some ht =>
    dsimp only
    split
    · exact .error _ ht.place
    · exact .ok (run_flush h)

/-- Attributes are no places. -/
theorem stmt_withAttributes {s s' : Stmt} (h : r.stmt s s') (attributes : List String) :
    r.stmt (s.withAttributes attributes) (s'.withAttributes attributes) := by
  have hshape : ∀ s : Stmt, unplaced.stmt (s.withAttributes attributes) =
      (unplaced.stmt s).withAttributes attributes := by
    intro s
    cases s with
    | funcDecl f => cases f; simp [Stmt.withAttributes]
    | classDecl c => cases c; simp [Stmt.withAttributes]
    | _ => simp [Stmt.withAttributes]
  have hplaces : ∀ s : Stmt, Positions.stmt (s.withAttributes attributes) = Positions.stmt s := by
    intro s
    cases s with
    | funcDecl f => cases f; simp [Stmt.withAttributes]
    | classDecl c => cases c; simp [Stmt.withAttributes]
    | _ => simp [Stmt.withAttributes]
  constructor
  · rw [hshape s, hshape s', h.shape]
  · rw [hplaces s, hplaces s']
    exact h.places

end Attributes

instance Uniform.exportsAttributed : r.Uniform (asks Cursor.exportsAttributed) :=
  of_asks fun hc => by simp only [Cursor.exportsAttributed, hc.kind_peekNth]

namespace Matches

variable {g : Grammar} [hg : r.grammar g]

/-! ## Declarations of a file -/

theorem importDeclaration : r.Matches r.imported importDeclaration importDeclaration := by
  unfold Production.importDeclaration
  refine .token fun _ _ _ _ hkeyword => .read fun kind => ?_
  split
  · exact .token fun _ path _ _ _ => .read fun _ => .pure ⟨hkeyword, rfl, rfl, rfl⟩
  · exact .fail _ hkeyword
  · exact .read fun _ => .read fun _ => .token fun _ localName _ _ _ => .read fun _ =>
      .token fun _ path _ _ _ => .read fun _ => .pure ⟨hkeyword, rfl, rfl, rfl⟩

theorem exportDeclaration :
    r.Matches (Option.Rel r.stmt) g.exportDeclaration g.exportDeclaration := by
  have hvariable : r.Matches (Option.Rel r.stmt)
      (do
        let decl ← g.variableStatement
        semicolon
        return some (.varDecl { decl with exported := true }))
      (do
        let decl ← g.variableStatement
        semicolon
        return some (.varDecl { decl with exported := true })) :=
    variableStatement.bind fun h => .read fun _ =>
      .pure (.some (stmt_varDecl (varDecl_exported h true)))
  have hdeclaration : r.Matches (Option.Rel r.stmt) (do return some (← g.functionOrClass true))
      (do return some (← g.functionOrClass true)) :=
    (functionOrClass true).bind fun h => .pure (.some h)
  unfold Grammar.exportDeclaration
  refine .read fun _ => .token fun kind _ p q hplace => ?_
  dsimp only
  split
  · exact (enumDeclaration true).bind fun h => .pure (.some (stmt_enumDecl h))
  · exact hdeclaration
  · exact hdeclaration
  · exact hvariable
  · exact hvariable
  · exact hvariable
  · exact .read fun _ => .pure .none
  · refine .read fun isAlias => .ite (.read fun _ => .pure .none) (.read fun isSpace => .ite ?_ ?_)
    · exact .fail _ hplace
    · exact .failHere _
  · exact .failHere _

theorem globalDeclaration :
    r.Matches (Option.Rel r.stmt) g.globalDeclaration g.globalDeclaration := by
  have htypes : ∀ {p : Production Unit} [r.Uniform p],
      r.Matches (Option.Rel r.stmt) (do p; return none) (do p; return none) :=
    .read fun _ => .pure .none
  unfold Grammar.globalDeclaration
  refine .read fun kind => ?_
  split
  · exact (enumDeclaration false).bind fun h => .pure (.some (stmt_enumDecl h))
  · exact variableStatement.bind fun h => .read fun _ => .pure (.some (stmt_varDecl h))
  · exact .read fun _ => .read fun _ => .read fun _ => htypes
  · exact .read fun _ => .read fun _ => .read fun _ => htypes
  · exact htypes
  · exact htypes
  · exact .read fun isAlias => .ite htypes (.failHere _)

theorem globalBlock : r.Matches (List.Forall₂ r.stmt) g.globalBlock g.globalBlock := by
  unfold Grammar.globalBlock
  refine .read fun _ => .token fun kind text p q hplace => ?_
  extract_lets behindNames behindWords behindWords'
  have hnames : ∀ u, r.Matches (List.Forall₂ r.stmt) (behindNames u) (behindNames u) := by
    intro u
    refine .read fun _ => .read fun _ => .loop (S := List.Forall₂ r.stmt) (fun hdecls => ?_) .nil
    refine .read fun closed => .ite (.read fun _ => .pure (.done (List.rel_reverse hdecls))) ?_
    refine globalDeclaration.bind fun h => ?_
    cases h with
    | some hs => exact .pure (.again (.cons hs hdecls))
    | none => exact .pure (.again hdecls)
  have hwords : ∀ u, r.Matches (List.Forall₂ r.stmt) (behindWords u) (behindWords' u) := by
    intro u
    exact .ite (stops _ hplace) (hnames ())
  exact .ite (stops _ hplace) (hwords ())

/-! ## Constructs of a file -/

theorem settled {d d' : Draft} (h : r.draft d d') {p q : Position} (hp : r.moves p q) :
    r.Matches r.draft (Grammar.settled d p) (Grammar.settled d' q) := by
  intro ctx c c' hc
  have halike := run_settle h.attributes hp d.started
  rw [h.started] at halike
  unfold Grammar.settled
  rw [h.started]
  generalize d.attributes.settle p d'.started = x at halike ⊢
  generalize d'.attributes.settle q d'.started = y at halike ⊢
  cases halike with
  | ok hrun => exact .ok (.intro ⟨hrun, rfl, h.imports, h.statements, h.globals⟩ hc)
  | error cause hplace => exact .error cause hplace

theorem addStatement {d d' : Draft} (h : r.draft d d') {s s' : Stmt} (hs : r.stmt s s') :
    r.draft (d.addStatement s) (d'.addStatement s') :=
  ⟨h.attributes, h.started, h.imports, .cons hs h.statements, h.globals⟩

theorem attributed {d d' : Draft} (h : r.draft d d') {p q : Position} (hp : r.moves p q)
    {declaration : Production (Option Stmt)}
    (hdeclaration : r.Matches (Option.Rel r.stmt) declaration declaration) :
    r.Matches r.draft (Grammar.attributed d p declaration) (Grammar.attributed d' q declaration) := by
  have htaken := run_takeFor h.attributes hp
  unfold Grammar.attributed
  generalize d.attributes.takeFor p = x at htaken ⊢
  generalize d'.attributes.takeFor q = y at htaken ⊢
  obtain ⟨rfl, hrun⟩ := htaken
  have hd : r.draft { d with attributes := _ } { d' with attributes := _ } :=
    ⟨hrun, h.started, h.imports, h.statements, h.globals⟩
  refine hdeclaration.bind fun ho => ?_
  cases ho with
  | some hs => exact .pure (addStatement hd (stmt_withAttributes hs _))
  | none => exact .pure hd

theorem other {d d' : Draft} (h : r.draft d d') {p q : Position} (hp : r.moves p q) :
    r.Matches r.draft (Grammar.construct.other g d p) (Grammar.construct.other g d' q) := by
  unfold Grammar.construct.other
  exact (settled h hp).bind fun hd => statementBody.bind fun hs => .pure (addStatement hd hs)

theorem construct {d d' : Draft} (h : r.draft d d') {t u : Token} (ht : r.token t u) :
    r.Matches r.draft (g.construct d t) (g.construct d' u) := by
  have hplace := ht.place
  have htypes : ∀ {p : Production Unit} [r.Uniform p], r.Matches r.draft
      (do
        let d ← Grammar.settled d t.position
        p
        return d)
      (do
        let d ← Grammar.settled d' u.position
        p
        return d) :=
    (settled h hplace).bind fun hd => .read fun _ => .pure hd
  have hempty : d.statements.isEmpty = d'.statements.isEmpty := by
    have hstatements := h.statements
    generalize d.statements = ss at hstatements ⊢
    generalize d'.statements = ss' at hstatements ⊢
    cases hstatements <;> rfl
  unfold Grammar.construct
  rw [ht.kind]
  split
  · have himport : r.Matches r.draft
        (do
          let d ← Grammar.settled d t.position
          return { d with imports := (← Production.importDeclaration) :: d.imports })
        (do
          let d ← Grammar.settled d' u.position
          return { d with imports := (← Production.importDeclaration) :: d.imports }) :=
      (settled h hplace).bind fun hd => importDeclaration.bind fun hi =>
        .pure ⟨hd.attributes, hd.started, .cons hi hd.imports, hd.statements, hd.globals⟩
    dsimp only
    rw [hempty]
    exact .ite (stops _ hplace) himport
  · exact attributed h hplace (functionOrClass false).some
  · exact attributed h hplace (functionOrClass false).some
  · refine .read fun isAttributed => .ite (attributed h hplace exportDeclaration) ?_
    refine (settled h hplace).bind fun hd => exportDeclaration.bind fun ho => ?_
    cases ho with
    | some hs => exact .pure (addStatement hd hs)
    | none => exact .pure hd
  · exact htypes
  · refine .read fun isAlias => .ite htypes (.read fun isGlobal => .ite ?_ ?_)
    · exact (settled h hplace).bind fun hd => globalBlock.bind fun hglobals =>
        .pure ⟨hd.attributes, hd.started, hd.imports, hd.statements,
          List.rel_append (List.rel_reverse hglobals) hd.globals⟩
    · exact .read fun isSpace => .ite (.fail _ hplace) (other h hplace)
  · exact other h hplace

theorem constructs : r.Matches r.draft g.constructs g.constructs := by
  unfold Grammar.constructs Grammar.constructsOf
  refine .loop (S := r.draft) (fun {d d'} hd => ?_) ⟨⟨.nil, rfl⟩, rfl, .nil, .nil, .nil⟩
  refine (Matches.asks fun hc => hc.attributes).bind fun hattributes => ?_
  have hrun := run_foldl_push hattributes hd.attributes
  have hd : r.draft { d with attributes := _ } { d' with attributes := _ } :=
    ⟨hrun, hd.started, hd.imports, hd.statements, hd.globals⟩
  refine .token fun kind text p q hplace => .ite ?_ ?_
  · exact .pure (.done ⟨run_flush hd.attributes, hd.started, hd.imports, hd.statements, hd.globals⟩)
  · have ht : r.token ⟨kind, text, p⟩ ⟨kind, text, q⟩ := ⟨rfl, rfl, hplace⟩
    refine (construct hd ht).bind fun hd => ?_
    exact .pure (.again ⟨hd.attributes, rfl, hd.imports, hd.statements, hd.globals⟩)

theorem wholeExpression : r.Matches r.expr g.wholeExpression g.wholeExpression := by
  unfold Grammar.wholeExpression
  refine valueExpression.bind fun he => .read fun _ => .read fun ended => .ite ?_ (.pure he)
  exact .read fun _ => .pure he

end Matches

/-! ## Whole inputs -/

/-- What is read of two token lists is read alike. -/
theorem alike_runOn {α : Type} {A : α → α → Prop} {p : Grammar → Production α}
    (hp : ∀ (g : Grammar) [r.grammar g], r.Matches A (p g) (p g)) {tokens tokens' : List Token}
    (hc : r.cursor (Cursor.ofTokens tokens) (Cursor.ofTokens tokens')) (options : Options) :
    r.Alike A (runOn p options tokens) (runOn p options tokens') := by
  unfold Production.runOn
  dsimp only
  have hremaining : (Cursor.ofTokens tokens).remaining = (Cursor.ofTokens tokens').remaining :=
    hc.ahead.length_eq
  rw [hremaining]
  refine (hp (.ofDepth _) _ hc).map ?_
  rintro _ _ ⟨ha, -⟩
  exact ha

theorem alike_ofTokens {tokens tokens' : List Token}
    (hc : r.cursor (Cursor.ofTokens tokens) (Cursor.ofTokens tokens'))
    (hcomments : List.Forall₂ r.comment (Comment.ofTokens tokens) (Comment.ofTokens tokens'))
    (path : String) (options : Options) :
    r.Alike r.file (File.ofTokens tokens path options) (File.ofTokens tokens' path options) := by
  have halike := alike_runOn (fun g => Matches.constructs (g := g)) hc options
  unfold File.ofTokens
  generalize runOn Grammar.constructs options tokens = x at halike ⊢
  generalize runOn Grammar.constructs options tokens' = y at halike ⊢
  cases halike with
  | error cause hplace => exact .error cause hplace
  | ok hd =>
    refine .ok ⟨rfl, List.rel_reverse hd.imports, List.rel_reverse hd.statements, ?_, hcomments,
      List.rel_reverse hd.globals⟩
    exact hd.attributes.ofFile

end Shift

end ScriptFront
