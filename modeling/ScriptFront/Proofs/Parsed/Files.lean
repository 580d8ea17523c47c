import ScriptFront.Proofs.Cursor.Unread
import ScriptFront.Proofs.Parsed.Statements
import ScriptFront.Proofs.Production.FilesRead

/-!
# Parsed files

The statements of a file are made as the grammar makes them, and some of them have been given attributes
then. With that every switch of an accepted file keeps its rules, at any depth.
-/

set_option linter.unusedSectionVars false

namespace ScriptFront

open Node (AllParsed)

variable {file : Cursor} {A : List String → Prop}

/-! ## Statements with attributes -/

namespace Stmt

def isSwitch : Stmt → Bool
  | switch .. => true
  | _ => false

theorem parts_withAttributes (attributes : List String) (s : Stmt) :
    (s.withAttributes attributes).parts = s.parts := by
  cases s <;> rfl

/-- A statement of a file: its parts have no attributes, but it may have some itself, as `A` says. -/
structure Placed (file : Cursor) (A : List String → Prop) (s : Stmt) : Prop where
  parts : AllParsed file s.parts
  self : (Node.stmt s).Proper file ∨
    (∃ f, s = .funcDecl f ∧ A f.attributes ∧ f.parameters.IsWritten file) ∨
    ∃ c, s = .classDecl c ∧ A c.attributes

variable {s : Stmt}

theorem Parsed.placed (h : s.Parsed file) : s.Placed file A := ⟨Node.Parsed.parts h, .inl h.self⟩

theorem Parsed.placed_withAttributes {attributes : List String} (h : s.Parsed file)
    (hA : A attributes) : (s.withAttributes attributes).Placed file A := by
  refine ⟨?_, ?_⟩
  · rw [parts_withAttributes]
    exact Node.Parsed.parts h
  · have hself := h.self
    cases s with
    | funcDecl f => exact .inr (.inl ⟨_, rfl, hA, hself.2⟩)
    | classDecl c => exact .inr (.inr ⟨_, rfl, hA⟩)
    | _ => exact .inl hself

/-- A statement of a file without attributes is made as any other. -/
theorem Placed.parsed (h : s.Placed file (· = [])) : s.Parsed file := by
  refine .mk ?_ h.parts
  obtain hself | ⟨f, rfl, hf⟩ | ⟨c, rfl, hc⟩ := h.self
  · exact hself
  · exact hf
  · exact hc

/-- Any node in a statement of a file is made as the grammar makes it, or is a function or a class that
may have been given attributes. -/
theorem Placed.node (h : s.Placed file A) {n : Node} (hn : (Node.stmt s).Holds n) :
    n.Proper file ∨ (∃ f, n = .stmt (.funcDecl f) ∧ f.parameters.IsWritten file) ∨
      ∃ c, n = .stmt (.classDecl c) := by
  obtain rfl | ⟨part, hpart, hinside⟩ := Node.holds_iff.1 hn
  · obtain hproper | ⟨f, rfl, -, hf⟩ | ⟨c, rfl, -⟩ := h.self
    · exact .inl hproper
    · exact .inr (.inl ⟨f, rfl, hf⟩)
    · exact .inr (.inr ⟨c, rfl⟩)
  · exact .inl (h.parts part hpart n hinside)

/-- Every switch in a statement of a file keeps its rules. -/
theorem Placed.switches (h : s.Placed file A) {p : Position} {subject : Expr}
    {cases : List CaseBlock} {otherwise : Option CaseBlock}
    (hholds : (Node.stmt s).Holds (.stmt (.switch p subject cases otherwise))) :
    ∃ blocks, SwitchIn file cases otherwise blocks := by
  obtain hproper | ⟨f, hf, -⟩ | ⟨c, hc⟩ := h.node hholds
  · exact hproper
  · cases hf
  · cases hc

end Stmt

/-- Whether all statements of a draft are as the grammar makes them. -/
def Draft.Placed (file : Cursor) (A : List String → Prop) (d : Draft) : Prop :=
  ∀ s ∈ d.statements ++ d.globals, s.Placed file A

namespace Draft

variable {d : Draft}

theorem Placed.addStatement (h : d.Placed file A) {s : Stmt} (hs : s.Placed file A) :
    (d.addStatement s).Placed file A :=
  List.forall_mem_cons.2 ⟨hs, h⟩

theorem Placed.addGlobals (h : d.Placed file A) {globals : List Stmt}
    (hglobals : ∀ s ∈ globals, s.Parsed file) :
    Placed file A { d with globals := globals.reverse ++ d.globals } := by
  obtain ⟨hstatements, hold⟩ := List.forall_mem_append.1 h
  refine List.forall_mem_append.2 ⟨hstatements, List.forall_mem_append.2 ⟨fun s hs => ?_, hold⟩⟩
  exact (hglobals s (List.mem_reverse.1 hs)).placed

end Draft

namespace Grammar.Parses

open Production

variable {g : Grammar} [g.Progress] [hg : g.Parses file]

/-! ## Declarations of a file -/

theorem exportDeclaration :
    Answers file (fun item => ∀ s ∈ item, Stmt.Parsed file s) g.exportDeclaration := by
  have hnone : Answers file (fun item => ∀ s ∈ item, Stmt.Parsed file s) (Pure.pure none) :=
    .pure fun s hs => nomatch hs
  have hvariable : Answers file (fun item => ∀ s ∈ item, Stmt.Parsed file s) (do
      let decl ← g.variableStatement
      semicolon
      return some (.varDecl { decl with exported := true })) := by
    refine variableStatement.bind fun d hd => .read fun _ => .pure fun s hs => ?_
    cases hs
    exact .mk trivial (Node.Parsed.parts hd)
  unfold Grammar.exportDeclaration
  refine .read fun _ => .read fun t => ?_
  split
  · refine (enumDeclaration true).bind fun d hd => .pure fun s hs => ?_
    cases hs
    exact hd
  · exact (functionOrClass true).some
  · exact (functionOrClass true).some
  · exact hvariable
  · exact hvariable
  · exact hvariable
  · exact .read fun _ => hnone
  · refine .read fun isAlias => .ite (.read fun _ => hnone) (.read fun isSpace => .ite ?_ ?_)
    · exact .fail _ _
    · exact .failHere _
  · exact .failHere _

theorem globalDeclaration :
    Answers file (fun item => ∀ s ∈ item, Stmt.Parsed file s) g.globalDeclaration := by
  have hnone : Answers file (fun item => ∀ s ∈ item, Stmt.Parsed file s) (Pure.pure none) :=
    .pure fun s hs => nomatch hs
  unfold Grammar.globalDeclaration
  refine .read fun kind => ?_
  split
  · refine (enumDeclaration false).bind fun d hd => .pure fun s hs => ?_
    cases hs
    exact hd
  · refine variableStatement.bind fun d hd => .read fun _ => .pure fun s hs => ?_
    cases hs
    exact hd
  · exact .read fun _ => .read fun _ => .read fun _ => .read fun _ => hnone
  · exact .read fun _ => .read fun _ => .read fun _ => .read fun _ => hnone
  · exact .read fun _ => hnone
  · exact .read fun _ => hnone
  · exact .read fun isAlias => .ite (.read fun _ => hnone) (.failHere _)

theorem globalBlock : Answers file (fun decls => ∀ s ∈ decls, Stmt.Parsed file s) g.globalBlock := by
  unfold Grammar.globalBlock
  refine .read fun _ => .read fun t => ?_
  extract_lets behindNames behindWords
  have hnames : ∀ u, Answers file (fun decls => ∀ s ∈ decls, Stmt.Parsed file s) (behindNames u) := by
    intro u
    refine .read fun _ => .read fun _ => .loop (I := fun decls => ∀ s ∈ decls, Stmt.Parsed file s)
      (Q := fun decls => ∀ s ∈ decls, Stmt.Parsed file s) (fun decls h => ?_) (List.forall_mem_nil _)
    refine .read fun closed => .ite (.read fun _ => .pure ?_) ?_
    · exact fun s hs => h s (List.mem_reverse.1 hs)
    · refine globalDeclaration.bind fun item hitem => ?_
      cases item with
      | some s => exact .pure (List.forall_mem_cons.2 ⟨hitem s rfl, h⟩)
      | none => exact .pure h
  have hwords : ∀ u, Answers file (fun decls => ∀ s ∈ decls, Stmt.Parsed file s) (behindWords u) :=
    fun _ => .ite (.read hnames) (hnames ())
  exact .ite (.read hwords) (hwords ())

/-! ## Constructs of a file -/

theorem settled {d : Draft} (h : d.Placed file A) (p : Position) :
    Answers file (Draft.Placed file A) (settled d p) := by
  refine ⟨fun _ _ _ _ _ hc hok => ?_⟩
  unfold Grammar.settled at hok
  split at hok
  · cases hok
    exact ⟨h, hc⟩
  · cases hok

theorem attributed {d : Draft} (h : d.Placed file A) {p : Position} (hA : A (d.attributes.takeFor p).1)
    {declaration : Production (Option Stmt)}
    (hdecl : Answers file (fun item => ∀ s ∈ item, Stmt.Parsed file s) declaration) :
    Answers file (Draft.Placed file A) (attributed d p declaration) := by
  unfold Grammar.attributed
  refine hdecl.bind fun item hitem => ?_
  cases item with
  | some s => exact .pure (Draft.Placed.addStatement h ((hitem s rfl).placed_withAttributes hA))
  | none => exact .pure h

theorem other {d : Draft} (h : d.Placed file A) (p : Position) :
    Answers file (Draft.Placed file A) (construct.other g d p) := by
  unfold construct.other
  exact (settled h p).bind fun d hd => statementBody.bind fun s hs => .pure (hd.addStatement hs.placed)

theorem construct {d : Draft} (h : d.Placed file A) {t : Token}
    (hA : A (d.attributes.takeFor t.position).1) :
    Answers file (Draft.Placed file A) (g.construct d t) := by
  have htypes : ∀ {p : Production Unit} [Advances p], Answers file (Draft.Placed file A) (do
      let d ← Grammar.settled d t.position
      p
      return d) :=
    (settled h t.position).bind fun d hd => .read fun _ => .pure hd
  have himport : Answers file (Draft.Placed file A) (do
      let d ← Grammar.settled d t.position
      return { d with imports := (← Production.importDeclaration) :: d.imports }) :=
    (settled h t.position).bind fun d hd => .read fun i => .pure hd
  unfold Grammar.construct
  split
  · exact .ite (.read fun _ => himport) himport
  · exact attributed h hA (functionOrClass false).some
  · exact attributed h hA (functionOrClass false).some
  · refine .read fun isAttributed => .ite (attributed h hA exportDeclaration) ?_
    refine (settled h t.position).bind fun d hd => exportDeclaration.bind fun item hitem => ?_
    cases item with
    | some s => exact .pure (hd.addStatement (hitem s rfl).placed)
    | none => exact .pure hd
  · exact htypes
  · refine .read fun isAlias => .ite htypes (.read fun isGlobal => .ite ?_ ?_)
    · exact (settled h t.position).bind fun d hd => globalBlock.bind fun globals hglobals =>
        .pure (hd.addGlobals hglobals)
    · exact .read fun isSpace => .ite (.fail _ _) (other (g := g) h t.position)
  · exact other (g := g) h t.position

theorem constructs : Answers file (Draft.Placed file fun _ => True) g.constructs := by
  unfold Grammar.constructs constructsOf
  refine .loop (I := Draft.Placed file fun _ => True) (fun d h => ?_) (List.forall_mem_nil _)
  refine .read fun attributes => .read fun t => .ite (.pure h) ?_
  have hpushed : Draft.Placed file (fun _ => True)
      { d with attributes := attributes.foldl .push d.attributes } := h
  exact (construct (g := g) hpushed trivial).bind fun d hd => .pure hd

end Grammar.Parses

/-! ## Whole files -/

/-- A draft that comes out of a whole token list, and the places that its nodes stand at. -/
theorem Production.runOn_constructs {options : Options} {tokens : List Token} {d : Draft}
    (h : runOn Grammar.constructs options tokens = .ok d) :
    d.Placed (Cursor.ofTokens tokens) fun _ => True := by
  unfold runOn at h
  dsimp only at h
  cases hrun : (Grammar.ofDepth ((Cursor.ofTokens tokens).remaining + 1)).constructs
      ⟨options.optimize, 0⟩ (Cursor.ofTokens tokens) with
  | error e =>
    rw [hrun] at h
    cases h
  | ok r =>
    rw [hrun] at h
    cases h
    exact (Grammar.Parses.constructs.holds (Cursor.ofTokens_shows tokens).closed (.refl _) hrun).1

theorem Source.length_prepare_le (source : String) : (prepare source).length ≤ source.length := by
  have hmarker : ∀ cs : List Char, (beforeMarker cs).length ≤ cs.length := by
    intro cs
    induction cs with
    | nil => exact Nat.le_refl 0
    | cons c cs ih =>
      unfold beforeMarker
      split
      · exact Nat.zero_le _
      · exact Nat.succ_le_succ ih
  unfold prepare
  rw [String.length_ofList, ← String.length_toList]
  exact Nat.le_trans (List.length_filter_le _ _) (hmarker _)

/-- Every switch of an accepted file, at any depth and with tail calls marked or not, comes from blocks
that stand in the source one behind the other and keep the rules: the labels differ, there is one default
at most, and control leaves none but the last at its end. Conversely a switch whose parts can be read is
accepted if its blocks keep the rules, and refused for a double label or for what falls through if they
do not. -/
theorem switches_keep_rules :
    (∀ (source path : String) (options : Options) (file : File),
      File.ofSource source path options = .ok file →
      ∃ tokens, Source.tokenize (Source.prepare source) = .ok tokens ∧
        ∀ s ∈ file.statements ++ file.globals, ∀ p subject cases otherwise,
          (Node.stmt s).Holds (.stmt (.switch p subject cases otherwise)) →
          ∃ blocks : List CaseBlock, cases = blocks.filter (·.label.isSome) ∧
            otherwise.toList = blocks.filter (·.label.isNone) ∧
            (blocks.map (·.position)).Sublist (tokens.map (·.position)) ∧
            (source.length + 1 < UInt32.size →
              blocks.Pairwise fun a b => a.position.order b.position = .lt) ∧
            SwitchRules blocks) ∧
    ∀ (g : Grammar) (ctx : Context) (c d : Cursor) (w : Grammar.Written),
      g.writtenSwitch ctx c = .ok (w, d) →
      (SwitchRules w.blocks → g.switchStatement ctx c = .ok (w.stmt, d)) ∧
      (¬SwitchRules w.blocks →
        ∃ e, g.switchStatement ctx c = .error e ∧ Grammar.IsSwitchError e) := by
  refine ⟨fun source path options file hfile => ?_, fun g ctx c d w hw =>
    Grammar.switchStatement_of_written hw⟩
  unfold File.ofSource at hfile
  cases htokens : Source.tokenize (Source.prepare source) with
  | error e =>
    rw [htokens] at hfile
    cases hfile
  | ok tokens =>
    rw [htokens] at hfile
    replace hfile : File.ofTokens tokens path options = .ok file := hfile
    unfold File.ofTokens at hfile
    cases hrun : Production.runOn Grammar.constructs options tokens with
    | error e =>
      rw [hrun] at hfile
      cases hfile
    | ok d =>
      rw [hrun] at hfile
      cases hfile
      have hplaced := Production.runOn_constructs hrun
      refine ⟨tokens, rfl, fun s hs p subject cases otherwise hholds => ?_⟩
      have hs' : s ∈ d.statements ++ d.globals := by simpa using hs
      obtain ⟨blocks, hblocks⟩ := (hplaced s hs').switches hholds
      have hplaces := hblocks.places.trans (Cursor.tokenize_sublist htokens)
      refine ⟨blocks, hblocks.cases, hblocks.otherwise, hplaces, fun hlength => ?_, hblocks.rules⟩
      have hlength' := Nat.lt_of_le_of_lt (Nat.succ_le_succ (Source.length_prepare_le source)) hlength
      have hpairs : (tokens.map (·.position)).Pairwise fun p q => p.order q = .lt :=
        List.pairwise_map.2 (Source.tokenize_places hlength' htokens)
      exact List.pairwise_map.1 (hpairs.sublist hplaces)

/-- A switch in an accepted file, with a block that shares the statements of the next one; and the switch
`switch (x) { case 1: break; case n: }`, which is accepted for `2` and refused for a second `1`. -/
theorem switches_keep_rules_shared :
    (∃ file p subject cases otherwise,
      File.ofSource "switch (x) \x7b case 1: case 2: break; default: f() \x7d" "a.ts" ⟨true⟩ = .ok file ∧
      .switch p subject cases otherwise ∈ file.statements ∧
      ∃ blocks : List CaseBlock, cases = blocks.filter (·.label.isSome) ∧
        otherwise.toList = blocks.filter (·.label.isNone) ∧ SwitchRules blocks) ∧
    let c (n : String) := Cursor.ofTokens [⟨.keyword .switchWord, "switch", ⟨1, 1⟩⟩,
      ⟨.mark .openParen, "(", ⟨1, 8⟩⟩, ⟨.identifier, "x", ⟨1, 9⟩⟩, ⟨.mark .closeParen, ")", ⟨1, 10⟩⟩,
      ⟨.mark .openBrace, "\x7b", ⟨1, 12⟩⟩, ⟨.keyword .caseWord, "case", ⟨1, 14⟩⟩, ⟨.int, "1", ⟨1, 19⟩⟩,
      ⟨.mark .colon, ":", ⟨1, 20⟩⟩, ⟨.keyword .breakWord, "break", ⟨1, 22⟩⟩, ⟨.mark .semicolon, ";", ⟨1, 27⟩⟩,
      ⟨.keyword .caseWord, "case", ⟨1, 29⟩⟩, ⟨.int, n, ⟨1, 34⟩⟩, ⟨.mark .colon, ":", ⟨1, 35⟩⟩,
      ⟨.mark .closeBrace, "\x7d", ⟨1, 37⟩⟩, ⟨.endOfFile, "", ⟨1, 38⟩⟩]
    let w (n : String) : Grammar.Written := ⟨⟨1, 1⟩, .identifier ⟨⟨1, 9⟩, "x"⟩,
      [⟨⟨1, 14⟩, some (.constant ⟨1, 19⟩ .int "1"), [.breaks ⟨1, 22⟩ none]⟩,
        ⟨⟨1, 29⟩, some (.constant ⟨1, 34⟩ .int n), []⟩]⟩
    (∀ n, ∃ d, (Grammar.ofDepth 9).writtenSwitch ⟨true, 0⟩ (c n) = .ok (w n, d)) ∧
      (∃ d, (Grammar.ofDepth 9).switchStatement ⟨true, 0⟩ (c "2") = .ok ((w "2").stmt, d)) ∧
      ∃ e, (Grammar.ofDepth 9).switchStatement ⟨true, 0⟩ (c "1") = .error e ∧ Grammar.IsSwitchError e := by
  refine ⟨?_, ?_⟩
  · have haccepted :
        ((File.ofSource "switch (x) \x7b case 1: case 2: break; default: f() \x7d" "a.ts" ⟨true⟩).toOption.any
          fun file => file.statements.any Stmt.isSwitch) = true := by decide +kernel
    cases hread : File.ofSource "switch (x) \x7b case 1: case 2: break; default: f() \x7d" "a.ts" ⟨true⟩ with
    | error e =>
      rw [hread] at haccepted
      cases haccepted
    | ok file =>
      rw [hread] at haccepted
      obtain ⟨s, hs, hswitch⟩ := List.any_eq_true.1 (show file.statements.any Stmt.isSwitch = true from
        haccepted)
      cases s with
      | switch p subject cases otherwise =>
        obtain ⟨_, _, hswitches⟩ := switches_keep_rules.1 _ _ _ _ hread
        obtain ⟨blocks, hcases, hotherwise, -, -, hrules⟩ :=
          hswitches _ (List.mem_append_left _ hs) _ _ _ _ (.self _)
        exact ⟨file, p, subject, cases, otherwise, rfl, hs, blocks, hcases, hotherwise, hrules⟩
      | _ => cases hswitch
  · intro c w
    have hwritten (n : String) : ∃ d, (Grammar.ofDepth 9).writtenSwitch ⟨true, 0⟩ (c n) = .ok (w n, d) :=
      ⟨_, rfl⟩
    have hkept : SwitchRules (w "2").blocks := by
      constructor
      · rw [List.pairwise_pair]
        exact ⟨.inr (by decide), fun h => by cases h.1⟩
      · intro b hb
        obtain rfl := List.mem_singleton.1 hb
        exact .inr ⟨_, rfl, .breaks _ _⟩
    have hbroken : ¬ SwitchRules (w "1").blocks := by
      intro h
      have hdiffer := List.pairwise_pair.1 h.differ
      rcases hdiffer.constants with hnone | hne
      · cases hnone
      · exact hne rfl
    refine ⟨hwritten, ?_, ?_⟩
    · obtain ⟨d, hd⟩ := hwritten "2"
      exact ⟨d, (switches_keep_rules.2 _ _ _ _ _ hd).1 hkept⟩
    · obtain ⟨d, hd⟩ := hwritten "1"
      exact (switches_keep_rules.2 _ _ _ _ _ hd).2 hbroken

end ScriptFront
