import ScriptFront.Production.SourceFile
import ScriptFront.Proofs.Brackets.Statements
import ScriptFront.Proofs.Production.Accepted

/-!
# Brackets in whole texts

A text that is accepted, as a file or as an expression, is read up to its end, so the brackets among all
its tokens are nested and closed.
-/

namespace ScriptFront

namespace Grammar.Brackets

open Production

variable {g : Grammar} [hg : g.Brackets]

/-! ## Declarations of a file -/

instance importDeclaration : Nests importDeclaration := by
  unfold Production.importDeclaration
  refine ⟨fun before => .behind fun keyword => .peekKind fun kind => ?_⟩
  split
  · refine .nextThen (fun c hc => ?_) fun path => .nests
    rw [hc.2]
    rfl
  · exact .fail _ _
  · exact .behind fun _ => .behind fun _ => .nests

/-- The keyword of a variable that is exported or global. -/
theorem variableThen {α : Type} {P : Cursor → Prop} {before : List Bracket} {k : Keyword}
    {f : VarDecl → Production α} [hf : ∀ d, Nests (f d)] (h : ∀ c, P c → c.peekKind = .keyword k) :
    Takes P before (g.variableStatement >>= f) fun _ => before := by
  refine (variableStatement fun c hP => ?_).bind fun _ => .nests
  rw [h c hP]
  rfl

instance exportDeclaration : Nests g.exportDeclaration := by
  unfold Grammar.exportDeclaration
  refine ⟨fun before => .behind fun _ => .peek fun t => ?_⟩
  have hkind : ∀ {k : Keyword}, t.kind = .keyword k → ∀ c, Anywhere c ∧ c.peek = t →
      c.peekKind = .keyword k := by
    intro k hk c hc
    rw [Cursor.peekKind, hc.2, hk]
  split
  · exact .nests
  · exact .nests
  · exact .nests
  · next hlet => exact variableThen (hkind hlet)
  · next hvar => exact variableThen (hkind hvar)
  · next hconst => exact variableThen (hkind hconst)
  · exact .nests
  · exact .nests
  · exact .failHere _

instance globalDeclaration : Nests g.globalDeclaration := by
  unfold Grammar.globalDeclaration
  refine ⟨fun before => .peekKind fun kind => ?_⟩
  split
  · exact .nests
  · exact variableThen fun c hc => hc.2
  · exact .skipAt rfl fun _ => .nests
  · exact .skipAt rfl fun _ => .nests
  · exact .nests
  · exact .nests
  · exact .nests

/-- The brace of a global block is closed by its last round. -/
instance globalBlock : Nests g.globalBlock := by
  unfold Grammar.globalBlock
  refine ⟨fun before => .behind fun _ => .peek fun t => ?_⟩
  extract_lets behindNames behindWords
  have hnames : t.isWord "global" = true →
      Takes (fun c => Anywhere c ∧ c.peek = t) before (behindNames ()) fun _ => before := by
    intro hword
    refine .skip (fun c hc => Cursor.openBehind_of_isWord (hc.2 ▸ hword) before) fun _ => ?_
    refine .opened fun _ => .loop (fun _ => .curly :: before) (fun decls => ?_) []
    refine .asks (h := fun c => c.isAt (.mark .closeBrace)) fun closed => .ite (fun hclosed => ?_) fun _ => ?_
    · refine .skip (m := before) (fun c hc => ?_) fun _ => .pure rfl
      rw [show c.peekKind = .mark .closeBrace from eq_of_beq (hc.2.trans hclosed)]
      rfl
    · refine .behind fun s => ?_
      cases s <;> exact .pure rfl
  refine .ite (fun _ => .failThen _ _) fun _ => .ite (fun _ => .failThen _ _) fun hword => ?_
  exact hnames (by simpa using hword)

/-! ## Constructs of a file -/

instance settled (d : Draft) (p : Position) : Nests (settled d p) := by
  refine ⟨fun before => ⟨fun {_ c _ _} _ _ hok => ?_⟩⟩
  unfold Grammar.settled at hok
  split at hok
  · cases hok
    exact .refl c before
  · cases hok

instance attributed (d : Draft) (p : Position) {declaration : Production (Option Stmt)}
    [Nests declaration] : Nests (attributed d p declaration) := by
  unfold Grammar.attributed
  dsimp only
  refine @Nests.bind _ _ _ _ _ fun s => ?_
  cases s <;> infer_instance

instance other (d : Draft) (p : Position) : Nests (construct.other g d p) := by
  unfold construct.other
  infer_instance

instance construct (d : Draft) (t : Token) : Nests (g.construct d t) := by
  unfold Grammar.construct
  split
  · dsimp only
    infer_instance
  · infer_instance
  · infer_instance
  · refine @Nests.bind _ _ _ _ _ fun isAttributed => @Nests.ite _ _ _ _ _ inferInstance ?_
    refine @Nests.bind _ _ _ _ _ fun d => @Nests.bind _ _ _ _ _ fun s => ?_
    cases s <;> infer_instance
  · infer_instance
  · infer_instance
  · infer_instance

instance constructs : Nests g.constructs := by
  unfold Grammar.constructs constructsOf
  dsimp only
  infer_instance

omit hg in
/-- The constructs of a file stop at its end. -/
theorem constructs_stops {ctx : Context} {c d : Cursor} {draft : Draft}
    (h : g.constructs ctx c = .ok (draft, d)) : d.peekKind = .endOfFile := by
  unfold Grammar.constructs constructsOf at h
  refine loop_stops (R := fun d => d.peekKind = .endOfFile) (fun {s ctx c b d} hok => ?_) h
  rw [run_asks_bind, run_peek_bind] at hok
  split at hok
  · next hend =>
    cases hok
    exact hend
  · obtain ⟨_, _, _, hok⟩ := bind_ok.1 hok
    cases hok

instance wholeExpression : Nests g.wholeExpression := by
  unfold Grammar.wholeExpression
  dsimp only
  infer_instance

omit hg in
theorem wholeExpression_stops {ctx : Context} {c d : Cursor} {e : Expr}
    (h : g.wholeExpression ctx c = .ok (e, d)) : d.peekKind = .endOfFile := by
  unfold Grammar.wholeExpression at h
  obtain ⟨e', c', _, h⟩ := bind_ok.1 h
  obtain ⟨_, c'', _, h⟩ := bind_ok.1 h
  rw [run_isAt_bind] at h
  split at h
  · cases h
  · next hend =>
    cases h
    simpa [Cursor.isAt] using hend

end Grammar.Brackets

/-! ## Whole texts -/

open Production

/-- The brackets that are read up to the end of a tokenized text are all that it has. -/
theorem Cursor.Leads.nested {tokens : List Token} {d : Cursor} {s : String}
    (htokens : Source.tokenize s = .ok tokens) (h : (Cursor.ofTokens tokens).Leads [] d [])
    (hend : d.peekKind = .endOfFile) : Nested ((Token.significant tokens).map (·.kind)) := by
  obtain ⟨-, taken, htaken, hopen⟩ := h
  obtain ⟨eof, heof, hsignificant⟩ := Source.significant_of_read htokens htaken hend
  unfold Nested
  rw [hsignificant, List.map_append, openBehind_append, List.map_map]
  refine (congrArg (Option.bind · _) hopen).trans ?_
  show openBehind [] [eof.kind] = some []
  rw [heof]
  rfl

theorem Production.runOn_nested {α : Type} {p : Grammar → Production α} {options : Options}
    {tokens : List Token} {a : α} {s : String} (htokens : Source.tokenize s = .ok tokens)
    (hp : ∀ (g : Grammar) [g.Brackets], Nests (p g))
    (hstops : ∀ {g : Grammar} {ctx c a d}, p g ctx c = .ok (a, d) → d.peekKind = .endOfFile)
    (h : runOn p options tokens = .ok a) : Nested ((Token.significant tokens).map (·.kind)) := by
  obtain ⟨d, hrun⟩ := runOn_ok h
  have hclosed := (Source.tokenize_at htokens).last
  exact (((hp _).takes []).leads hclosed trivial hrun).nested htokens (hstops hrun)

/-- A text that is accepted as a file or as an expression has all its brackets nested and closed. -/
theorem Source.nested_of_accepted {source : String}
    (h : (∃ path options file, File.ofSource source path options = .ok file) ∨
      ∃ e, Expr.ofSource source = .ok e) :
    ∃ tokens, tokenize (prepare source) = .ok tokens ∧
      Nested ((Token.significant tokens).map (·.kind)) := by
  obtain ⟨tokens, htokens, ⟨options, d, hrun⟩ | ⟨e, hrun⟩⟩ := Accepted.run h
  · exact ⟨tokens, htokens, runOn_nested htokens (fun g => Grammar.Brackets.constructs)
      Grammar.Brackets.constructs_stops hrun⟩
  · exact ⟨tokens, htokens, runOn_nested htokens (fun g => Grammar.Brackets.wholeExpression)
      Grammar.Brackets.wholeExpression_stops hrun⟩

/-- The brackets of a call with an array of a map. -/
theorem Source.nested_of_accepted_call :
    ∃ tokens, tokenize (prepare "f([\x7ba: 1\x7d])") = .ok tokens ∧
      Nested ((Token.significant tokens).map (·.kind)) := by
  have haccepted : (Expr.ofSource "f([\x7ba: 1\x7d])").toOption.isSome = true := by decide +kernel
  refine nested_of_accepted (.inr ?_)
  cases hread : Expr.ofSource "f([\x7ba: 1\x7d])" with
  | ok e => exact ⟨e, rfl⟩
  | error e =>
    rw [hread] at haccepted
    cases haccepted

end ScriptFront
