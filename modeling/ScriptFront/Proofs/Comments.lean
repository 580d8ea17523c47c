import ScriptFront.Proofs.Progress.Files

/-!
# Comments do not matter

A steady production makes the same of a cursor with fewer comments and attributes, as long as it does not
ask about those that are left out (`Production.Steady.natural`). A file asks about attributes only, and an
expression about neither. So comments can be put in and taken out anywhere: the file is the same but for
the comments that it lists (`ofTokens_comments`).
-/

namespace ScriptFront

namespace Production

variable {α β σ : Type} {keep : Token → Bool}

/-- Whether `p` makes the same of a cursor where comments and attributes are left out. -/
def Natural (keep : Token → Bool) (p : Production α) : Prop :=
  ∀ ctx c, p ctx (c.keeping keep) = (p ctx c).map fun r => (r.1, r.2.keeping keep)

namespace Natural

variable {p : Production α}

theorem bind {f : α → Production β} (hp : Natural keep p) (hf : ∀ a, Natural keep (f a)) :
    Natural keep (p >>= f) := by
  intro ctx c
  rw [run_bind, run_bind, hp ctx c]
  cases p ctx c with
  | error e => rfl
  | ok r => exact hf r.1 ctx r.2

theorem nested (hp : Natural keep p) : Natural keep (Production.nested p) := by
  intro ctx c
  unfold Production.nested
  split
  · rw [Cursor.peek_keeping]
    rfl
  · exact hp _ c

theorem loopFrom {step : σ → Production (Turn σ β)} (h : ∀ x, Natural keep (step x))
    (rounds : List Stop) (x : σ) (ctx : Context) (c : Cursor) :
    Production.loopFrom step (rounds.map (Stop.keeping keep)) x ctx (c.keeping keep) =
      (Production.loopFrom step rounds x ctx c).map fun r => (r.1, r.2.keeping keep) := by
  induction rounds generalizing x c with
  | nil =>
    rw [List.map_nil]
    unfold Production.loopFrom
    rw [run_peek_bind, run_peek_bind, Cursor.peek_keeping]
    rfl
  | cons _ rounds ih =>
    rw [List.map_cons]
    unfold Production.loopFrom
    rw [run_bind, run_bind, h x ctx c]
    cases step x ctx c with
    | error e => rfl
    | ok r =>
      obtain ⟨t, d⟩ := r
      cases t with
      | again x' => exact ih x' d
      | done b => rfl

theorem loop {step : σ → Production (Turn σ β)} (h : ∀ x, Natural keep (step x)) (x : σ) :
    Natural keep (Production.loop step x) :=
  fun ctx c => loopFrom h (c.last :: c.ahead) x ctx c

theorem failHere (cause : String → Cause) : Natural keep (Production.failHere cause : Production α) := by
  intro ctx c
  unfold Production.failHere
  rw [Cursor.peek_keeping]
  rfl

theorem asks {f : Cursor → α} (h : Cursor.Sees keep f) : Natural keep (Production.asks f) := by
  intro ctx c
  unfold Production.asks
  rw [h.eq c]
  rfl

theorem next : Natural keep Production.next := by
  intro ctx c
  unfold Production.next
  rw [Cursor.peek_keeping, Cursor.next_keeping]
  rfl

theorem advance (n : Nat) : Natural keep (Production.advance n) := by
  intro ctx c
  unfold Production.advance
  rw [Cursor.advance_keeping]
  rfl

theorem accept (k : Kind) : Natural keep (Production.accept k) :=
  fun _ c => Cursor.accept_keeping keep c k

theorem optional (k : Kind) : Natural keep (Production.optional k) := by
  intro ctx c
  unfold Production.optional
  rw [Cursor.optional_keeping]
  cases c.optional k <;> rfl

theorem genericArguments : Natural keep Production.genericArguments := by
  intro ctx c
  have hscan : Lookahead.Natural keep (Lookahead.typeArguments Lookahead.typeArgumentDepth) :=
    .typeArguments _
  have harguments := hscan (.ofCursor c)
  unfold Production.genericArguments
  rw [run_asks_bind, run_asks_bind,
    show Lookahead.ofCursor (c.keeping keep) = (Lookahead.ofCursor c).keeping keep from rfl, harguments]
  cases (Lookahead.ofCursor c).typeArguments Lookahead.typeArgumentDepth with
  | none => rfl
  | some l => exact congrArg (fun d => Except.ok ((), d)) (Cursor.advance_keeping keep c l.consumed)

theorem settled (d : Draft) (p : Position) : Natural keep (Grammar.settled d p) := by
  intro ctx c
  unfold Grammar.settled
  cases d.attributes.settle p d.started <;> rfl

end Natural

/-- Whether the constructs of the grammar make the same of fewer comments and attributes. -/
structure NaturalGrammar (keep : Token → Bool) (g : Grammar) : Prop where
  value : Natural keep g.value
  expression : Natural keep g.expression
  binary : ∀ least, Natural keep (g.binary least)
  unary : Natural keep g.unary
  block : Natural keep g.block
  item : Natural keep g.item
  type : Natural keep g.type
  ascription : Natural keep g.ascription
  casts : Natural keep g.casts

theorem Steady.natural {g : Grammar} {s : Stage} {p : Production α} (hg : NaturalGrammar keep g)
    (h : Steady g keep s p) : Natural keep p := by
  induction h with
  | value => exact hg.value
  | expression => exact hg.expression
  | binary least => exact hg.binary least
  | unary => exact hg.unary
  | block => exact hg.block
  | item => exact hg.item
  | type => exact hg.type
  | ascription => exact hg.ascription
  | casts => exact hg.casts
  | failHere s cause _ => exact .failHere cause
  | asks s f h => exact .asks h
  | next s => exact .next
  | advance s n => exact .advance n
  | accept s k => exact .accept k
  | optional s k => exact .optional k
  | genericArguments s => exact .genericArguments
  | settled s d p => exact .settled d p
  | nested h ih => exact ih.nested
  | bind after h hafter hf ih ihf => exact ih.bind ihf
  | loop hs h hstep x ih => exact .loop ih x
  | anywhere h ih => exact ih
  | _ => exact fun ctx c => rfl

end Production

open Production

/-- However deep the grammar is entered, it does not see comments or attributes. -/
theorem Grammar.natural_ofDepth (keep : Token → Bool) (n : Nat) : NaturalGrammar keep (ofDepth n) := by
  induction n with
  | zero =>
    have hstop : ∀ {α : Type}, Natural keep (peek >>= fun t => fail .stalled t.position : Production α) := by
      intro α ctx c
      rw [run_peek_bind, run_peek_bind, Cursor.peek_keeping]
      rfl
    exact ⟨hstop, hstop, fun _ => hstop, hstop, hstop, hstop, hstop, hstop, hstop⟩
  | succ n ih =>
    have h : SteadyAround keep (ofDepth n) := steady_around
    rw [ofDepth_succ]
    exact ⟨h.value.natural ih, h.expression.natural ih, fun least => (h.binary least).natural ih,
      h.unary.natural ih, h.block.natural ih, h.item.natural ih, h.type.natural ih,
      h.ascription.natural ih, h.casts.natural ih⟩

/-! ## Token lists -/

/-- The tokens without the comments and attributes that are not kept. -/
def Token.keeping (keep : Token → Bool) (tokens : List Token) : List Token :=
  tokens.filter fun t => !t.kind.isComment || keep t

namespace Cursor

variable (keep : Token → Bool)

theorem foldr_cons_keeping (tokens : List Token) :
    (tokens.foldr Stop.cons []).map (Stop.keeping keep) =
      (Token.keeping keep tokens).foldr Stop.cons [] := by
  induction tokens with
  | nil => rfl
  | cons t tokens ih =>
    have hcons : ∀ stops : List Stop, (Stop.cons t stops).map (Stop.keeping keep) =
        if (!t.kind.isComment || keep t) = true then Stop.cons t (stops.map (Stop.keeping keep))
        else stops.map (Stop.keeping keep) := by
      intro stops
      unfold Stop.cons
      cases t.kind.isComment with
      | false => simp [Stop.keeping]
      | true =>
        cases stops with
        | nil => simp
        | cons s stops => cases hkeep : keep t <;> simp [Stop.keeping, hkeep]
    rw [List.foldr_cons, hcons, ih]
    unfold Token.keeping
    rw [List.filter_cons]
    split <;> rfl

/-- Leaving tokens out of a list leaves them out of the cursor. -/
theorem ofTokens_keeping (front : List Token) {eof : Token} (heof : eof.kind = .endOfFile) :
    (ofTokens (front ++ [eof])).keeping keep = ofTokens (Token.keeping keep front ++ [eof]) := by
  have hclosed : ∀ front : List Token, Cursor.closed (front ++ [eof]) = front ++ [eof] := by
    intro front
    unfold Cursor.closed
    rw [List.getLast?_concat]
    exact if_pos heof
  have heof' : Token.keeping keep [eof] = [eof] := by simp [Token.keeping, heof, Kind.isComment]
  have hfilter : Token.keeping keep (front ++ [eof]) = Token.keeping keep front ++ [eof] := by
    conv => rhs; rw [← heof']
    exact List.filter_append ..
  have hstops := foldr_cons_keeping keep (front ++ [eof])
  rw [hfilter] at hstops
  unfold ofTokens keeping
  rw [hclosed, hclosed, ← hstops]
  dsimp only
  rw [List.map_dropLast, List.getLast?_map]
  cases ((front ++ [eof]).foldr Stop.cons []).getLast? <;> rfl

end Cursor

/-- What a steady production makes of a token list does not depend on comments and attributes that it does
not ask about. -/
theorem Production.runOn_keeping {α : Type} {keep : Token → Bool} {p : Grammar → Production α}
    (h : ∀ n, Steady (.ofDepth n) keep .start (p (.ofDepth n))) (options : Options) (front : List Token)
    {eof : Token} (heof : eof.kind = .endOfFile) :
    runOn p options (Token.keeping keep front ++ [eof]) = runOn p options (front ++ [eof]) := by
  unfold runOn
  rw [← Cursor.ofTokens_keeping keep front heof]
  dsimp only
  rw [Cursor.remaining_keeping, (h _).natural (Grammar.natural_ofDepth keep _)]
  cases p (.ofDepth ((Cursor.ofTokens (front ++ [eof])).remaining + 1)) ⟨options.optimize, 0⟩
    (Cursor.ofTokens (front ++ [eof])) <;> rfl

/-! ## Files and expressions -/

/-- The comments among some tokens. -/
def Comment.listed (tokens : List Token) : List Comment :=
  (tokens.filter (·.kind.isPlainComment)).map fun t => ⟨t.position, t.kind == .blockComment, t.text⟩

theorem Comment.ofTokens_eq (tokens : List Token) : ofTokens tokens = listed tokens := by
  induction tokens with
  | nil => rfl
  | cons t tokens ih =>
    unfold ofTokens listed at ih ⊢
    rw [List.filterMap_cons, List.filter_cons, ih]
    unfold ofToken?
    cases hkind : t.kind <;> simp [Kind.isPlainComment, hkind]

theorem Token.keeping_isAttribute (tokens : List Token) :
    keeping isAttribute tokens = tokens.filter fun t => !t.kind.isPlainComment := by
  apply List.filter_congr
  intro t _
  unfold isAttribute
  cases t.kind <;> rfl

theorem Token.keeping_none (tokens : List Token) :
    keeping (fun _ => false) tokens = tokens.filter fun t => !t.kind.isComment := by
  unfold keeping
  simp

/-- Comments can be put in and taken out anywhere before the end of the file. The file or the error is
the same, except that a file lists the comments that are there; and an expression does not change with
its attributes either. -/
theorem ofTokens_comments (front : List Token) (eof : Token) (heof : eof.kind = .endOfFile)
    (path : String) (options : Options) :
    (∀ front', front'.filter (!·.kind.isPlainComment) = front.filter (!·.kind.isPlainComment) →
        File.ofTokens (front' ++ [eof]) path options =
          (File.ofTokens (front ++ [eof]) path options).map fun f =>
            { f with comments := Comment.listed (front' ++ [eof]) }) ∧
      ∀ front', front'.filter (!·.kind.isComment) = front.filter (!·.kind.isComment) →
        Expr.ofTokens (front' ++ [eof]) options = Expr.ofTokens (front ++ [eof]) options := by
  constructor
  · intro front' hfront
    have hsteady : ∀ n, Steady (.ofDepth n) Token.isAttribute .start (Grammar.ofDepth n).constructs :=
      fun n => inferInstance
    have hrun := runOn_keeping hsteady options front' heof
    rw [Token.keeping_isAttribute, hfront, ← Token.keeping_isAttribute,
      runOn_keeping hsteady options front heof] at hrun
    unfold File.ofTokens
    rw [← hrun, Comment.ofTokens_eq]
    cases runOn Grammar.constructs options (front ++ [eof]) <;> rfl
  · intro front' hfront
    have hsteady : ∀ n, Steady (.ofDepth n) (fun _ => false) .start (Grammar.ofDepth n).wholeExpression :=
      fun n => inferInstance
    have hrun := runOn_keeping hsteady options front' heof
    rw [Token.keeping_none, hfront, ← Token.keeping_none,
      runOn_keeping hsteady options front heof] at hrun
    exact hrun.symm

/-- The call `f()` with a comment between its parentheses, as a file and as an expression; as an
expression it may have an attribute in front as well. -/
theorem ofTokens_comments_call :
    let name : Token := ⟨.identifier, "f", ⟨2, 1⟩⟩
    let opening : Token := ⟨.mark .openParen, "(", ⟨2, 2⟩⟩
    let closing : Token := ⟨.mark .closeParen, ")", ⟨2, 9⟩⟩
    let comment : Token := ⟨.blockComment, " no ", ⟨2, 4⟩⟩
    let tag : Token := ⟨.attribute, "fast", ⟨1, 1⟩⟩
    let eof : Token := .endOfFile ⟨2, 10⟩
    eof.kind = .endOfFile ∧
      File.ofTokens [name, opening, comment, closing, eof] "main.ts" ⟨true⟩ =
        (File.ofTokens [name, opening, closing, eof] "main.ts" ⟨true⟩).map (fun f =>
          { f with comments := [⟨⟨2, 4⟩, true, " no "⟩] }) ∧
      Expr.ofTokens [tag, name, opening, comment, closing, eof] ⟨true⟩ =
        Expr.ofTokens [name, opening, closing, eof] ⟨true⟩ := by
  intro name opening closing comment tag eof
  have h := ofTokens_comments [name, opening, closing] eof rfl "main.ts" ⟨true⟩
  exact ⟨rfl, h.1 [name, opening, comment, closing] rfl, h.2 [tag, name, opening, comment, closing] rfl⟩

end ScriptFront
