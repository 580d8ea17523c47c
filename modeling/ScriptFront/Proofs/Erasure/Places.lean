import ScriptFront.Proofs.Attribute.Files
import ScriptFront.Proofs.Erasure.Below

/-!
# The places for a type

A type may stand behind the name of a declared variable, of a class field, of a parameter in parentheses or
of a caught value, and between the parameters of a function and its body; a cast may stand behind a postfix
expression. `Slot.Place` says so for what reads each of these, and `Slot.InFile` for a file, in whose course
one of these is read. None of this mentions that a type is asked for there. That it is asked for is proved:
the grammar that avoids such a slot does not get through the file. For variables, class fields, functions
and methods the place is also read off the tokens that they start with (`Slot.In.variableStatement` and the
lemmas behind it).
-/

namespace ScriptFront

open Production

namespace Slot

/-- The slots in what the innermost production around them reads from a cursor on. -/
inductive Place (s : Slot) : {α : Type} → (Grammar → Production α) → Nat → Context → Cursor → Prop where
  /-- Behind the name of a variable or a class field, or behind its question mark. -/
  | «variable» {n : Nat} {ctx : Context} {c : Cursor} (isConst : Bool) (hname : c.isAt .identifier = true)
      (hs : s = ⟨(c.next.past (.mark .question)).remaining, false⟩) :
      Place s (·.variableDeclaration isConst) n ctx c
  /-- Behind the name of a variable that is declared without a value in a global block. -/
  | global {n : Nat} {ctx : Context} {c : Cursor}
      (hkeyword : c.peekKind = .keyword .letWord ∨ c.peekKind = .keyword .varWord)
      (hname : c.next.isAt .identifier = true) (hs : s = ⟨c.next.next.remaining, false⟩) :
      Place s (·.globalDeclaration) n ctx c
  /-- Behind the name of a parameter in parentheses, or behind its question mark. -/
  | parameter {n : Nat} {ctx : Context} {c d : Cursor} (fields : List Parameter)
      (hdots : d = c.past (.mark .ellipsis)) (hname : d.isAt .identifier = true)
      (hs : s = ⟨(d.next.past (.mark .question)).remaining, false⟩) :
      Place s (·.parameterRound fields) n ctx c
  /-- Behind the name of a caught value. -/
  | caught {n : Nat} {ctx : Context} {c : Cursor} (keyword : Token)
      (hopen : c.isAt (.mark .openParen) = true) (hname : c.next.isAt .identifier = true)
      (hs : s = ⟨c.next.next.remaining, false⟩) : Place s (·.catchClause keyword) n ctx c
  /-- Between the parameters of a function and its body. -/
  | result {n : Nat} {ctx : Context} {c d e : Cursor} {ps : Parameters}
      (htypes : typeParameters (Grammar.ofDepth n).type ctx c = .ok ((), d))
      (hparameters : (Grammar.ofDepth n).parameters ctx d = .ok (ps, e))
      (hs : s = ⟨e.remaining, false⟩) : Place s (·.functionRest) n ctx c
  /-- Behind a postfix expression. -/
  | cast {n : Nat} {ctx : Context} {c d : Cursor} {e : Expr}
      (hread : (Grammar.ofDepth n).postfixExpression ctx c = .ok (e, d)) (hs : s = ⟨d.remaining, true⟩) :
      Place s (·.operand) n ctx c

/-- The slots in what a production reads from a cursor on, with the grammar that can be entered `n` times: the
production is the one that has the place, or another production that it reads with has the slot. A
statement that starts with the word `type` right before a cast has none. -/
inductive In (s : Slot) : {α : Type} → (Grammar → Production α) → Nat → Context → Cursor → Prop where
  | place {α : Type} {p : Grammar → Production α} {n : Nat} {ctx : Context} {c : Cursor}
      (h : s.Place p n ctx c) : In s p n ctx c
  /-- In the first part of a sequence. -/
  | first {α β : Type} {p : Grammar → Production α} {f : Grammar → α → Production β} {n : Nat}
      {ctx : Context} {c : Cursor} (h : In s p n ctx c) : In s (fun g => p g >>= f g) n ctx c
  /-- In the second part of a sequence, where the first part ends. -/
  | second {α β : Type} {p : Grammar → Production α} {f : Grammar → α → Production β} {n : Nat}
      {ctx : Context} {c d : Cursor} {a : α} (hmonotonic : Monotonic p)
      (hread : p (Grammar.ofDepth n) ctx c = .ok (a, d)) (h : In s (f · a) n ctx d) :
      In s (fun g => p g >>= f g) n ctx c
  | nested {α : Type} {p : Grammar → Production α} {n : Nat} {ctx : Context} {c : Cursor}
      (h : In s p n { ctx with depth := ctx.depth + 1 } c) : In s (fun g => Production.nested (p g)) n ctx c
  | loop {σ β : Type} {step : Grammar → σ → Production (Turn σ β)} {i : σ} {n : Nat} {ctx : Context}
      {c : Cursor} (h : In s (fun g => loopFrom (step g) (c.last :: c.ahead) i) n ctx c) :
      In s (fun g => Production.loop (step g) i) n ctx c
  | value {n : Nat} {ctx : Context} {c : Cursor} (h : In s (·.valueExpression) n ctx c) :
      In s (·.value) (n + 1) ctx c
  | expression {n : Nat} {ctx : Context} {c : Cursor} (h : In s (·.conditional) n ctx c) :
      In s (·.expression) (n + 1) ctx c
  | binary {n : Nat} {ctx : Context} {c : Cursor} {least : Level} (h : In s (·.binaryExpression least) n ctx c) :
      In s (·.binary least) (n + 1) ctx c
  | unary {n : Nat} {ctx : Context} {c : Cursor} (h : In s (·.unaryExpression) n ctx c) :
      In s (·.unary) (n + 1) ctx c
  | block {n : Nat} {ctx : Context} {c : Cursor} (h : In s (·.blockBody) n ctx c) : In s (·.block) (n + 1) ctx c
  | item {n : Nat} {ctx : Context} {c : Cursor} (hword : s.follows ["type"] c = false)
      (h : In s (·.blockItem) n ctx c) : In s (·.item) (n + 1) ctx c

/-- The slots in the constructs from a cursor on, where the file up to there has come to a draft. A construct
that starts with a word for declarations right before a cast has none. -/
inductive InRounds (s : Slot) (n : Nat) (ctx : Context) : Draft → Cursor → Prop where
  | here {d : Draft} {c : Cursor} (hmore : c.peekKind ≠ .endOfFile)
      (hword : s.follows declarationWords c = false)
      (h : s.In (·.construct (d.meets c.attributes) c.peek) n ctx c) : InRounds s n ctx d c
  | later {d d' : Draft} {c c' : Cursor} (hmore : c.peekKind ≠ .endOfFile)
      (hread : (Grammar.ofDepth n).construct (d.meets c.attributes) c.peek ctx c = .ok (d', c'))
      (h : InRounds s n ctx { d' with started := true } c') : InRounds s n ctx d c

/-- The slots in a file. -/
def InFile (s : Slot) (options : Options) (tokens : List Token) : Prop :=
  let c := Cursor.ofTokens tokens
  s.InRounds (c.remaining + 1) ⟨options.optimize, 0⟩ .empty c

/-- Whether the grammar, if it accepts the tokens, asks for a type or a cast at the slot: the grammar that
avoids the slot does not get through. -/
def Asked (s : Slot) (options : Options) (tokens : List Token) : Prop :=
  let c := Cursor.ofTokens tokens
  let n := c.remaining + 1
  ∀ r, s.constructs (.ofDepth n) (.avoiding s n) ⟨options.optimize, 0⟩ c ≠ .ok r

/-! ## Constructs with a place -/

section Constructs

variable {s : Slot} {n : Nat} {ctx : Context} {c d : Cursor}

/-- Behind the name of a variable with its keyword. -/
theorem In.variableStatement (hname : c.next.isAt .identifier = true)
    (hs : s = ⟨(c.next.next.past (.mark .question)).remaining, false⟩) :
    s.In (·.variableStatement) n ctx c :=
  .second (.const next) rfl (.place (.variable _ hname hs))

/-- Looking ahead first changes nothing. -/
theorem In.afterLook {β : Type} {look : Cursor → Bool} {f : Grammar → Bool → Production β} {b : Bool}
    (hlook : look c = b) (h : s.In (f · b) n ctx c) : s.In (fun g => asks look >>= f g) n ctx c := by
  refine .second (.const (asks look)) ?_ h
  rw [← hlook]
  rfl

/-- Behind the name of a class field, be it private or not. -/
theorem In.classField (hd : d = if c.startsModified "private" then c.next else c)
    (hget : d.startsModified "get" = false) (hset : d.startsModified "set" = false)
    (hmethod : d.startsMethod = false) (hname : d.isAt .identifier = true)
    (hs : s = ⟨(d.next.past (.mark .question)).remaining, false⟩) : s.In (·.classMember) n ctx c := by
  have hfield (exported : Bool) : s.In (·.bareMember exported) n ctx d := by
    refine .afterLook hget (.afterLook hset (.afterLook hmethod ?_))
    exact .first (.first (.place (.variable false hname hs)))
  subst hd
  cases hprivate : c.startsModified "private" with
  | false =>
    rw [hprivate] at hfield
    exact .afterLook hprivate (hfield true)
  | true =>
    rw [hprivate] at hfield
    exact .afterLook hprivate (.second (.const (discard next)) rfl (hfield false))

/-- Between the parameters and the body of a function declaration. -/
theorem In.functionDeclaration (exported : Bool) (hkeyword : c.isAt (.keyword .functionWord) = true)
    (hname : c.next.isAt .identifier = true) (h : s.In (·.functionRest) n ctx c.next.next) :
    s.In (·.functionDeclaration exported) n ctx c :=
  .second (.const _) (accept_ok.2 ⟨hkeyword, rfl, rfl⟩)
    (.second (.const _) (identifier_ok.2 ⟨hname, rfl, rfl⟩) (.first h))

/-- Between the parameters and the body of a method. -/
theorem In.method (exported : Bool) (hname : c.peekKind.isName = true)
    (h : s.In (·.functionRest) n ctx c.next) : s.In (·.method exported) n ctx c :=
  .second (.const _) (name_ok.2 ⟨hname, rfl, rfl⟩) (.first h)

/-- Between the parameters and the body of a function literal. -/
theorem In.functionLiteral (hkeyword : c.isAt (.keyword .functionWord) = true)
    (h : s.In (·.functionRest) n ctx c.next) : s.In (·.functionLiteral) n ctx c :=
  .second (.const _) (accept_ok.2 ⟨hkeyword, rfl, rfl⟩) (.first h)

end Constructs

/-! ## Slots are refused -/

section Refused

variable {α : Type} {s : Slot} {n : Nat} {ctx : Context} {c : Cursor}

theorem ascription_refused (hs : s = ⟨c.remaining, false⟩) (r : Unit × Cursor) :
    (Grammar.avoiding s n).ascription ctx c ≠ .ok r := by
  subst hs
  cases n with
  | zero => nofun
  | succ n =>
    show refuse _ _ ctx c ≠ _
    unfold refuse
    rw [if_pos rfl]
    nofun

theorem casts_refused (hs : s = ⟨c.remaining, true⟩) (r : Unit × Cursor) :
    (Grammar.avoiding s n).casts ctx c ≠ .ok r := by
  subst hs
  cases n with
  | zero => nofun
  | succ n =>
    show refuse _ _ ctx c ≠ _
    unfold refuse
    rw [if_pos rfl]
    nofun

theorem variable_refused (isConst : Bool) (hs : s = ⟨(c.next.past (.mark .question)).remaining, false⟩)
    (r : VarDecl × Cursor) :
    (Grammar.avoiding s n).variableDeclaration isConst ctx c ≠ .ok r := by
  intro hok
  unfold Grammar.variableDeclaration at hok
  obtain ⟨_, _, hread, hok⟩ := bind_ok.1 hok
  obtain ⟨-, rfl, rfl⟩ := identifier_ok.1 hread
  obtain ⟨_, _, hread, hok⟩ := bind_ok.1 hok
  obtain rfl := discard_optional_ok.1 hread
  obtain ⟨_, _, hasked, -⟩ := bind_ok.1 hok
  exact ascription_refused hs _ hasked

theorem global_refused (hkeyword : c.peekKind = .keyword .letWord ∨ c.peekKind = .keyword .varWord)
    (hs : s = ⟨c.next.next.remaining, false⟩) (r : Option Stmt × Cursor) :
    (Grammar.avoiding s n).globalDeclaration ctx c ≠ .ok r := by
  intro hok
  unfold Grammar.globalDeclaration at hok
  rw [run_peekKind_bind] at hok
  rcases hkeyword with hkeyword | hkeyword
  all_goals
    rw [hkeyword] at hok
    dsimp only at hok
    rw [run_discard_next_bind] at hok
    obtain ⟨_, _, hread, hok⟩ := bind_ok.1 hok
    obtain ⟨_, hread⟩ := discard_ok.1 hread
    obtain ⟨-, -, rfl⟩ := identifier_ok.1 hread
    obtain ⟨_, _, hasked, -⟩ := bind_ok.1 hok
    exact ascription_refused hs _ hasked

theorem parameter_refused (fields : List Parameter)
    (hname : (c.past (.mark .ellipsis)).isAt .identifier = true)
    (hs : s = ⟨((c.past (.mark .ellipsis)).next.past (.mark .question)).remaining, false⟩)
    (r : Turn (List Parameter) (List Parameter × Bool) × Cursor) :
    (Grammar.avoiding s n).parameterRound fields ctx c ≠ .ok r := by
  intro hok
  unfold Grammar.parameterRound at hok
  obtain ⟨_, _, hread, hok⟩ := bind_ok.1 hok
  obtain ⟨rfl, rfl⟩ := skips_ok.1 hread
  rw [run_isAt_bind, hname] at hok
  obtain ⟨_, _, hread, hok⟩ := bind_ok.1 hok
  obtain ⟨-, rfl, rfl⟩ := identifier_ok.1 hread
  obtain ⟨_, _, hread, hok⟩ := bind_ok.1 hok
  obtain ⟨rfl, rfl⟩ := skips_ok.1 hread
  obtain ⟨_, _, hasked, -⟩ := bind_ok.1 hok
  exact ascription_refused hs _ hasked

theorem caught_refused (keyword : Token) (hopen : c.isAt (.mark .openParen) = true)
    (hs : s = ⟨c.next.next.remaining, false⟩) (r : CatchClause × Cursor) :
    (Grammar.avoiding s n).catchClause keyword ctx c ≠ .ok r := by
  intro hok
  unfold Grammar.catchClause at hok
  obtain ⟨_, _, hread, hok⟩ := bind_ok.1 hok
  obtain ⟨rfl, rfl⟩ := skips_ok.1 hread
  rw [hopen, Cursor.past_of_isAt hopen] at hok
  obtain ⟨_, _, hread, hok⟩ := bind_ok.1 hok
  obtain ⟨-, -, rfl⟩ := identifier_ok.1 hread
  obtain ⟨_, _, hasked, -⟩ := bind_ok.1 hok
  exact ascription_refused hs _ hasked

theorem result_refused {d e : Cursor} {ps : Parameters}
    (htypes : typeParameters (Grammar.ofDepth n).type ctx c = .ok ((), d))
    (hparameters : (Grammar.ofDepth n).parameters ctx d = .ok (ps, e)) (hs : s = ⟨e.remaining, false⟩)
    (r : (Parameters × Block) × Cursor) : (Grammar.avoiding s n).functionRest ctx c ≠ .ok r := by
  intro hok
  have hbelow := Grammar.avoiding_below s n
  unfold Grammar.functionRest at hok
  rw [hbelow.type, run_bind_of_ok htypes] at hok
  obtain ⟨_, _, hread, hok⟩ := bind_ok.1 hok
  cases hparameters.symm.trans (Composed.parameters.monotonic hbelow hread)
  obtain ⟨_, _, hasked, -⟩ := bind_ok.1 hok
  exact ascription_refused hs _ hasked

theorem cast_refused {d : Cursor} {e : Expr}
    (hread : (Grammar.ofDepth n).postfixExpression ctx c = .ok (e, d)) (hs : s = ⟨d.remaining, true⟩)
    (r : Expr × Cursor) : (Grammar.avoiding s n).operand ctx c ≠ .ok r := by
  intro hok
  have hbelow := Grammar.avoiding_below s n
  unfold Grammar.operand at hok
  obtain ⟨_, _, hchain, hok⟩ := bind_ok.1 hok
  cases hread.symm.trans (Composed.postfixExpression.monotonic hbelow hchain)
  obtain ⟨_, _, hasked, -⟩ := bind_ok.1 hok
  exact casts_refused hs _ hasked

theorem Place.refused {p : Grammar → Production α} (h : s.Place p n ctx c) (r : α × Cursor) :
    p (Grammar.avoiding s n) ctx c ≠ .ok r := by
  cases h with
  | «variable» isConst _ hs => exact variable_refused isConst hs r
  | global hkeyword _ hs => exact global_refused hkeyword hs r
  | parameter fields hdots hname hs =>
    subst hdots
    exact parameter_refused fields hname hs r
  | caught keyword hopen _ hs => exact caught_refused keyword hopen hs r
  | result htypes hparameters hs => exact result_refused htypes hparameters hs r
  | cast hread hs => exact cast_refused hread hs r

/-- The avoiding grammar does not get through what has the slot. -/
theorem In.refused {p : Grammar → Production α} (h : s.In p n ctx c) (r : α × Cursor) :
    p (Grammar.avoiding s n) ctx c ≠ .ok r := by
  induction h with
  | place h => exact h.refused r
  | first _ ih =>
    intro hok
    obtain ⟨_, _, hp, -⟩ := bind_ok.1 hok
    exact ih _ hp
  | @second _ _ _ _ n _ _ _ _ hmonotonic hread _ ih =>
    intro hok
    obtain ⟨_, _, hp, hrest⟩ := bind_ok.1 hok
    cases hread.symm.trans (hmonotonic (Grammar.avoiding_below s n) hp)
    exact ih r hrest
  | @nested _ p _ _ c _ ih =>
    intro hok
    have hdepth := Tracks.nested_ok hok
    exact ih r ((run_nested (p (Grammar.avoiding s _)) c hdepth).symm.trans hok)
  | loop _ ih => exact ih r
  | value _ ih => exact ih r
  | expression _ ih => exact ih r
  | binary _ ih => exact ih r
  | unary _ ih => exact ih r
  | block _ ih => exact ih r
  | item hword _ ih =>
    intro hok
    refine ih r (Eq.trans ?_ hok)
    show _ = s.behind ["type"] _ _ _ _
    unfold behind
    rw [hword]
    rfl

end Refused

/-! ## Rounds of reading a file -/

/-- A round of reading a file, with `construct` for the constructs. -/
def roundOf (construct : Draft → Token → Production Draft) (d : Draft) : Production (Turn Draft Draft) := do
  let d := { d with attributes := (← asks Cursor.attributes).foldl .push d.attributes }
  let t ← peek
  if t.kind = .endOfFile then return .done { d with attributes := d.attributes.flush }
  let d ← construct d t
  return .again { d with started := true }

theorem roundOf_ok {construct : Draft → Token → Production Draft} {d : Draft} {ctx : Context}
    {c e : Cursor} {t : Turn Draft Draft} : roundOf construct d ctx c = .ok (t, e) ↔
      (c.peekKind = .endOfFile ∧
        t = .done { d with attributes := (d.meets c.attributes).attributes.flush } ∧ e = c) ∨
      (c.peekKind ≠ .endOfFile ∧ ∃ d', construct (d.meets c.attributes) c.peek ctx c = .ok (d', e) ∧
        t = .again { d' with started := true }) := by
  unfold roundOf
  rw [run_asks_bind]
  dsimp only
  rw [run_peek_bind]
  by_cases hkind : c.peekKind = .endOfFile
  · rw [if_pos (show c.peek.kind = .endOfFile from hkind), pure_ok]
    simp [hkind, Draft.meets]
  · rw [if_neg (show c.peek.kind ≠ .endOfFile from hkind), bind_ok]
    simp only [pure_ok, hkind, false_and, false_or, ne_eq, not_false_eq_true, true_and]
    constructor
    · rintro ⟨d', _, hread, rfl, rfl⟩
      exact ⟨d', hread, rfl⟩
    · rintro ⟨d', hread, rfl⟩
      exact ⟨d', e, hread, rfl, rfl⟩

section Rounds

variable {s : Slot} {n : Nat} {ctx : Context} {c : Cursor} {d : Draft} {rounds : List Stop}

/-- How the avoiding grammar reads a construct. -/
def avoided (s : Slot) (n : Nat) (d : Draft) (t : Token) : Production Draft :=
  s.behind declarationWords ((Grammar.ofDepth n).construct d t) ((Grammar.avoiding s n).construct d t)

theorem avoided_below (s : Slot) (n : Nat) (d : Draft) (t : Token) :
    (s.avoided n d t).Below ((Grammar.ofDepth n).construct d t) :=
  .behind s _ ((Composed.construct d t).monotonic (Grammar.avoiding_below s n))

/-- The avoiding grammar does not get through a file that has the slot. -/
theorem InRounds.refused (h : s.InRounds n ctx d c) (r : Draft × Cursor) :
    loopFrom (roundOf (s.avoided n)) rounds d ctx c ≠ .ok r := by
  induction h generalizing rounds with
  | here hmore hword h =>
    intro hok
    cases rounds with
    | nil => cases hok
    | cons stop rounds =>
      obtain ⟨_, _, hround, -⟩ := bind_ok.1 hok
      obtain ⟨hend, -⟩ | ⟨-, d', hread, -⟩ := roundOf_ok.1 hround
      · exact hmore hend
      · unfold avoided behind at hread
        rw [hword] at hread
        exact h.refused _ hread
  | later hmore hread _ ih =>
    intro hok
    cases rounds with
    | nil => cases hok
    | cons stop rounds =>
      obtain ⟨_, _, hround, hrest⟩ := bind_ok.1 hok
      obtain ⟨hend, -⟩ | ⟨-, d', havoided, rfl⟩ := roundOf_ok.1 hround
      · exact hmore hend
      · cases hread.symm.trans (avoided_below s n _ _ havoided)
        exact ih hrest

theorem InFile.asked {options : Options} {tokens : List Token} (h : s.InFile options tokens) :
    s.Asked options tokens :=
  fun r => InRounds.refused h r

end Rounds

end Slot

end ScriptFront
