import ScriptFront.Proofs.Erasure.Places

/-!
# No place is missed

What asks for a type or a cast at a slot has the slot (`Slot.In`): if a production gets through and the
avoiding grammar does not, the refusal happened at a place. With the converse, the slots of an accepted file
are exactly those where the grammar asks (`Slot.asked_iff`).
-/

namespace ScriptFront

open Production

namespace Slot

/-- Whether a production has the slot if it gets through from a cursor on and the avoiding grammar does not. -/
def FoundAt {α : Type} (s : Slot) (p : Grammar → Production α) (n : Nat) (ctx : Context) (c : Cursor) : Prop :=
  ∀ ⦃r : α × Cursor⦄, p (Grammar.ofDepth n) ctx c = .ok r →
    (∀ r, p (Grammar.avoiding s n) ctx c ≠ .ok r) → s.In p n ctx c

namespace FoundAt

variable {α β σ : Type} {s : Slot} {n : Nat} {ctx : Context} {c : Cursor}

theorem const (p : Production α) : s.FoundAt (fun _ => p) n ctx c :=
  fun r hok hno => absurd hok (hno r)

theorem typed (p : Production Unit → Production α) : s.FoundAt (fun g => p g.type) n ctx c := by
  intro r hok hno
  have havoided : p (Grammar.avoiding s n).type ctx c = .ok r := by
    rw [(Grammar.avoiding_below s n).type]
    exact hok
  exact absurd havoided (hno r)

theorem bind {p : Grammar → Production α} {f : Grammar → α → Production β} (hmonotonic : Monotonic p)
    (hp : s.FoundAt p n ctx c)
    (hf : ∀ a d, p (Grammar.ofDepth n) ctx c = .ok (a, d) → s.FoundAt (f · a) n ctx d) :
    s.FoundAt (fun g => p g >>= f g) n ctx c := by
  intro r hok hno
  obtain ⟨a, d, hread, hrest⟩ := bind_ok.1 hok
  by_cases hfirst : ∀ r, p (Grammar.avoiding s n) ctx c ≠ .ok r
  · exact .first (hp hread hfirst)
  · obtain ⟨_, havoided⟩ := not_forall_not.1 hfirst
    cases hread.symm.trans (hmonotonic (Grammar.avoiding_below s n) havoided)
    exact .second hmonotonic hread (hf a d hread hrest fun r h => hno r (bind_ok.2 ⟨a, d, havoided, h⟩))

theorem ite {b : Prop} [Decidable b] {p q : Grammar → Production α} (hp : s.FoundAt p n ctx c)
    (hq : s.FoundAt q n ctx c) : s.FoundAt (fun g => if b then p g else q g) n ctx c := by
  split
  · exact hp
  · exact hq

theorem loop {step : Grammar → σ → Production (Turn σ β)} (hmonotonic : ∀ i, Monotonic fun g => step g i)
    (h : ∀ i c, s.FoundAt (step · i) n ctx c) (i : σ) :
    s.FoundAt (fun g => Production.loop (step g) i) n ctx c := by
  have hrounds (rounds : List Stop) (i : σ) (c : Cursor) :
      s.FoundAt (fun g => loopFrom (step g) rounds i) n ctx c := by
    induction rounds generalizing i c with
    | nil => exact const _
    | cons stop rounds ih =>
      refine bind (hmonotonic i) (h i c) fun turn d _ => ?_
      cases turn with
      | again i => exact ih i d
      | done b => exact const _
  exact fun r hok hno => .loop (hrounds (c.last :: c.ahead) i c hok hno)

/-- Elsewhere the avoiding grammar reads the type of a variable as the grammar does. -/
theorem ascription (hs : s ≠ ⟨c.remaining, false⟩) : s.FoundAt (·.ascription) n ctx c := by
  refine fun r hok hno => absurd ?_ (hno r)
  cases n with
  | zero => exact hok
  | succ n =>
    have hread : ascribedType (Grammar.avoiding s n).type ctx c = .ok r := by
      rw [(Grammar.avoiding_below s n).type]
      exact hok
    show (if s.cast then _ else s.refuse _) ctx c = _
    cases hcast : s.cast with
    | true => exact hread
    | false =>
      have hremaining : c.remaining ≠ s.remaining := by
        rintro h
        exact hs (by rw [h, ← hcast])
      exact (if_neg hremaining).trans hread

/-- Elsewhere the avoiding grammar reads casts as the grammar does. -/
theorem casts (hs : s ≠ ⟨c.remaining, true⟩) : s.FoundAt (·.casts) n ctx c := by
  refine fun r hok hno => absurd ?_ (hno r)
  cases n with
  | zero => exact hok
  | succ n =>
    have hread : asTypes (Grammar.avoiding s n).type ctx c = .ok r := by
      rw [(Grammar.avoiding_below s n).type]
      exact hok
    show (if s.cast then s.refuse _ else _) ctx c = _
    cases hcast : s.cast with
    | false => exact hread
    | true =>
      have hremaining : c.remaining ≠ s.remaining := by
        rintro h
        exact hs (by rw [h, ← hcast])
      exact (if_neg hremaining).trans hread

/-! The productions that ask for a type. -/

theorem of_not_place {p : Grammar → Production α} (h : ¬ s.Place p n ctx c → s.FoundAt p n ctx c) :
    s.FoundAt p n ctx c := by
  by_cases hplace : s.Place p n ctx c
  · exact fun _ _ _ => .place hplace
  · exact h hplace

theorem variableDeclaration (isConst : Bool) (hvalue : ∀ c, s.FoundAt (·.value) n ctx c) :
    s.FoundAt (·.variableDeclaration isConst) n ctx c := by
  refine of_not_place fun hplace => ?_
  unfold Grammar.variableDeclaration
  refine bind (.const _) (const _) fun name d hread => ?_
  obtain ⟨hname, rfl, rfl⟩ := identifier_ok.1 hread
  refine bind (.const _) (const _) fun _ d hread => ?_
  obtain rfl := discard_optional_ok.1 hread
  refine bind (fun _ _ h => h.ascription) (ascription fun hs => hplace (.variable isConst hname hs))
    fun _ d _ => ?_
  dsimp only
  exact bind (.const _) (const _) fun hasValue d _ => ite (bind (fun _ _ h => h.value) (hvalue d)
    fun value d _ => const _) (const _)

theorem globalDeclaration (hvariable : Monotonic (·.variableStatement))
    (h : ∀ c, s.FoundAt (·.variableStatement) n ctx c) : s.FoundAt (·.globalDeclaration) n ctx c := by
  refine of_not_place fun hplace => ?_
  have htyped (hkeyword : c.peekKind = .keyword .letWord ∨ c.peekKind = .keyword .varWord) :
      s.FoundAt (fun g => (do
        discard next
        discard identifier
        g.ascription
        semicolon
        return none : Production (Option Stmt))) n ctx c := by
    refine bind (.const _) (const _) fun _ d hread => ?_
    obtain rfl : d = c.next := by
      cases hread
      rfl
    refine bind (.const _) (const _) fun _ d hread => ?_
    obtain ⟨_, hread⟩ := discard_ok.1 hread
    obtain ⟨hname, -, rfl⟩ := identifier_ok.1 hread
    exact bind (fun _ _ h => h.ascription) (ascription fun hs => hplace (.global hkeyword hname hs))
      fun _ d _ => const _
  unfold Grammar.globalDeclaration
  refine bind (.const _) (const _) fun k d hread => ?_
  cases hread
  split
  · exact const _
  · exact bind hvariable (h c) fun _ d _ => const _
  · next hkeyword => exact htyped (.inl hkeyword)
  · next hkeyword => exact htyped (.inr hkeyword)
  · exact bind (.typed _) (typed _) fun _ d _ => const _
  · exact bind (.typed _) (typed _) fun _ d _ => const _
  · exact bind (.const _) (const _) fun _ d _ => ite (bind (.typed _) (typed _) fun _ d _ => const _) (const _)

theorem parameterRound (fields : List Parameter) : s.FoundAt (·.parameterRound fields) n ctx c := by
  refine of_not_place fun hplace => ?_
  unfold Grammar.parameterRound
  refine bind (.const _) (const _) fun dots d hread => ?_
  obtain ⟨rfl, rfl⟩ := skips_ok.1 hread
  refine bind (.const _) (const _) fun named d hread => ite (const _) ?_
  cases hread
  refine bind (.const _) (const _) fun name d hread => ?_
  obtain ⟨hname, rfl, rfl⟩ := identifier_ok.1 hread
  refine bind (.const _) (const _) fun optional d hread => ?_
  obtain ⟨rfl, rfl⟩ := skips_ok.1 hread
  exact bind (fun _ _ h => h.ascription) (ascription fun hs => hplace (.parameter fields rfl hname hs))
    fun _ d _ => const _

theorem catchClause (keyword : Token) (hblock : ∀ c, s.FoundAt (·.block) n ctx c) :
    s.FoundAt (·.catchClause keyword) n ctx c := by
  refine of_not_place fun hplace => ?_
  have hbody (binding : Option Ident) (d : Cursor) : s.FoundAt (fun g =>
      (do return ⟨keyword.position, binding, ← g.block⟩ : Production CatchClause)) n ctx d :=
    bind (fun _ _ h => h.block) (hblock d) fun body d _ => const _
  unfold Grammar.catchClause
  dsimp only
  refine bind (.const _) (const _) fun hasName d hread => ?_
  obtain ⟨rfl, rfl⟩ := skips_ok.1 hread
  cases hopen : c.isAt (.mark .openParen) with
  | false => exact hbody none _
  | true =>
    rw [Cursor.past_of_isAt hopen]
    refine bind (.const _) (const _) fun name d hread => ?_
    obtain ⟨hname, rfl, rfl⟩ := identifier_ok.1 hread
    refine bind (fun _ _ h => h.ascription) (ascription fun hs => hplace (.caught keyword hopen hname hs))
      fun _ d _ => ?_
    exact bind (.const _) (const _) fun _ d _ => bind (.const _) (const _) fun binding d _ => hbody binding d

theorem functionRest (hparameters : Monotonic (·.parameters)) (h : ∀ c, s.FoundAt (·.parameters) n ctx c)
    (hblock : ∀ c, s.FoundAt (·.block) n ctx c) : s.FoundAt (·.functionRest) n ctx c := by
  refine of_not_place fun hplace => ?_
  unfold Grammar.functionRest
  refine bind (.typed _) (typed _) fun _ d htypes => bind hparameters (h d) fun ps e hread => ?_
  exact bind (fun _ _ h => h.ascription) (ascription fun hs => hplace (.result htypes hread hs)) fun _ d _ =>
    bind (fun _ _ h => h.block) (hblock d) fun body d _ => const _

theorem operand (hchain : Monotonic (·.postfixExpression))
    (h : ∀ c, s.FoundAt (·.postfixExpression) n ctx c) : s.FoundAt (·.operand) n ctx c := by
  refine of_not_place fun hplace => ?_
  unfold Grammar.operand
  refine bind hchain (h c) fun e d hread => ?_
  exact bind (fun _ _ h => h.casts) (casts fun hs => hplace (.cast hread hs)) fun _ d _ => const _

end FoundAt

/-- Whether the slot is found in what the grammar that can be entered `n` times holds. -/
structure Finds (s : Slot) (n : Nat) : Prop where
  value : ∀ ctx c, s.FoundAt (·.value) n ctx c
  expression : ∀ ctx c, s.FoundAt (·.expression) n ctx c
  binary : ∀ least ctx c, s.FoundAt (·.binary least) n ctx c
  unary : ∀ ctx c, s.FoundAt (·.unary) n ctx c
  block : ∀ ctx c, s.FoundAt (·.block) n ctx c
  item : ∀ ctx c, s.FoundAt (·.item) n ctx c

section Found

variable {α : Type} {s : Slot} {n : Nat} {ctx : Context} {c : Cursor}

theorem Finds.foundAt (hn : s.Finds n) {p : Grammar → Production α} (h : Composed p) :
    s.FoundAt p n ctx c := by
  induction h generalizing ctx c with
  | const p => exact .const p
  | typed p => exact .typed p
  | value => exact hn.value ctx c
  | expression => exact hn.expression ctx c
  | binary least => exact hn.binary least ctx c
  | unary => exact hn.unary ctx c
  | block => exact hn.block ctx c
  | item => exact hn.item ctx c
  | bind hp _ ihp ihf => exact .bind hp.monotonic ihp fun a d _ => ihf a
  | nested _ ih =>
    intro r hok hno
    have hdepth := Tracks.nested_ok hok
    refine .nested (ih ((run_nested _ c hdepth).symm.trans hok) fun r h => ?_)
    exact hno r ((run_nested _ c hdepth).trans h)
  | loop h i ih => exact .loop (fun i => (h i).monotonic) (fun i c => ih i) i
  | «variable» isConst => exact .variableDeclaration isConst (hn.value ctx)
  | parameter fields => exact .parameterRound fields
  | result h ih => exact .functionRest h.monotonic (fun c => ih) (hn.block ctx)
  | caught keyword => exact .catchClause keyword (hn.block ctx)
  | global h ih => exact .globalDeclaration h.monotonic fun c => ih
  | operand h ih => exact .operand h.monotonic fun c => ih

theorem finds (s : Slot) (n : Nat) : s.Finds n := by
  induction n with
  | zero =>
    constructor <;> intros <;> intro r hok <;> cases hok
  | succ n ih => exact {
      value := fun ctx c r hok hno => .value (ih.foundAt .valueExpression hok hno)
      expression := fun ctx c r hok hno => .expression (ih.foundAt .conditional hok hno)
      binary := fun least ctx c r hok hno => .binary (ih.foundAt (.binaryExpression least) hok hno)
      unary := fun ctx c r hok hno => .unary (ih.foundAt .unaryExpression hok hno)
      block := fun ctx c r hok hno => .block (ih.foundAt .blockBody hok hno)
      item := by
        intro ctx c r hok hno
        cases hword : s.follows ["type"] c with
        | true => exact absurd ((if_pos hword).trans hok) (hno r)
        | false =>
          refine .item hword (ih.foundAt .blockItem hok fun r h => hno r ?_)
          exact (if_neg (by simp [hword])).trans h }

theorem InRounds.of_refused {d : Draft} {rounds : List Stop} {r : Draft × Cursor}
    (hok : loopFrom (roundOf (Grammar.ofDepth n).construct) rounds d ctx c = .ok r)
    (hno : ∀ r, loopFrom (roundOf (s.avoided n)) rounds d ctx c ≠ .ok r) : s.InRounds n ctx d c := by
  obtain ⟨b, e⟩ := r
  induction rounds generalizing d c with
  | nil => cases hok
  | cons stop rounds ih =>
    rcases loopFrom_ok.1 hok with hdone | ⟨d', c', hagain, hrest⟩
    · obtain ⟨hend, hturn, rfl⟩ | ⟨-, _, -, hturn⟩ := roundOf_ok.1 hdone
      · exact absurd (loopFrom_ok.2 (.inl (roundOf_ok.2 (.inl ⟨hend, hturn, rfl⟩)))) (hno (b, e))
      · cases hturn
    · obtain ⟨-, hturn, -⟩ | ⟨hmore, d', hread, hturn⟩ := roundOf_ok.1 hagain
      · cases hturn
      cases hturn
      by_cases havoided : ∀ r, s.avoided n (d.meets c.attributes) c.peek ctx c ≠ .ok r
      · cases hword : s.follows declarationWords c with
        | true => exact absurd ((if_pos hword).trans hread) (havoided _)
        | false =>
          refine .here hmore hword ((s.finds n).foundAt (.construct _ _) hread fun r h => havoided r ?_)
          exact (if_neg (by simp [hword])).trans h
      · obtain ⟨_, havoided⟩ := not_forall_not.1 havoided
        cases hread.symm.trans (avoided_below s n _ _ havoided)
        refine .later hmore hread (ih (fun r h => hno r ?_) hrest)
        exact loopFrom_ok.2 (.inr ⟨_, _, roundOf_ok.2 (.inr ⟨hmore, _, havoided, rfl⟩), h⟩)

end Found

/-- The slots in an accepted file are those that the avoiding grammar refuses. -/
theorem asked_iff {s : Slot} {options : Options} {tokens : List Token} {d : Draft}
    (hok : runOn Grammar.constructs options tokens = .ok d) :
    s.Asked options tokens ↔ s.InFile options tokens := by
  constructor
  · intro hasked
    unfold runOn at hok
    cases hrun : (Grammar.ofDepth ((Cursor.ofTokens tokens).remaining + 1)).constructs ⟨options.optimize, 0⟩
        (Cursor.ofTokens tokens) with
    | error e =>
      dsimp only at hok
      rw [hrun] at hok
      cases hok
    | ok r => exact InRounds.of_refused (s := s) hrun hasked
  · exact InFile.asked

end Slot

end ScriptFront
