import ScriptFront.Production.SourceFile

/-!
# Leaving out what leads the tokens

`Cursor.keeping keep` is the cursor that is left when of the comments and attributes only those are kept
that `keep` holds of. Looking and reading pass over comments and attributes, so they do the same on both
cursors, and what the grammar asks about a cursor is the same too (`Cursor.Sees`).
-/

namespace ScriptFront

/-- The stop with those of its leading tokens that are kept. -/
def Stop.keeping (keep : Token → Bool) (s : Stop) : Stop := { s with leading := s.leading.filter keep }

namespace Cursor

/-- The cursor with those of the leading tokens that are kept. -/
def keeping (keep : Token → Bool) (c : Cursor) : Cursor :=
  ⟨c.ahead.map (Stop.keeping keep), c.last.keeping keep⟩

section Keeping

variable (keep : Token → Bool) (c : Cursor)

@[simp] theorem peekNth_keeping (n : Nat) : (c.keeping keep).peekNth n = c.peekNth n := by
  simp only [peekNth, keeping, List.getElem?_map]
  cases c.ahead[n]? <;> rfl

@[simp] theorem peek_keeping : (c.keeping keep).peek = c.peek := peekNth_keeping keep c 0

@[simp] theorem peekKind_keeping : (c.keeping keep).peekKind = c.peekKind :=
  congrArg Token.kind (peek_keeping keep c)

@[simp] theorem isAt_keeping (k : Kind) : (c.keeping keep).isAt k = c.isAt k :=
  congrArg (· == k) (peekKind_keeping keep c)

@[simp] theorem remaining_keeping : (c.keeping keep).remaining = c.remaining := List.length_map _

theorem next_keeping : (c.keeping keep).next = c.next.keeping keep := by
  obtain ⟨ahead, last⟩ := c
  cases ahead with
  | nil => rfl
  | cons s rest =>
    simp only [keeping, next, List.map_cons]
    by_cases hs : s.token.kind = .endOfFile
    · rw [if_pos hs]
      exact if_pos hs
    · rw [if_neg hs]
      exact if_neg hs

theorem advance_keeping (n : Nat) : (c.keeping keep).advance n = (c.advance n).keeping keep := by
  induction n generalizing c with
  | zero => rfl
  | succ n ih =>
    unfold advance
    rw [next_keeping, ih]

theorem optional_keeping (k : Kind) :
    (c.keeping keep).optional k = (c.optional k).map fun r => (r.1, r.2.keeping keep) := by
  unfold optional
  rw [isAt_keeping, peek_keeping, next_keeping]
  cases c.isAt k <;> rfl

theorem accept_keeping (k : Kind) :
    (c.keeping keep).accept k = (c.accept k).map fun r => (r.1, r.2.keeping keep) := by
  unfold accept
  rw [optional_keeping, peek_keeping]
  cases c.optional k <;> rfl

end Keeping

/-! ## Questions -/

/-- Whether `f` asks about nothing that is left out. -/
class Sees (keep : Token → Bool) {α : Type} (f : Cursor → α) : Prop where
  eq : ∀ c, f (c.keeping keep) = f c

namespace Sees

variable {keep : Token → Bool}

instance startsMethod : Sees keep Cursor.startsMethod :=
  ⟨fun c => by simp [Cursor.startsMethod]⟩

instance startsReadonly : Sees keep Cursor.startsReadonly :=
  ⟨fun c => by simp [Cursor.startsReadonly]⟩

instance startsFunctionType : Sees keep Cursor.startsFunctionType :=
  ⟨fun c => by simp [Cursor.startsFunctionType]⟩

instance startsTypeOperator : Sees keep Cursor.startsTypeOperator :=
  ⟨fun c => by simp [Cursor.startsTypeOperator]⟩

instance startsNegative : Sees keep Cursor.startsNegative :=
  ⟨fun c => by simp [Cursor.startsNegative]⟩

instance startsArraySuffix : Sees keep Cursor.startsArraySuffix :=
  ⟨fun c => by simp [Cursor.startsArraySuffix]⟩

instance startsArrow : Sees keep Cursor.startsArrow :=
  ⟨fun c => by simp [Cursor.startsArrow]⟩

instance binaryOperator? : Sees keep Cursor.binaryOperator? :=
  ⟨fun c => by simp [Cursor.binaryOperator?]⟩

instance startsDeclaration (w : String) : Sees keep (Cursor.startsDeclaration w) :=
  ⟨fun c => by simp [Cursor.startsDeclaration]⟩

instance startsIteration : Sees keep Cursor.startsIteration :=
  ⟨fun c => by simp [Cursor.startsIteration]⟩

instance startsLabel : Sees keep Cursor.startsLabel :=
  ⟨fun c => by simp [Cursor.startsLabel]⟩

instance startsModified (w : String) : Sees keep (Cursor.startsModified w) :=
  ⟨fun c => by simp [Cursor.startsModified]⟩

instance startsPrototypeMethod : Sees keep Cursor.startsPrototypeMethod :=
  ⟨fun c => by simp [Cursor.startsPrototypeMethod]⟩

instance exportsAttributed : Sees keep Cursor.exportsAttributed :=
  ⟨fun c => by simp [Cursor.exportsAttributed]⟩

end Sees

end Cursor

/-! ## Lookaheads -/

namespace Lookahead

/-- The lookahead over the cursor that keeps less. -/
def keeping (keep : Token → Bool) (l : Lookahead) : Lookahead :=
  ⟨l.ahead.map (Stop.keeping keep), l.last.keeping keep, l.consumed⟩

/-- Whether a scan goes the same way over the tokens that are left. -/
def Natural (keep : Token → Bool) (scan : Lookahead → Option Lookahead) : Prop :=
  ∀ l, scan (l.keeping keep) = (scan l).map (keeping keep)

variable {keep : Token → Bool} {more scan scan' : Lookahead → Option Lookahead}

@[simp] theorem peek_keeping (l : Lookahead) : (l.keeping keep).peek = l.peek := by
  simp only [peek, keeping, List.head?_map]
  cases l.ahead.head? <;> rfl

namespace Natural

theorem bind (h : Natural keep scan) (h' : Natural keep scan') :
    Natural keep fun l => scan l >>= scan' := by
  intro l
  simp only [h l]
  cases scan l with
  | none => rfl
  | some l => exact h' l

theorem ite (k : Kind) (h : Natural keep scan) (h' : Natural keep scan') :
    Natural keep fun l => if l.peek.kind = k then scan l else scan' l := by
  intro l
  simp only [peek_keeping]
  by_cases hk : l.peek.kind = k
  · rw [if_pos hk, if_pos hk]
    exact h l
  · rw [if_neg hk, if_neg hk]
    exact h' l

theorem stop : Natural keep some := fun _ => rfl

theorem eat (k : Kind) : Natural keep (·.eat k) := by
  intro l
  simp only [Lookahead.eat, peek_keeping]
  by_cases hk : l.peek.kind = k
  · rw [if_pos hk, if_pos hk]
    simp only [keeping, Option.map_some, List.map_tail]
  · rw [if_neg hk, if_neg hk]
    rfl

theorem whileEat (h : Natural keep more) (k : Kind) (rounds : List Stop) (l : Lookahead) :
    Lookahead.whileEat k more (rounds.map (Stop.keeping keep)) (l.keeping keep) =
      (Lookahead.whileEat k more rounds l).map (keeping keep) := by
  induction rounds generalizing l with
  | nil => rfl
  | cons _ rounds ih =>
    simp only [List.map_cons, Lookahead.whileEat, eat k l]
    cases l.eat k with
    | none => rfl
    | some l =>
      simp only [Option.map_some, h l]
      cases more l with
      | none => rfl
      | some l => exact ih l

theorem eatAll (h : Natural keep more) (k : Kind) : Natural keep (·.eatAll k more) :=
  fun l => h.whileEat k l.ahead l

theorem typeReference (h : Natural keep scan) : Natural keep (typeReference scan) := by
  have hsuffix : Natural keep (·.eatAll (.mark .openBracket) (·.eat (.mark .closeBracket))) :=
    eatAll (eat _) _
  have hnames : Natural keep (·.eatAll (.mark .dot) (·.eat .identifier)) := eatAll (eat _) _
  exact (eat .identifier).bind (hnames.bind (.ite _ (h.bind hsuffix) (stop.bind hsuffix)))

/-- Type arguments in an expression are recognized by the tokens that the grammar sees. -/
theorem typeArguments (n : Nat) : Natural keep (typeArguments n) := by
  induction n with
  | zero =>
    intro l
    rfl
  | succ n ih =>
    have hreference := typeReference ih
    exact (eat _).bind (hreference.bind ((eatAll hreference _).bind (eat _)))

end Natural

end Lookahead

end ScriptFront
