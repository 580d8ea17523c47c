import ScriptFront.Production.Expression
import ScriptFront.Proofs.Token.Ahead

/-!
# Flat expressions

A flat expression is written without parentheses: operands, which are names and integers, and binary
operators take turns. `Expr.inorder` reads the pieces of a tree from left to right, and `Flat` says which
pieces a token list stands for.

Behind a name, `<` may open type arguments. In a flat expression it does so only where another name and a
`>` follow: `HasArguments`.
-/

namespace ScriptFront

/-! ## Pieces -/

/-- A piece of an expression. -/
inductive Piece where
  /-- A constant, or a name when there is no kind. -/
  | operand (position : Position) (kind : Option ConstantKind) (text : String)
  | operator (op : BinaryOperator)
  /-- An expression that is neither, and is not looked into. -/
  | other (position : Position)
deriving DecidableEq, Repr

/-- The operands and operators of a tree from left to right. -/
def Expr.inorder : Expr → List Piece
  | binary op left right => left.inorder ++ .operator op :: right.inorder
  | constant position kind value => [.operand position (some kind) value]
  | identifier name => [.operand name.position none name.name]
  | e => [.other e.position]

/-- What a name or an integer is as an operand. -/
def Token.operand? (t : Token) : Option Piece :=
  match t.kind with
  | .identifier => some (.operand t.position none t.text)
  | .int => some (.operand t.position (some .int) t.text)
  | .hex => t.hexValue?.map fun n => .operand t.position (some .int) (toString n)
  | _ => none

/-- The tokens that a binary operator is written with. -/
inductive BinaryOperator.Writes : List Token → BinaryOperator → Prop
  | mark {t : Token} {m : Mark} {op : BinaryOperator} (ht : t.kind = .mark m)
      (hop : ofMark? m = some op) : Writes [t] op
  | shiftRight {s t : Token} (hs : s.kind = .mark .greater) (ht : t.kind = .mark .greater)
      (hadjacent : s.position.isAdjacentTo t.position = true) : Writes [s, t] .shiftRight

/-- What follows the first operand of a flat expression, with its pieces. -/
inductive FlatTail : List Token → List Piece → Prop
  | nil : FlatTail [] []
  | cons {written : List Token} {op : BinaryOperator} {t : Token} {p : Piece} {ts : List Token}
      {ps : List Piece} (hop : op.Writes written) (ht : t.operand? = some p)
      (hrest : FlatTail ts ps) : FlatTail (written ++ t :: ts) (.operator op :: p :: ps)

/-- A flat expression with its pieces. -/
inductive Flat : List Token → List Piece → Prop
  | mk {t : Token} {p : Piece} {ts : List Token} {ps : List Piece} (ht : t.operand? = some p)
      (hrest : FlatTail ts ps) : Flat (t :: ts) (p :: ps)

/-! ## Kinds of tokens -/

/-- Whether the mark of this kind is a binary operator, or the first half of one. -/
def Kind.IsOperator (k : Kind) : Prop := ∃ m op, k = .mark m ∧ BinaryOperator.ofMark? m = some op

/-- Whether a token of this kind is an operand. -/
def Kind.IsOperand (k : Kind) : Prop := k = .identifier ∨ k = .int ∨ k = .hex

theorem Token.isOperand_of_operand? {t : Token} {p : Piece} (h : t.operand? = some p) :
    t.kind.IsOperand := by
  unfold operand? at h
  split at h
  · exact Or.inl ‹_›
  · exact Or.inr (Or.inl ‹_›)
  · exact Or.inr (Or.inr ‹_›)
  · cases h

theorem BinaryOperator.Writes.exists_cons {written : List Token} {op : BinaryOperator}
    (h : op.Writes written) : ∃ t rest, written = t :: rest ∧ t.kind.IsOperator := by
  cases h with
  | mark ht hop => exact ⟨_, _, rfl, _, _, ht, hop⟩
  | shiftRight hs ht hadjacent => exact ⟨_, _, rfl, _, _, hs, rfl⟩

theorem BinaryOperator.Writes.isOperator {written : List Token} {op : BinaryOperator}
    (h : op.Writes written) : ∀ t ∈ written, t.kind.IsOperator := by
  cases h with
  | mark ht hop => simpa using ⟨_, _, ht, hop⟩
  | shiftRight hs ht hadjacent =>
    simp only [List.mem_cons, List.not_mem_nil, or_false, forall_eq_or_imp, forall_eq]
    exact ⟨⟨_, _, hs, rfl⟩, _, _, ht, rfl⟩

theorem Kind.IsOperator.ne_endOfFile {k : Kind} (h : k.IsOperator) : k ≠ .endOfFile := by
  rintro rfl
  obtain ⟨m, op, hm, -⟩ := h
  cases hm

theorem Kind.IsOperand.ne_endOfFile {k : Kind} (h : k.IsOperand) : k ≠ .endOfFile := by
  rintro rfl
  rcases h with h | h | h <;> cases h

theorem Kind.IsOperand.not_isOperator {k : Kind} (h : k.IsOperand) : ¬ k.IsOperator := by
  rintro ⟨m, op, rfl, -⟩
  rcases h with h | h | h <;> cases h

theorem FlatTail.ne_endOfFile {ts : List Token} {ps : List Piece} (h : FlatTail ts ps) :
    ∀ t ∈ ts, t.kind ≠ .endOfFile := by
  induction h with
  | nil => exact fun _ h => absurd h List.not_mem_nil
  | cons hop ht _ ih =>
    intro t hmem
    rcases List.mem_append.1 hmem with hmem | hmem
    · exact (hop.isOperator t hmem).ne_endOfFile
    · rcases List.mem_cons.1 hmem with rfl | hmem
      · exact (Token.isOperand_of_operand? ht).ne_endOfFile
      · exact ih t hmem

theorem FlatTail.isOperator {t : Token} {ts : List Token} {ps : List Piece}
    (h : FlatTail (t :: ts) ps) : t.kind.IsOperator := by
  generalize hall : t :: ts = all at h
  cases h with
  | nil => cases hall
  | cons hop ht hrest =>
    obtain ⟨s, rest, rfl, hs⟩ := hop.exists_cons
    cases hall
    exact hs

/-! ## Type arguments -/

/-- Whether type arguments with one name in them stand here. -/
def StartsArguments : List Token → Prop
  | opening :: argument :: closing :: _ =>
    opening.kind = .mark .less ∧ argument.kind = .identifier ∧ closing.kind = .mark .greater
  | _ => False

/-- Whether a name has such type arguments behind it somewhere. -/
def HasArguments : List Token → Prop
  | [] => False
  | t :: ts => (t.kind = .identifier ∧ StartsArguments ts) ∨ HasArguments ts

instance : DecidablePred StartsArguments := fun ts => by
  unfold StartsArguments
  split <;> infer_instance

instance HasArguments.decidable : DecidablePred HasArguments
  | [] => inferInstanceAs (Decidable False)
  | t :: ts =>
    have := HasArguments.decidable ts
    inferInstanceAs (Decidable ((t.kind = .identifier ∧ StartsArguments ts) ∨ HasArguments ts))

theorem HasArguments.of_suffix {ts us : List Token} (h : HasArguments ts) (hsuffix : ts <:+ us) :
    HasArguments us := by
  obtain ⟨xs, rfl⟩ := hsuffix
  induction xs with
  | nil => exact h
  | cons x xs ih => exact Or.inr ih

/-- Type arguments stand behind a name. -/
theorem HasArguments.exists_name {ts : List Token} (h : HasArguments ts) :
    ∃ t ∈ ts, t.kind = .identifier := by
  induction ts with
  | nil => exact h.elim
  | cons t ts ih =>
    rcases h with ⟨hname, -⟩ | h
    · exact ⟨t, List.mem_cons_self, hname⟩
    · obtain ⟨u, hu, hname⟩ := ih h
      exact ⟨u, List.mem_cons_of_mem t hu, hname⟩

/-- No operator has type arguments behind it. -/
theorem BinaryOperator.Writes.of_hasArguments {written ts : List Token} {op : BinaryOperator}
    (h : op.Writes written) (hargs : HasArguments (written ++ ts)) : HasArguments ts := by
  have hname : ∀ t ∈ written, t.kind ≠ .identifier := fun t ht hkind =>
    Kind.IsOperand.not_isOperator (Or.inl hkind) (h.isOperator t ht)
  clear h
  induction written with
  | nil => exact hargs
  | cons t written ih =>
    rw [List.forall_mem_cons] at hname
    rcases hargs with ⟨ht, -⟩ | hargs
    · exact absurd ht hname.1
    · exact ih hargs hname.2

/-- What can follow in a flat expression behind tokens that were passed over. -/
def FlatRest (ts : List Token) : Prop := ∃ ps, FlatTail ts ps ∨ Flat ts ps

namespace Lookahead

/-- Whether `ts` are the tokens ahead, up to the end of the file. -/
structure At (l : Lookahead) (ts : List Token) : Prop where
  ahead : l.ahead.map (·.token) = ts
  last : l.last.token.kind = .endOfFile

variable {l l' : Lookahead} {t : Token} {ts : List Token} {k : Kind}

namespace At

theorem peek_cons (h : l.At (t :: ts)) : l.peek = t := by
  obtain ⟨s, rest, hahead, hs, -⟩ := List.map_eq_cons_iff.1 h.ahead
  unfold Lookahead.peek
  rw [hahead]
  exact hs

theorem peek_nil (h : l.At []) : l.peek.kind = .endOfFile := by
  unfold Lookahead.peek
  rw [List.map_eq_nil_iff.1 h.ahead]
  exact h.last

theorem eat_cons (h : l.At (t :: ts)) (heat : l.eat k = some l') :
    t.kind = k ∧ l'.At ts ∧ l'.consumed = l.consumed + 1 := by
  unfold Lookahead.eat at heat
  split at heat
  · next hkind =>
    cases heat
    refine ⟨h.peek_cons ▸ hkind, ⟨?_, h.last⟩, rfl⟩
    rw [List.map_tail, h.ahead, List.tail_cons]
  · cases heat

theorem eat_nil (h : l.At []) (heat : l.eat k = some l') : k = .endOfFile := by
  unfold Lookahead.eat at heat
  split at heat
  · next hkind => rw [← hkind, h.peek_nil]
  · cases heat

theorem exists_eat (h : l.At (t :: ts)) (ht : t.kind = k) : ∃ l', l.eat k = some l' ∧ l'.At ts := by
  unfold Lookahead.eat
  rw [h.peek_cons, if_pos ht]
  refine ⟨_, rfl, ?_, h.last⟩
  rw [List.map_tail, h.ahead, List.tail_cons]

/-- In a flat expression a lookahead sees operands, operators and the end. -/
theorem peek_flat (h : l.At ts) (hts : FlatRest ts) :
    l.peek.kind = .endOfFile ∨ l.peek.kind.IsOperator ∨ l.peek.kind.IsOperand := by
  obtain ⟨ps, htail | hflat⟩ := hts
  · cases ts with
    | nil => exact Or.inl h.peek_nil
    | cons t ts =>
      rw [h.peek_cons]
      exact Or.inr (Or.inl htail.isOperator)
  · obtain ⟨ht, -⟩ := hflat
    rw [h.peek_cons]
    exact Or.inr (Or.inr (Token.isOperand_of_operand? ht))

end At

theorem eatAll_of_ne {more : Lookahead → Option Lookahead} (h : l.peek.kind ≠ k) :
    l.eatAll k more = some l := by
  unfold eatAll
  cases hrounds : l.ahead with
  | nil => rfl
  | cons s rounds =>
    unfold whileEat eat
    rw [if_neg h]

/-- The marks of types that are no operators. -/
theorem At.peek_ne (h : l.At ts) (hts : FlatRest ts) {m : Mark}
    (hm : BinaryOperator.ofMark? m = none) : l.peek.kind ≠ .mark m := by
  intro hpeek
  rcases h.peek_flat hts with h | h | h
  · cases hpeek.symm.trans h
  · obtain ⟨m', op, hm', hop⟩ := h
    cases hpeek.symm.trans hm'
    cases hm.symm.trans hop
  · rcases h with h | h | h <;> cases hpeek.symm.trans h

end Lookahead

/-! What stands behind an operator, and behind the first half of a right shift. -/

theorem FlatTail.behind_less {t : Token} {ts : List Token} {ps : List Piece}
    (h : FlatTail (t :: ts) ps) (ht : t.kind = .mark .less) :
    ∃ u p us qs, ts = u :: us ∧ u.operand? = some p ∧ FlatTail us qs := by
  generalize hall : t :: ts = all at h
  cases h with
  | nil => cases hall
  | cons hop hu hrest =>
    cases hop with
    | mark => cases hall; exact ⟨_, _, _, _, rfl, hu, hrest⟩
    | shiftRight hs => cases hall; cases ht.symm.trans hs

theorem FlatTail.tail {t : Token} {ts : List Token} {ps : List Piece} (h : FlatTail (t :: ts) ps) :
    FlatRest ts := by
  generalize hall : t :: ts = all at h
  cases h with
  | nil => cases hall
  | cons hop hu hrest =>
    cases hop with
    | mark => cases hall; exact ⟨_, Or.inr ⟨hu, hrest⟩⟩
    | shiftRight _ hgreater =>
      cases hall
      exact ⟨_, Or.inl (.cons (.mark hgreater rfl) hu hrest)⟩

theorem FlatRest.behind_greater {t : Token} {ts : List Token} (h : FlatRest (t :: ts))
    (ht : t.kind = .mark .greater) : FlatRest ts := by
  obtain ⟨ps, htail | hflat⟩ := h
  · exact htail.tail
  · obtain ⟨hoperand, -⟩ := hflat
    exact absurd ⟨_, _, ht, rfl⟩ (Token.isOperand_of_operand? hoperand).not_isOperator

namespace Lookahead

variable {l l' : Lookahead} {ts : List Token}

/-- How a scan for type arguments ends that has found some from the tokens `ts` on. -/
structure Found (l : Lookahead) (ts : List Token) (l' : Lookahead) (us : List Token) : Prop where
  at_rest : l'.At us
  rest : FlatRest us
  consumed : l'.consumed + us.length = l.consumed + ts.length
  suffix : us <:+ ts

/-- A reference is a name and the type arguments that are found behind it. -/
theorem typeReference_flat {arguments : Lookahead → Option Lookahead} {t : Token} {ps : List Piece}
    (hl : l.At (t :: ts)) (hts : FlatTail ts ps)
    (harguments : ∀ {l₁ l₂ : Lookahead}, l₁.At ts → arguments l₁ = some l₂ →
      ∃ us, l₂.At us ∧ FlatRest us)
    (h : l.typeReference arguments = some l') :
    t.kind = .identifier ∧ ∃ l₁, l₁.At ts ∧ l₁.consumed = l.consumed + 1 ∧
      (l' = l₁ ∨ arguments l₁ = some l') := by
  unfold typeReference at h
  obtain ⟨l₁, hname, h⟩ := Option.bind_eq_some_iff.1 h
  obtain ⟨hkind, hl₁, hconsumed⟩ := hl.eat_cons hname
  refine ⟨hkind, l₁, hl₁, hconsumed, ?_⟩
  rw [eatAll_of_ne (hl₁.peek_ne ⟨ps, Or.inl hts⟩ rfl)] at h
  simp only [Option.bind_eq_bind, Option.bind_some] at h
  split at h
  · obtain ⟨l₂, harg, h⟩ := Option.bind_eq_some_iff.1 h
    obtain ⟨us, hl₂, hus⟩ := harguments hl₁ harg
    rw [eatAll_of_ne (hl₂.peek_ne hus rfl)] at h
    cases h
    exact Or.inr harg
  · rw [eatAll_of_ne (hl₁.peek_ne ⟨ps, Or.inl hts⟩ rfl)] at h
    cases h
    exact Or.inl rfl

/-- Whatever a scan finds in a flat expression has a name alone in it innermost. -/
theorem typeArguments_flat {n : Nat} {ps : List Piece} (hl : l.At ts) (hts : FlatTail ts ps)
    (h : l.typeArguments n = some l') :
    ∃ us, Found l ts l' us ∧ us.length + 3 ≤ ts.length ∧ (StartsArguments ts ∨ HasArguments ts) := by
  induction n generalizing l l' ts ps with
  | zero => cases h
  | succ n ih =>
    unfold typeArguments at h
    obtain ⟨l₁, h₁, h⟩ := Option.bind_eq_some_iff.1 h
    obtain ⟨l₂, h₂, h⟩ := Option.bind_eq_some_iff.1 h
    obtain ⟨l₃, h₃, h₄⟩ := Option.bind_eq_some_iff.1 h
    cases ts with
    | nil => cases hl.eat_nil h₁
    | cons opening ts =>
      obtain ⟨hopening, hl₁, hc₁⟩ := hl.eat_cons h₁
      obtain ⟨argument, p, ts, qs, rfl, -, hts⟩ := hts.behind_less hopening
      obtain ⟨hargument, l₀, hl₀, hc₀, h₂⟩ := typeReference_flat hl₁ hts
        (fun hl₁ h₁ => (ih hl₁ hts h₁).imp fun _ h => ⟨h.1.at_rest, h.1.rest⟩) h₂
      rcases h₂ with rfl | h₂
      · -- The name stands alone, and the scan goes on to the closing mark.
        rw [eatAll_of_ne (hl₀.peek_ne ⟨qs, Or.inl hts⟩ rfl)] at h₃
        cases h₃
        cases ts with
        | nil => cases hl₀.eat_nil h₄
        | cons closing ts =>
          obtain ⟨hclosing, hl₄, hc₄⟩ := hl₀.eat_cons h₄
          refine ⟨ts, ⟨hl₄, hts.tail, ?_, ?_⟩, ?_, Or.inl ?_⟩
          · simp only [List.length_cons]
            omega
          · exact ⟨[opening, argument, closing], rfl⟩
          · simp
          · exact ⟨hopening, hargument, hclosing⟩
      · obtain ⟨us, hfound, hlength, hinner⟩ := ih hl₀ hts h₂
        rw [eatAll_of_ne (hfound.at_rest.peek_ne hfound.rest rfl)] at h₃
        cases h₃
        cases us with
        | nil => cases hfound.at_rest.eat_nil h₄
        | cons closing us =>
          obtain ⟨hclosing, hl₄, hc₄⟩ := hfound.at_rest.eat_cons h₄
          have hconsumed := hfound.consumed
          simp only [List.length_cons] at hconsumed hlength
          refine ⟨us, ⟨hl₄, hfound.rest.behind_greater hclosing, ?_, ?_⟩, ?_, Or.inr ?_⟩
          · simp only [List.length_cons]
            omega
          · exact (List.suffix_cons closing us).trans
              (hfound.suffix.trans ⟨[opening, argument], rfl⟩)
          · simp only [List.length_cons]
            omega
          · rcases hinner with hstarts | hhas
            · exact Or.inr (Or.inl ⟨hargument, hstarts⟩)
            · exact hhas.of_suffix ⟨[opening, argument], rfl⟩

/-- A name alone between the marks is always found. -/
theorem typeArguments_of_starts (hl : l.At ts) (h : StartsArguments ts) (n : Nat) :
    ∃ l', l.typeArguments (n + 1) = some l' := by
  unfold StartsArguments at h
  split at h
  case h_2 => exact h.elim
  obtain ⟨hopening, hargument, hclosing⟩ := h
  obtain ⟨l₁, h₁, hl₁⟩ := hl.exists_eat hopening
  obtain ⟨l₂, h₂, hl₂⟩ := hl₁.exists_eat hargument
  obtain ⟨l₃, h₃, -⟩ := hl₂.exists_eat hclosing
  have hpeek : ∀ m, m ≠ .greater → l₂.peek.kind ≠ .mark m := by
    intro m hm hkind
    rw [hl₂.peek_cons, hclosing] at hkind
    cases hkind
    exact hm rfl
  refine ⟨l₃, ?_⟩
  unfold typeArguments typeReference
  rw [h₁]
  simp only [Option.bind_eq_bind, Option.bind_some, h₂]
  rw [eatAll_of_ne (hpeek _ (by decide))]
  simp only [Option.bind_some]
  rw [if_neg (hpeek _ (by decide))]
  rw [eatAll_of_ne (hpeek _ (by decide))]
  simp only [Option.bind_some]
  rw [eatAll_of_ne (hpeek _ (by decide))]
  exact h₃

end Lookahead

end ScriptFront
