import ScriptFront.Proofs.Erasure.Avoiding
import ScriptFront.Proofs.Production.Composed

/-!
# Grammars that answer less

A grammar is below another one if it reads the same types and each of its productions answers only what the
production of the other grammar answers, and with the same result. Every production that is put together
from a grammar is monotonic in it. The grammar that avoids a slot is below the grammar.
-/

namespace ScriptFront

namespace Production

variable {α β σ : Type}

/-- Whether a production answers only what another one answers. -/
def Below (q p : Production α) : Prop :=
  ∀ ⦃ctx : Context⦄ ⦃c : Cursor⦄ ⦃r : α × Cursor⦄, q ctx c = .ok r → p ctx c = .ok r

namespace Below

variable {p q : Production α}

theorem refl (p : Production α) : p.Below p := fun _ _ _ h => h

theorem of_eq (h : q = p) : q.Below p := h ▸ refl q

theorem bind {f f' : α → Production β} (hp : q.Below p) (hf : ∀ a, (f a).Below (f' a)) :
    (q >>= f).Below (p >>= f') := by
  intro ctx c r h
  obtain ⟨a, d, hq, hrest⟩ := bind_ok.1 h
  exact bind_ok.2 ⟨a, d, hp hq, hf a hrest⟩

theorem nested (hp : q.Below p) : (nested q).Below (nested p) := by
  intro ctx c r h
  unfold Production.nested at h ⊢
  split at h
  · cases h
  · next hdepth =>
    rw [if_neg hdepth]
    exact hp h

theorem loop {step step' : σ → Production (Turn σ β)} (h : ∀ s, (step s).Below (step' s)) (s : σ) :
    (loop step s).Below (loop step' s) := by
  have hrounds (rounds : List Stop) (s : σ) : (loopFrom step rounds s).Below (loopFrom step' rounds s) := by
    induction rounds generalizing s with
    | nil => exact refl _
    | cons stop rounds ih =>
      refine bind (h s) fun t => ?_
      cases t with
      | again s => exact ih s
      | done b => exact refl _
  exact fun ctx c r hr => hrounds _ s hr

theorem refuse (s : Slot) (h : q.Below p) : (s.refuse q).Below p := by
  intro ctx c r hr
  unfold Slot.refuse at hr
  split at hr
  · cases hr
  · exact h hr

theorem behind (s : Slot) (ws : List String) (h : q.Below p) : (s.behind ws p q).Below p := by
  intro ctx c r hr
  unfold Slot.behind at hr
  split at hr
  · exact hr
  · exact h hr

end Below

end Production

namespace Grammar

open Production

/-- Whether a grammar reads the same types as another one and answers only what the other one answers. -/
structure Below (gq g : Grammar) : Prop where
  value : gq.value.Below g.value
  expression : gq.expression.Below g.expression
  binary : ∀ least, (gq.binary least).Below (g.binary least)
  unary : gq.unary.Below g.unary
  block : gq.block.Below g.block
  item : gq.item.Below g.item
  type : gq.type = g.type
  ascription : gq.ascription.Below g.ascription
  casts : gq.casts.Below g.casts

end Grammar

namespace Production

variable {α β σ : Type}

/-- Whether a production answers with a grammar only what it answers with every grammar above it. -/
def Monotonic (p : Grammar → Production α) : Prop :=
  ∀ ⦃gq g : Grammar⦄, gq.Below g → (p gq).Below (p g)

namespace Monotonic

theorem const (p : Production α) : Monotonic fun _ => p := fun _ _ _ => .refl p

theorem typed (p : Production Unit → Production α) : Monotonic fun g => p g.type :=
  fun _ _ h => .of_eq (congrArg p h.type)

theorem bind {p : Grammar → Production α} {f : Grammar → α → Production β} (hp : Monotonic p)
    (hf : ∀ a, Monotonic fun g => f g a) : Monotonic fun g => p g >>= f g :=
  fun _ _ h => .bind (hp h) fun a => hf a h

theorem ite {c : Prop} [Decidable c] {p q : Grammar → Production α} (hp : Monotonic p) (hq : Monotonic q) :
    Monotonic fun g => if c then p g else q g := by
  split
  · exact hp
  · exact hq

theorem map {p : Grammar → Production α} (f : α → β) (hp : Monotonic p) : Monotonic fun g => f <$> p g :=
  .bind hp fun a => .const (pure (f a))

/-! The productions that ask for a type. -/

theorem variableDeclaration (isConst : Bool) : Monotonic (·.variableDeclaration isConst) := by
  unfold Grammar.variableDeclaration
  dsimp only
  exact .bind (.const _) fun name => .bind (.const _) fun _ => .bind (fun _ _ h => h.ascription) fun _ =>
    .bind (.const _) fun hasValue => .ite (.bind (fun _ _ h => h.value) fun value => .const _) (.const _)

theorem parameterRound (fields : List Parameter) : Monotonic (·.parameterRound fields) := by
  unfold Grammar.parameterRound
  dsimp only
  refine .bind (.const _) fun variadic => .bind (.const _) fun named => .ite (.const _) ?_
  exact .bind (.const _) fun name => .bind (.const _) fun optional =>
    .bind (fun _ _ h => h.ascription) fun _ => .const _

theorem functionRest (h : Monotonic (·.parameters)) : Monotonic (·.functionRest) := by
  unfold Grammar.functionRest
  exact .bind (.typed _) fun _ => .bind h fun ps => .bind (fun _ _ h => h.ascription) fun _ =>
    .map _ fun _ _ h => h.block

theorem catchClause (keyword : Token) : Monotonic (·.catchClause keyword) := by
  unfold Grammar.catchClause
  dsimp only
  refine .bind (.const _) fun hasName => .ite ?_ ?_
  · exact .bind (.const _) fun name => .bind (fun _ _ h => h.ascription) fun _ => .bind (.const _) fun _ =>
      .bind (.const _) fun binding => .map _ fun _ _ h => h.block
  · exact .bind (.const _) fun binding => .map _ fun _ _ h => h.block

theorem globalDeclaration (h : Monotonic (·.variableStatement)) : Monotonic (·.globalDeclaration) := by
  have htyped : Monotonic fun g => (do
      discard next
      discard identifier
      g.ascription
      semicolon
      return none : Production (Option Stmt)) :=
    .bind (.const _) fun _ => .bind (.const _) fun _ => .bind (fun _ _ h => h.ascription) fun _ => .const _
  unfold Grammar.globalDeclaration
  refine .bind (.const _) fun k => ?_
  split
  · exact .const _
  · exact .bind h fun _ => .const _
  · exact htyped
  · exact htyped
  · exact .bind (.typed _) fun _ => .const _
  · exact .bind (.typed _) fun _ => .const _
  · exact .bind (.const _) fun _ => .ite (.bind (.typed _) fun _ => .const _) (.const _)

theorem operand (h : Monotonic (·.postfixExpression)) : Monotonic (·.operand) := by
  unfold Grammar.operand
  exact .bind h fun e => .bind (fun _ _ h => h.casts) fun _ => .const _

end Monotonic

/-- What is put together from the productions of a grammar is monotonic in it. -/
theorem Composed.monotonic {p : Grammar → Production α} (h : Composed p) : Monotonic p := by
  induction h with
  | const p => exact .const p
  | typed p => exact .typed p
  | value => exact fun _ _ h => h.value
  | expression => exact fun _ _ h => h.expression
  | binary least => exact fun _ _ h => h.binary least
  | unary => exact fun _ _ h => h.unary
  | block => exact fun _ _ h => h.block
  | item => exact fun _ _ h => h.item
  | bind _ _ hp hf => exact .bind hp hf
  | nested _ hp => exact fun _ _ h => .nested (hp h)
  | loop _ s hstep => exact fun _ _ h => .loop (fun s => hstep s h) s
  | «variable» isConst => exact .variableDeclaration isConst
  | parameter fields => exact .parameterRound fields
  | result _ h => exact .functionRest h
  | caught keyword => exact .catchClause keyword
  | global _ h => exact .globalDeclaration h
  | operand _ h => exact .operand h

end Production

namespace Grammar

open Production

/-- The avoiding grammar answers only what the grammar answers. -/
theorem avoiding_below (s : Slot) (n : Nat) : (avoiding s n).Below (ofDepth n) := by
  induction n with
  | zero => exact ⟨.refl _, .refl _, fun _ => .refl _, .refl _, .refl _, .refl _, rfl, .refl _, .refl _⟩
  | succ n ih =>
    have hascription : (ascribedType (avoiding s n).type).Below (ascribedType (ofDepth n).type) :=
      .of_eq (congrArg ascribedType ih.type)
    have hcasts : (asTypes (avoiding s n).type).Below (asTypes (ofDepth n).type) :=
      .of_eq (congrArg asTypes ih.type)
    rw [ofDepth_succ]
    exact {
      value := Composed.valueExpression.monotonic ih
      expression := Composed.conditional.monotonic ih
      binary := fun least => (Composed.binaryExpression least).monotonic ih
      unary := Composed.unaryExpression.monotonic ih
      block := Composed.blockBody.monotonic ih
      item := .behind s _ (Composed.blockItem.monotonic ih)
      type := congrArg unionType ih.type
      ascription := by
        show Production.Below (if s.cast then _ else _) _
        split
        · exact hascription
        · exact .refuse s hascription
      casts := by
        show Production.Below (if s.cast then _ else _) _
        split
        · exact .refuse s hcasts
        · exact hcasts }

end Grammar

end ScriptFront
