import ScriptFront.Production.Repetition
import ScriptFront.Tree

/-!
# Recursive productions

The productions that lead back to themselves. A production that needs one of them takes it from a
`Grammar`, so each is a plain function of the grammar of what stands inside it. `Grammar.ofDepth` ties
the knot as often as there are tokens to read: whoever goes back to the grammar has read a token
before.
-/

namespace ScriptFront

structure Grammar where
  /-- Any expression, arrow functions included. -/
  value : Production Expr
  /-- An expression that is no arrow function. -/
  expression : Production Expr
  /-- Operands joined by operators of at least the given level. -/
  binary : Level → Production Expr
  /-- An operand with the operators in front of it. -/
  unary : Production Expr
  block : Production Block
  /-- A statement in a block, or nothing when it is a declaration of a type. -/
  item : Production (Option Stmt)
  /-- A type, which is read and dropped. -/
  type : Production Unit
  /-- The type of a variable or of a result, if there is one. -/
  ascription : Production Unit
  /-- The types that an operand is taken as. -/
  casts : Production Unit

namespace Grammar

/-- The grammar at the bottom, which reads nothing. -/
def empty : Grammar :=
  let stop {α : Type} : Production α := do Production.fail .stalled (← Production.peek).position
  ⟨stop, stop, fun _ => stop, stop, stop, stop, stop, stop, stop⟩

end Grammar

end ScriptFront
