import ScriptFront.Token.Kind

/-!
# Operators

The operators of expressions and how tightly the binary ones bind. Every binary operator groups to the
left. The right shift has no mark of its own: it is written as two adjacent `>`.
-/

namespace ScriptFront

/-- How tightly an operator binds, loosest first. -/
inductive Level where
  | logical
  | relational
  | additive
  | multiplicative
  /-- Operators in front of their operand; no binary operator binds this tightly. -/
  | unary
deriving DecidableEq, Repr

namespace Level

def rank : Level → Nat
  | logical => 0
  | relational => 1
  | additive => 2
  | multiplicative => 3
  | unary => 4

/-- The next tighter level, which the right operand of an operator must have at least. -/
def tighter : Level → Level
  | logical => relational
  | relational => additive
  | additive => multiplicative
  | multiplicative | unary => unary

end Level

inductive BinaryOperator where
  | add | sub | mul | div | mod | exp | shiftLeft | shiftRight
  | bitAnd | bitOr | bitXor | logicalAnd | logicalOr | nullish
  | eq | notEq | strictEq | strictNotEq | less | lessEq | greater | greaterEq
deriving DecidableEq, Repr

namespace BinaryOperator

def text : BinaryOperator → String
  | add => "+" | sub => "-" | mul => "*" | div => "/" | mod => "%" | exp => "**"
  | shiftLeft => "<<" | shiftRight => ">>"
  | bitAnd => "&" | bitOr => "|" | bitXor => "^"
  | logicalAnd => "&&" | logicalOr => "||" | nullish => "??"
  | eq => "==" | notEq => "!=" | strictEq => "===" | strictNotEq => "!=="
  | less => "<" | lessEq => "<=" | greater => ">" | greaterEq => ">="

def level : BinaryOperator → Level
  | logicalOr | nullish | logicalAnd => .logical
  | eq | notEq | strictEq | strictNotEq | less | lessEq | greater | greaterEq
  | bitAnd | bitXor | bitOr => .relational
  | add | sub | shiftLeft | shiftRight => .additive
  | mul | div | mod | exp => .multiplicative

/-- The operator that a single mark stands for. -/
def ofMark? : Mark → Option BinaryOperator
  | .barBar => logicalOr
  | .questionQuestion => nullish
  | .andAnd => logicalAnd
  | .equalsEquals => eq
  | .exclamationEquals => notEq
  | .equalsEqualsEquals => strictEq
  | .exclamationEqualsEquals => strictNotEq
  | .less => less
  | .lessEquals => lessEq
  | .greater => greater
  | .greaterEquals => greaterEq
  | .ampersand => bitAnd
  | .caret => bitXor
  | .bar => bitOr
  | .plus => add
  | .minus => sub
  | .shiftLeft => shiftLeft
  | .star => mul
  | .slash => div
  | .percent => mod
  | .starStar => exp
  | _ => none

/-- The operator that a compound assignment applies before it assigns. -/
def ofAssignment? : Mark → Option BinaryOperator
  | .plusEquals => add
  | .minusEquals => sub
  | .starEquals => mul
  | .slashEquals => div
  | .percentEquals => mod
  | .barEquals => bitOr
  | .caretEquals => bitXor
  | _ => none

end BinaryOperator

/-- The operators in front of their operand. -/
inductive UnaryOperator where
  | plus | minus | bitNot | not
deriving DecidableEq, Repr

namespace UnaryOperator

def ofMark? : Mark → Option UnaryOperator
  | .plus => plus
  | .minus => minus
  | .tilde => bitNot
  | .exclamation => not
  | _ => none

end UnaryOperator

/-- The operators that change a place by one. -/
inductive StepOperator where
  | increment | decrement
deriving DecidableEq, Repr

namespace StepOperator

def ofMark? : Mark → Option StepOperator
  | .plusPlus => increment
  | .minusMinus => decrement
  | _ => none

end StepOperator

end ScriptFront
