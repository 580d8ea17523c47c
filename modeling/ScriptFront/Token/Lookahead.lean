import ScriptFront.Token.Cursor

/-!
# Looking ahead

A lookahead steps over the tokens from a cursor on and leaves the cursor where it is. It counts the
tokens it has stepped over, so that the cursor can follow later.
-/

namespace ScriptFront

structure Lookahead where
  ahead : List Stop
  last : Stop
  /-- The number of tokens stepped over. -/
  consumed : Nat
deriving DecidableEq, Repr

namespace Lookahead

/-- A lookahead that starts at the current token. -/
def ofCursor (c : Cursor) : Lookahead := ⟨c.ahead, c.last, 0⟩

/-- The token ahead; past the end it is the last one. -/
def peek (l : Lookahead) : Token := (l.ahead.head?.getD l.last).token

/-- Steps over the token ahead if it has the given kind. -/
def eat (l : Lookahead) (k : Kind) : Option Lookahead :=
  if l.peek.kind = k then some { l with ahead := l.ahead.tail, consumed := l.consumed + 1 } else none

/-- As long as a token of kind `k` is ahead, steps over it and over what `more` takes, for at most as
many rounds as the list has elements. -/
def whileEat (k : Kind) (more : Lookahead → Option Lookahead) :
    List Stop → Lookahead → Option Lookahead
  | [], l => some l
  | _ :: rounds, l =>
    match l.eat k with
    | none => some l
    | some l =>
      match more l with
      | none => none
      | some l => whileEat k more rounds l

/-- The same for as many rounds as there are tokens. -/
def eatAll (k : Kind) (more : Lookahead → Option Lookahead) (l : Lookahead) : Option Lookahead :=
  whileEat k more l.ahead l

end Lookahead

end ScriptFront
