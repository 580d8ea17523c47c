import ScriptFront.Token

/-!
# A place in a token list

A cursor is the unread rest of a token list. The tokens that the grammar sees stand in `ahead`, each
together with the comments and attributes right before it; the end of the file stands apart, so
that there is always a token to look at. Everything passes over comments and attributes except
`nextAttribute`, which takes the attributes before the current token one by one.
-/

namespace ScriptFront

/-- A token that the grammar sees, with the comments and attributes between it and the one before. -/
structure Stop where
  leading : List Token
  token : Token
deriving DecidableEq, Repr

namespace Stop

/-- The tokens of a stop in source order. -/
def tokens (s : Stop) : List Token := s.leading ++ [s.token]

/-- A token in front of a sequence of stops. Comments with nothing behind them are left out. -/
def cons (t : Token) (stops : List Stop) : List Stop :=
  if t.kind.isComment then
    match stops with
    | [] => []
    | s :: rest => { s with leading := t :: s.leading } :: rest
  else ⟨[], t⟩ :: stops

end Stop

/-- The unread part of a token list. -/
structure Cursor where
  ahead : List Stop
  /-- The token that ends the list. -/
  last : Stop
deriving DecidableEq, Repr

namespace Cursor

/-- The list with an end of file behind it unless it has one. -/
def closed (tokens : List Token) : List Token :=
  match tokens.getLast? with
  | none => [.endOfFile .start]
  | some t => if t.kind = .endOfFile then tokens else tokens ++ [.endOfFile t.position]

/-- A cursor before the first token of the list. -/
def ofTokens (tokens : List Token) : Cursor :=
  let stops := (closed tokens).foldr Stop.cons []
  ⟨stops.dropLast, stops.getLast?.getD ⟨[], .endOfFile .start⟩⟩

/-- The unread tokens in source order. -/
def tokens (c : Cursor) : List Token := c.ahead.flatMap Stop.tokens ++ c.last.tokens

/-- How many tokens there are before the last one. -/
def remaining (c : Cursor) : Nat := c.ahead.length

/-! ## Looking -/

/-- The `n`th token from here, counting from zero; past the end it is the last one. -/
def peekNth (c : Cursor) (n : Nat) : Token := (c.ahead[n]?.getD c.last).token

def peek (c : Cursor) : Token := c.peekNth 0

def peekKind (c : Cursor) : Kind := c.peek.kind

def isAt (c : Cursor) (k : Kind) : Bool := c.peekKind == k

/-! ## Reading -/

/-- Behind the current token. No token is read past the end of the file, wherever it stands. -/
def next (c : Cursor) : Cursor :=
  match c.ahead with
  | [] => c
  | s :: rest => if s.token.kind = .endOfFile then c else { c with ahead := rest }

/-- Splits the first attribute off a run of comments and attributes. -/
def splitAttribute : List Token → Option (Token × List Token)
  | [] => none
  | t :: ts => if t.kind = .attribute then some (t, ts) else splitAttribute ts

/-- Takes the next attribute before the current token. -/
def nextAttribute (c : Cursor) : Option (Token × Cursor) :=
  match c.ahead with
  | [] => (splitAttribute c.last.leading).map fun (t, ts) =>
      (t, { c with last := { c.last with leading := ts } })
  | s :: rest => (splitAttribute s.leading).map fun (t, ts) =>
      (t, { c with ahead := { s with leading := ts } :: rest })

/-- Reads the current token if it has the given kind. -/
def optional (c : Cursor) (k : Kind) : Option (Token × Cursor) :=
  if c.isAt k then some (c.peek, c.next) else none

/-- Reads a token of the given kind, or says what stands there instead. -/
def accept (c : Cursor) (k : Kind) : Except Error (Token × Cursor) :=
  match c.optional k with
  | some r => .ok r
  | none => .error ⟨.expecting k.text c.peek.describe, c.peek.position⟩

/-- Reads tokens of the given kind, at most `n` of them. -/
def ignoreOptional (c : Cursor) (k : Kind) : Nat → Cursor
  | 0 => c
  | n + 1 =>
    match c.optional k with
    | none => c
    | some (_, c) => c.ignoreOptional k n

/-- Reads `n` tokens. -/
def advance (c : Cursor) : Nat → Cursor
  | 0 => c
  | n + 1 => c.next.advance n

end Cursor

end ScriptFront
