/-!
# Positions in source text

A position names a character by line and column. Both counters are 32 bits wide and count from one.
-/

namespace ScriptFront

/-- The place of a character: its line, and its column counted in characters. -/
structure Position where
  line : UInt32
  column : UInt32
deriving DecidableEq, Repr, Inhabited

namespace Position

/-- The first character of a text. -/
def start : Position := ⟨1, 1⟩

/-- Whether `p` lies on the line just before the line of `q`. -/
def isLineAbove (p q : Position) : Bool := p.line + 1 == q.line

/-- Whether `q` is the place of the character right after the one at `p`, on the same line. -/
def isAdjacentTo (p q : Position) : Bool := p.line == q.line && p.column + 1 == q.column

/-- The place after a character read at `p`: a line feed starts the next line. -/
def advance (p : Position) (c : Char) : Position :=
  if c = '\n' then ⟨p.line + 1, 1⟩ else ⟨p.line, p.column + 1⟩

/-- The place after a run of characters that starts at `p`. -/
def advanceAll (p : Position) (cs : List Char) : Position := cs.foldl advance p

/-- Source order: by line, then by column. -/
def order (p q : Position) : Ordering := (compare p.line q.line).then (compare p.column q.column)

/-- The written form `line:column`. -/
def text (p : Position) : String := toString p.line.toNat ++ ":" ++ toString p.column.toNat

theorem advanceAll_nil (p : Position) : p.advanceAll [] = p := rfl

theorem advanceAll_append (p : Position) (xs ys : List Char) :
    p.advanceAll (xs ++ ys) = (p.advanceAll xs).advanceAll ys := List.foldl_append

end Position

end ScriptFront
