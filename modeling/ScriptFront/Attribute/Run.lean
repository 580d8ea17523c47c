import ScriptFront.Token

/-!
# Attributes of a file

Attributes on consecutive lines form a run. A run that ends right above a function or a class belongs
to it; a run that stands apart belongs to the file. Right above anything else a run is an error, unless
nothing comes before it in the file.
-/

namespace ScriptFront

/-- The attributes met so far that belong to no declaration yet. -/
structure AttributeRun where
  /-- The current run, backwards. -/
  run : List Token
  /-- The texts that belong to the file. -/
  ofFile : List String
deriving DecidableEq, Repr

namespace AttributeRun

def empty : AttributeRun := ⟨[], []⟩

/-- The texts of the current run in source order. -/
def texts (r : AttributeRun) : List String := r.run.reverse.map Token.text

/-- Leaves the current run to the file. -/
def flush (r : AttributeRun) : AttributeRun := ⟨[], r.ofFile ++ r.texts⟩

/-- Whether the run ends on the line above `p`. -/
def isAbove (r : AttributeRun) (p : Position) : Bool :=
  match r.run with
  | [] => false
  | t :: _ => t.position.isLineAbove p

/-- Adds an attribute. If its line does not follow the last one, it starts a run of its own. -/
def push (r : AttributeRun) (t : Token) : AttributeRun :=
  let r := if r.isAbove t.position then r else r.flush
  { r with run := t :: r.run }

/-- The attributes of a function or class that starts at `p`. -/
def takeFor (r : AttributeRun) (p : Position) : List String × AttributeRun :=
  if r.isAbove p then (r.texts, { r with run := [] }) else ([], r.flush)

/-- The attributes before anything else that starts at `p`; `started` tells whether something comes
before them. -/
def settle (r : AttributeRun) (p : Position) (started : Bool) : Except Error AttributeRun :=
  match r.run.getLast? with
  | some first =>
    if started && r.isAbove p then .error ⟨.invalidAttribute, first.position⟩ else .ok r.flush
  | none => .ok r.flush

end AttributeRun

end ScriptFront
