import ScriptFront.Token.Lexeme

/-!
# Source text as tokens

`prepare` brings a source into the form that is read: everything from the ignore marker on is cut off
and carriage returns are dropped. `tokenize` then splits it into its tokens, comments included; the
last one is the end of the file.
-/

namespace ScriptFront.Source

/-- Everything from this marker on is ignored. -/
def ignoreMarker : List Char := "//ts:ignore".toList

def beforeMarker : List Char → List Char
  | [] => []
  | c :: cs => if ignoreMarker.isPrefixOf (c :: cs) then [] else c :: beforeMarker cs

def prepare (s : String) : String :=
  String.ofList ((beforeMarker s.toList).filter (· ≠ '\r'))

/-- The blank characters between tokens. -/
def isBlank (c : Char) : Bool := c == ' ' || c == '\t' || c == '\r' || c == '\n'

/-- The tokens of `cs`, which start at `p`, after those in `before`, backwards. The first number
bounds the number of tokens. -/
def tokensFrom : Nat → List Char → Position → List Token → Except Error (List Token)
  | 0, _, p, _ => .error ⟨.stalled, p⟩
  | fuel + 1, cs, p, before =>
    let blanks := cs.takeWhile isBlank
    let cs := cs.drop blanks.length
    let p := p.advanceAll blanks
    match Lexeme.atStart cs with
    | .error cause => .error ⟨cause, p⟩
    | .ok l =>
      let before := ⟨l.kind, l.text, p⟩ :: before
      if l.kind = .endOfFile then .ok before.reverse
      else tokensFrom fuel (cs.drop l.length) (p.advanceAll (cs.take l.length)) before

/-- Each lexeme but the last has a character, so there is one token more than characters at most. -/
def tokenize (s : String) : Except Error (List Token) :=
  tokensFrom (s.toList.length + 1) s.toList .start []

end ScriptFront.Source
