import ScriptFront.Diagnostic
import ScriptFront.Token.Kind

/-!
# Tokens

A token has a kind, a text and the position of its first character. The text of a string or rune is
the value it stands for, the text of a comment what follows its opening, the text of an attribute
what stands between the brackets.
-/

namespace ScriptFront

structure Token where
  kind : Kind
  text : String
  position : Position
deriving DecidableEq, Repr

namespace Token

/-- Whether the token is the identifier `word`. -/
def isWord (t : Token) (word : String) : Bool := t.kind == .identifier && t.text == word

/-- How error messages name the token. -/
def describe (t : Token) : String :=
  if t.kind = .endOfFile then "EOF"
  else if t.text.isEmpty then t.kind.text
  else t.text

/-- The end of a text, at `position`. -/
def endOfFile (position : Position) : Token := ⟨.endOfFile, "", position⟩

end Token

end ScriptFront
