import ScriptFront.Text.Blank
import ScriptFront.Text.Identifier
import ScriptFront.Text.Integer
import ScriptFront.Token

/-!
# Lexemes

`Lexeme.atStart` reads the lexeme that a character sequence starts with: an identifier or keyword, a
number, a string, a comment, or the longest mark. A lexeme knows how many characters it spans, which
its text does not show: separators between digits, quotes and escapes leave no trace there.
-/

namespace ScriptFront

/-- A token before its position is known. -/
structure Lexeme where
  kind : Kind
  text : String
  /-- The number of characters it spans. -/
  length : Nat
deriving DecidableEq, Repr

namespace Lexeme

/-! ## Words and numbers -/

/-- An identifier or a keyword. -/
def word (cs : List Char) : Lexeme :=
  let run := cs.takeWhile Text.isIdentifierPart
  let text := String.ofList run
  match Keyword.ofText? text with
  | some k => ⟨.keyword k, text, run.length⟩
  | none => ⟨.identifier, text, run.length⟩

/-- Digits and the separators that may stand after them. -/
def isDigitOrGap (c : Char) : Bool := c.isDigit || c == '_'

/-- The leading run of digits and separators. -/
def digitRun (cs : List Char) : List Char := cs.takeWhile isDigitOrGap

/-- A decimal number. A point belongs to it unless another point follows, and needs a digit behind
it. -/
def decimal (cs : List Char) : Except Cause Lexeme :=
  let run := digitRun cs
  let digits := run.filter Char.isDigit
  match cs.drop run.length with
  | '.' :: rest =>
    match rest with
    | '.' :: _ => .ok ⟨.int, String.ofList digits, run.length⟩
    | c :: _ =>
      if c.isDigit then
        let fraction := digitRun rest
        .ok ⟨.float, String.ofList (digits ++ '.' :: fraction.filter Char.isDigit),
          run.length + 1 + fraction.length⟩
      else .error .invalidNumber
    | [] => .error .invalidNumber
  | _ => .ok ⟨.int, String.ofList digits, run.length⟩

def isHexDigit (c : Char) : Bool := (Text.digitValue 16 c).isSome

/-- A hexadecimal number; `rest` comes after its `0x`. No letter may follow it. -/
def hexadecimal (rest : List Char) : Except Cause Lexeme :=
  let run := rest.takeWhile isHexDigit
  if run.isEmpty || ((rest.drop run.length).head?.any Char.isAlpha) then .error .invalidHexNumber
  else .ok ⟨.hex, String.ofList ('0' :: 'x' :: run), 2 + run.length⟩

def number (cs : List Char) : Except Cause Lexeme :=
  match cs with
  | '0' :: 'x' :: rest | '0' :: 'X' :: rest => hexadecimal rest
  | _ => decimal cs

/-! ## Strings -/

/-- What the characters after a backslash stand for, and how many of them belong to the escape. An
escape that is not known stands for itself. -/
def escape : List Char → Except Cause (List Char × Nat)
  | [] => .error .unterminatedString
  | 't' :: _ => .ok (['\t'], 1)
  | 'n' :: _ => .ok (['\n'], 1)
  | 'r' :: _ => .ok (['\r'], 1)
  | '\x27' :: _ => .ok (['\x27'], 1)
  | '\x22' :: _ => .ok (['\x22'], 1)
  | '\\' :: _ => .ok (['\\'], 1)
  | 'x' :: rest =>
    let digits := rest.take 2
    match Text.readUnsigned 16 digits with
    | some v => .ok ([Char.ofNat v], 1 + digits.length)
    | none => .error .invalidHexEscape
  | c :: rest =>
    if c.isDigit then
      let digits := c :: rest.take 2
      match Text.readDigits 8 digits with
      | some v =>
        if digits.length = 3 ∧ v < 256 then .ok ([Char.ofNat v], 3) else .error .invalidOctalEscape
      | none => .error .invalidOctalEscape
    else .ok (['\\', c], 1)

/-- The value of a string up to its closing quote, and how many characters lead there with the quote
included. `text` is the value so far, backwards, and `n` counts the characters behind it. The first
number bounds the characters ahead. -/
def quotedFrom (quote : Char) : Nat → List Char → List Char → Nat → Except Cause (List Char × Nat)
  | 0, _, _, _ => .error .unterminatedString
  | _ + 1, [], _, _ => .error .unterminatedString
  | fuel + 1, c :: cs, text, n =>
    if c = '\n' then .error .unterminatedString
    else if c = quote then .ok (text.reverse, n + 1)
    else if c = '\\' then
      match escape cs with
      | .error e => .error e
      | .ok (value, k) => quotedFrom quote fuel (cs.drop k) (value.reverse ++ text) (n + 1 + k)
    else quotedFrom quote fuel cs (c :: text) (n + 1)

/-- A string; `rest` comes after its opening quote. One character between single quotes is a rune. -/
def quoted (quote : Char) (rest : List Char) : Except Cause Lexeme :=
  match quotedFrom quote rest.length rest [] 1 with
  | .error e => .error e
  | .ok (value, n) =>
    let kind := if quote = '\x27' ∧ value.length = 1 then Kind.rune else Kind.string
    .ok ⟨kind, String.ofList value, n⟩

/-- A string that runs over line ends up to the next backquote; `rest` comes after the first one. -/
def template (rest : List Char) : Except Cause Lexeme :=
  let body := rest.takeWhile (· ≠ '\x60')
  if body.length = rest.length then .error .unterminatedTemplate
  else .ok ⟨.string, String.ofList body, body.length + 2⟩

/-! ## Comments -/

/-- What stands between the brackets, for a comment that is nothing but a text in brackets. -/
def attributeText? (body : List Char) : Option (List Char) :=
  match Text.trim body with
  | '[' :: cs =>
    match cs.reverse with
    | ']' :: inner => some (Text.trim inner.reverse)
    | _ => none
  | _ => none

/-- A comment up to the end of the line; `rest` comes after its two slashes. -/
def lineComment (rest : List Char) : Lexeme :=
  let body := rest.takeWhile (· ≠ '\n')
  match attributeText? body with
  | some text => ⟨.attribute, String.ofList text, body.length + 2⟩
  | none => ⟨.lineComment, String.ofList body, body.length + 2⟩

/-- A comment up to its closing sign or the end of the text. `text` is what it holds so far,
backwards, and `n` counts the characters behind it. -/
def blockCommentFrom : List Char → List Char → Nat → Lexeme
  | [], text, n => ⟨.blockComment, String.ofList text.reverse, n⟩
  | '*' :: '/' :: _, text, n => ⟨.blockComment, String.ofList text.reverse, n + 2⟩
  | c :: cs, text, n => blockCommentFrom cs (c :: text) (n + 1)

/-! ## All lexemes -/

/-- A mark. The one exception to the longest match: a question mark before a point and a digit stands
alone, so that the point can belong to the number. -/
def mark (cs : List Char) : Option Lexeme :=
  match Mark.atStart? cs with
  | none => none
  | some (spelling, m) =>
    if m = .questionDot ∧ (cs[2]?.any Char.isDigit) then some ⟨.mark .question, "?", 1⟩
    else some ⟨.mark m, m.text, spelling.length⟩

/-- The lexeme that `cs` start with; the end of the text is an empty one. -/
def atStart (cs : List Char) : Except Cause Lexeme :=
  match cs with
  | [] => .ok ⟨.endOfFile, "", 0⟩
  | '\x22' :: rest => quoted '\x22' rest
  | '\x27' :: rest => quoted '\x27' rest
  | '\x60' :: rest => template rest
  | '/' :: '/' :: rest => .ok (lineComment rest)
  | '/' :: '*' :: rest => .ok (blockCommentFrom rest [] 2)
  | c :: _ =>
    if Text.isIdentifierStart c then .ok (word cs)
    else if c.isDigit then number cs
    else
      match mark cs with
      | some l => .ok l
      | none => .error (.unexpectedCharacter c)

end Lexeme

end ScriptFront
