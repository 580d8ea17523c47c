import ScriptFront.Token

/-!
# Tables of tokens

A line for each token, with its place, the name of its kind and its text, the first two padded to
columns.
-/

namespace ScriptFront

namespace Mark

def label : Mark → String
  | openBrace => "OpenBrace" | closeBrace => "CloseBrace" | openParen => "OpenParen"
  | closeParen => "CloseParen" | openBracket => "OpenBracket" | closeBracket => "CloseBracket"
  | dot => "Dot" | ellipsis => "DotDotDot" | semicolon => "Semicolon" | comma => "Comma"
  | colon => "Colon" | colonEquals => "ColonEquals" | question => "Question"
  | questionDot => "QuestionDot" | questionQuestion => "QuestionQuestion"
  | arrow => "EqualsGreaterThan"
  | plus => "Plus" | minus => "Minus" | star => "Asterisk" | starStar => "AsteriskAsterisk"
  | slash => "Slash" | percent => "Percent" | plusPlus => "PlusPlus" | minusMinus => "MinusMinus"
  | shiftLeft => "LessThanLessThan" | ampersand => "Ampersand" | bar => "Bar" | caret => "Caret"
  | exclamation => "Exclamation" | tilde => "Tilde" | andAnd => "AmpersandAmpersand"
  | barBar => "BarBar" | less => "LessThan" | greater => "GreaterThan"
  | lessEquals => "LessThanEquals" | greaterEquals => "GreaterThanEquals"
  | equalsEquals => "EqualsEquals" | exclamationEquals => "ExclamationEquals"
  | equalsEqualsEquals => "EqualsEqualsEquals"
  | exclamationEqualsEquals => "ExclamationEqualsEquals"
  | equals => "Equals" | plusEquals => "PlusEquals" | minusEquals => "MinusEquals"
  | starEquals => "AsteriskEquals" | slashEquals => "SlashEquals"
  | percentEquals => "PercentEquals" | barEquals => "BarEquals" | caretEquals => "CaretEquals"

end Mark

namespace Keyword

def label : Keyword → String
  | breakWord => "Break" | caseWord => "Case" | catchWord => "Catch" | classWord => "Class"
  | constWord => "Const" | continueWord => "Continue" | defaultWord => "Default"
  | deleteWord => "Delete" | elseWord => "Else" | enumWord => "Enum" | exportWord => "Export"
  | falseWord => "False" | finallyWord => "Finally" | forWord => "For"
  | functionWord => "Function" | ifWord => "If" | importWord => "Import"
  | interfaceWord => "Interface" | letWord => "Let" | newWord => "New" | nullWord => "Null"
  | returnWord => "Return" | switchWord => "Switch" | throwWord => "Throw" | trueWord => "True"
  | tryWord => "Try" | typeofWord => "TypeOf" | undefinedWord => "Undefined" | varWord => "Var"
  | whileWord => "While"

end Keyword

namespace Kind

/-- The name of a kind in tables. -/
def label : Kind → String
  | endOfFile => "EndOfFileToken"
  | lineComment => "SingleLineComment"
  | blockComment => "MultiLineComment"
  | .attribute => "AttributeToken"
  | identifier => "Identifier"
  | int => "IntLiteral"
  | hex => "HexLiteral"
  | float => "FloatLiteral"
  | rune => "RuneLiteral"
  | string => "StringLiteral"
  | mark m => m.label ++ "Token"
  | keyword k => k.label ++ "Keyword"

/-- Every kind. -/
def all : List Kind :=
  [endOfFile, lineComment, blockComment, .attribute, identifier, int, hex, float, rune, string]
    ++ Mark.all.map mark ++ Keyword.all.map keyword

theorem mem_all (k : Kind) : k ∈ all := by
  cases k with
  | mark m => simp [all, Mark.mem_all]
  | keyword k => simp [all, Keyword.mem_all]
  | _ => simp [all]

def ofLabel? (s : String) : Option Kind := all.find? (·.label == s)

end Kind

namespace Token

/-- A text filled up with blanks to a number of characters. -/
def padTo (width : Nat) (s : String) : String :=
  s ++ String.ofList (List.replicate (width - s.length) ' ')

def tableLine (t : Token) : String :=
  padTo 8 t.position.text ++ " " ++ padTo 24 t.kind.label ++ " " ++ t.text ++ "\n"

def table (tokens : List Token) : String := String.join (tokens.map tableLine)

end Token

end ScriptFront
