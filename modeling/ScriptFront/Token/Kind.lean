/-!
# Kinds of tokens

A token is the end of the text, a comment, an identifier, a literal, a mark or a keyword. Marks and
keywords are spelled one way only; `Mark.atStart?` and `Keyword.ofText?` find them by their spelling.
-/

namespace ScriptFront

/-- Punctuation and operators. -/
inductive Mark where
  | openBrace | closeBrace | openParen | closeParen | openBracket | closeBracket
  | dot | ellipsis | semicolon | comma | colon | colonEquals
  | question | questionDot | questionQuestion | arrow
  | plus | minus | star | starStar | slash | percent | plusPlus | minusMinus | shiftLeft
  | ampersand | bar | caret | exclamation | tilde | andAnd | barBar
  | less | greater | lessEquals | greaterEquals
  | equalsEquals | exclamationEquals | equalsEqualsEquals | exclamationEqualsEquals
  | equals | plusEquals | minusEquals | starEquals | slashEquals | percentEquals
  | barEquals | caretEquals
deriving DecidableEq, Repr

namespace Mark

def text : Mark → String
  | openBrace => "\x7b" | closeBrace => "\x7d" | openParen => "(" | closeParen => ")"
  | openBracket => "[" | closeBracket => "]"
  | dot => "." | ellipsis => "..." | semicolon => ";" | comma => "," | colon => ":"
  | colonEquals => ":="
  | question => "?" | questionDot => "?." | questionQuestion => "??" | arrow => "=>"
  | plus => "+" | minus => "-" | star => "*" | starStar => "**" | slash => "/" | percent => "%"
  | plusPlus => "++" | minusMinus => "--" | shiftLeft => "<<"
  | ampersand => "&" | bar => "|" | caret => "^" | exclamation => "!" | tilde => "~"
  | andAnd => "&&" | barBar => "||"
  | less => "<" | greater => ">" | lessEquals => "<=" | greaterEquals => ">="
  | equalsEquals => "==" | exclamationEquals => "!=" | equalsEqualsEquals => "==="
  | exclamationEqualsEquals => "!=="
  | equals => "=" | plusEquals => "+=" | minusEquals => "-=" | starEquals => "*="
  | slashEquals => "/=" | percentEquals => "%=" | barEquals => "|=" | caretEquals => "^="

/-- Every mark, those with a longer spelling first. -/
def all : List Mark :=
  [ellipsis, equalsEqualsEquals, exclamationEqualsEquals,
   colonEquals, questionDot, questionQuestion, arrow, starStar, plusPlus, minusMinus, shiftLeft,
   andAnd, barBar, lessEquals, greaterEquals, equalsEquals, exclamationEquals,
   plusEquals, minusEquals, starEquals, slashEquals, percentEquals, barEquals, caretEquals,
   openBrace, closeBrace, openParen, closeParen, openBracket, closeBracket, dot, semicolon, comma,
   colon, question, plus, minus, star, slash, percent, ampersand, bar, caret, exclamation, tilde,
   less, greater, equals]

/-- Every mark with the characters of its spelling. -/
def spellings : List (List Char × Mark) := all.map fun m => (m.text.toList, m)

/-- The longest mark that the characters start with, and its spelling. -/
def atStart? (cs : List Char) : Option (List Char × Mark) :=
  spellings.find? fun s => s.1.isPrefixOf cs

theorem mem_all (m : Mark) : m ∈ all := by cases m <;> decide

end Mark

/-- The reserved words. -/
inductive Keyword where
  | breakWord | caseWord | catchWord | classWord | constWord | continueWord | defaultWord
  | deleteWord | elseWord | enumWord | exportWord | falseWord | finallyWord | forWord
  | functionWord | ifWord | importWord | interfaceWord | letWord | newWord | nullWord
  | returnWord | switchWord | throwWord | trueWord | tryWord | typeofWord | undefinedWord
  | varWord | whileWord
deriving DecidableEq, Repr

namespace Keyword

def text : Keyword → String
  | breakWord => "break" | caseWord => "case" | catchWord => "catch" | classWord => "class"
  | constWord => "const" | continueWord => "continue" | defaultWord => "default"
  | deleteWord => "delete" | elseWord => "else" | enumWord => "enum" | exportWord => "export"
  | falseWord => "false" | finallyWord => "finally" | forWord => "for"
  | functionWord => "function" | ifWord => "if" | importWord => "import"
  | interfaceWord => "interface" | letWord => "let" | newWord => "new" | nullWord => "null"
  | returnWord => "return" | switchWord => "switch" | throwWord => "throw" | trueWord => "true"
  | tryWord => "try" | typeofWord => "typeof" | undefinedWord => "undefined" | varWord => "var"
  | whileWord => "while"

def all : List Keyword :=
  [breakWord, caseWord, catchWord, classWord, constWord, continueWord, defaultWord, deleteWord,
   elseWord, enumWord, exportWord, falseWord, finallyWord, forWord, functionWord, ifWord,
   importWord, interfaceWord, letWord, newWord, nullWord, returnWord, switchWord, throwWord,
   trueWord, tryWord, typeofWord, undefinedWord, varWord, whileWord]

theorem mem_all (k : Keyword) : k ∈ all := by cases k <;> decide

def ofText? (s : String) : Option Keyword := all.find? (·.text == s)

end Keyword

/-- What a token is. -/
inductive Kind where
  | endOfFile
  | lineComment
  | blockComment
  /-- A line comment whose text stands in brackets. -/
  | attribute
  | identifier
  | int
  | hex
  | float
  /-- A quoted string of one character between single quotes. -/
  | rune
  | string
  | mark (m : Mark)
  | keyword (k : Keyword)
deriving DecidableEq, Repr

namespace Kind

/-- The fixed spelling of marks and keywords, and a descriptive word for the other kinds. -/
def text : Kind → String
  | endOfFile => "EOF"
  | lineComment | blockComment => "comment"
  | .attribute => "attribute"
  | identifier => "identifier"
  | int => "int"
  | hex => "hex"
  | float => "float"
  | rune => "rune"
  | string => "string"
  | mark m => m.text
  | keyword k => k.text

def isKeyword : Kind → Bool
  | keyword _ => true
  | _ => false

/-- Comments and attributes: the tokens that the grammar does not see. -/
def isComment : Kind → Bool
  | lineComment | blockComment | .attribute => true
  | _ => false

/-- Identifiers and keywords: the tokens that may stand for the name of a member or type. -/
def isName : Kind → Bool
  | identifier | keyword _ => true
  | _ => false

end Kind

end ScriptFront
