import ScriptFront.Text.Position
import ScriptFront.Text.Template

/-!
# Diagnostics

Reading a program stops at the first thing that is wrong with it. An `Error` is the place of that
thing and its `Cause`; the cause alone determines the broad kind of the error and its wording.
-/

namespace ScriptFront

/-- The broad classes of errors. -/
inductive ErrorKind where
  | lexical
  | grammar
  | unsupportedFeature
  | importResolution
  | fallthrough
  | duplicateCase
  | fileAccess
  | config
deriving DecidableEq, Repr

namespace ErrorKind

/-- The words that introduce an error of this kind. -/
def text : ErrorKind → String
  | lexical => "lexical error"
  | grammar => "syntax error"
  | unsupportedFeature => "unsupported feature"
  | importResolution => "import error"
  | fallthrough => "fallthrough error"
  | duplicateCase => "duplicate case"
  | fileAccess => "io error"
  | config => "config error"

end ErrorKind

/-- What can be wrong. Arguments named `found` describe the token that was met instead. -/
inductive Cause where
  | unterminatedString
  | unterminatedTemplate
  | invalidNumber
  | invalidHexNumber
  | invalidHexEscape
  | invalidOctalEscape
  | unexpectedCharacter (c : Char)
  | expecting (expected found : String)
  | unexpected (found : String)
  | expectingStatement (found : String)
  | expectingExpression (found : String)
  | expectingIdentifier (found : String)
  | expectingType (found : String)
  | unclosedBlock
  | unclosedCase
  | unclosedClass
  | invalidAttribute
  | importAfterStatements
  | parameterAfterVariadic
  | spreadNotLast
  | invalidLabelTarget
  | invalidEnumValue (text : String)
  | invalidDelete
  | invalidNewStatement
  | invalidStatementExpression
  | expectedGlobal
  | invalidGlobalDeclaration (found : String)
  | invalidExport (found : String)
  | invalidClassMember (found : String)
  | invalidHexLiteral (text : String)
  | nestingTooDeep
  /-- A repetition went on without reading anything. No input leads here. -/
  | stalled
  | importsWithoutFiles
  | namespaceDeclaration
  | partialImport
  | typeofExpression
  | duplicateCase (label : String)
  | fallthrough
  | fileNotFound (path : String)
  | unreadableFile (path reason : String)
  | importNotFound (path : String)
  /-- The imported file has an error of its own, with the given cause and place. -/
  | importFailed (path : String) (cause : Cause) (position : Position)
  | malformedConfig (path reason : String)
  | invalidConfigPaths (path : String)
deriving DecidableEq, Repr

namespace Cause

def kind : Cause → ErrorKind
  | unterminatedString | unterminatedTemplate | invalidNumber | invalidHexNumber
  | invalidHexEscape | invalidOctalEscape | unexpectedCharacter _ => .lexical
  | importsWithoutFiles | importNotFound _ | importFailed .. => .importResolution
  | namespaceDeclaration | partialImport | typeofExpression => .unsupportedFeature
  | duplicateCase _ => .duplicateCase
  | fallthrough => .fallthrough
  | fileNotFound _ | unreadableFile .. => .fileAccess
  | malformedConfig .. | invalidConfigPaths _ => .config
  | _ => .grammar

/-- A message followed by the place it is about. -/
def located (message : String) (position : Position) : String :=
  message ++ "\n -> " ++ position.text

def message : Cause → String
  | unterminatedString => "unterminated string"
  | unterminatedTemplate => "unterminated multiline string"
  | invalidNumber => "Invalid number"
  | invalidHexNumber => "Invalid hex number"
  | invalidHexEscape => "Invalid hex value"
  | invalidOctalEscape => "Invalid octal value"
  | unexpectedCharacter c => Text.fill "Unexpected character '\x7b0\x7d'" [String.singleton c]
  | expecting expected found => Text.fill "Expecting '\x7b0\x7d' got '\x7b1\x7d'" [expected, found]
  | unexpected found => Text.fill "Unexpected '\x7b0\x7d'" [found]
  | expectingStatement found => Text.fill "Expecting statement, got '\x7b0\x7d'" [found]
  | expectingExpression found => Text.fill "Expecting expression, got '\x7b0\x7d'" [found]
  | expectingIdentifier found => Text.fill "Expecting identifier, got '\x7b0\x7d'" [found]
  | expectingType found => Text.fill "Expecting type, got '\x7b0\x7d'" [found]
  | unclosedBlock => "Unclosed block"
  | unclosedCase => "Unclosed case"
  | unclosedClass => "Unclosed class"
  | invalidAttribute => "invalid attribute"
  | importAfterStatements => "non-declaration statement outside function body"
  | parameterAfterVariadic => "No more parameters allowed after a variadic one"
  | spreadNotLast => "Spread argument must be the last"
  | invalidLabelTarget => "Label can only be used with for, while and switch"
  | invalidEnumValue text => Text.fill "Invalid enum value '\x7b0\x7d'" [text]
  | invalidDelete => "Invalid delete expression"
  | invalidNewStatement => "Expected a call after new expression"
  | invalidStatementExpression => "Invalid statement expression"
  | expectedGlobal => "Expected global"
  | invalidGlobalDeclaration found =>
    Text.fill "Invalid declaration in global block: '\x7b0\x7d'" [found]
  | invalidExport found => Text.fill "Invalid export: '\x7b0\x7d'" [found]
  | invalidClassMember found => Text.fill "Invalid class member: '\x7b0\x7d'" [found]
  | invalidHexLiteral text => Text.fill "Error parsing hex literal '\x7b0\x7d'" [text]
  | nestingTooDeep => "Maximum nesting depth exceeded"
  | stalled => "No progress"
  | importsWithoutFiles => "Can't parse imports because there is no filesystem"
  | namespaceDeclaration => "Namespaces are not supported. Use modules instead."
  | partialImport => "Partial imports are not supported. Use import *"
  | typeofExpression => "The typeof operator is not valid. Use reflect.typeOf"
  | duplicateCase label => Text.fill "Duplicate case: \x7b0\x7d" [label]
  | fallthrough => "Fallthrough is only allowed in empty case"
  | fileNotFound path => Text.fill "File not found: \x7b0\x7d" [path]
  | unreadableFile path reason => Text.fill "Cannot read '\x7b0\x7d': \x7b1\x7d" [path, reason]
  | importNotFound path => Text.fill "Import error '\x7b0\x7d': file not found" [path]
  | importFailed path cause position =>
    Text.fill "Import error '\x7b0\x7d': \x7b1\x7d" [path, located cause.message position]
  | malformedConfig path reason =>
    Text.fill "Invalid config file '\x7b0\x7d': \x7b1\x7d" [path, reason]
  | invalidConfigPaths path =>
    Text.fill ("Invalid config file '\x7b0\x7d': paths must contain a single \x22*\x22 entry "
      ++ "with a list of directories") [path]

end Cause

/-- What is wrong, and where. -/
structure Error where
  cause : Cause
  position : Position
deriving DecidableEq, Repr

namespace Error

def kind (e : Error) : ErrorKind := e.cause.kind

def message (e : Error) : String := e.cause.message

/-- The message with its place. -/
def text (e : Error) : String := Cause.located e.message e.position

end Error

end ScriptFront
