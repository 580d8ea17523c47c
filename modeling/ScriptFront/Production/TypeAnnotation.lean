import ScriptFront.Production.Repetition

/-!
# Types

Types are read and dropped: unions and intersections, `keyof` and `readonly` in front, array suffixes,
tuples, object types, function types, type queries, literals and qualified generic names. Behind a
name in an expression, type arguments are read only if they are complete; otherwise the `<` is an
operator.
-/

namespace ScriptFront

/-- Whether parameters or type parameters start with a token of this kind. -/
def opensSignature (k : Kind) : Bool := k == .mark .openParen || k == .mark .less

namespace Cursor

/-- At the name of a member: whether it is a method. -/
def startsMethod (c : Cursor) : Bool := opensSignature (c.peekNth 1).kind

/-- Whether `readonly` stands here in front of a member, and is not its name. -/
def startsReadonly (c : Cursor) : Bool :=
  c.peek.isWord "readonly" &&
    ((c.peekNth 1).kind.isName || (c.peekNth 1).kind == .mark .openBracket)

end Cursor

namespace Production

variable (type : Production Unit)

/-! ## Where types stand -/

/-- A colon and a type, if there is a colon. -/
def ascribedType : Production Unit := do
  if ← skips (.mark .colon) then type

/-- Any number of `as` with a type. -/
def asTypes : Production Unit :=
  rounds do
    if ← isAtWord "as" then
      discard next
      type
      return true
    else return false

/-- Type parameters of a declaration, each with a bound and a default if it has them. -/
def typeParameters : Production Unit := do
  if ← skips (.mark .less) then
    discard <| separated do
      discard name
      if ← isAtWord "extends" then
        discard next
        type
      if ← skips (.mark .equals) then type
    discard (accept (.mark .greater))

def typeArguments : Production Unit := do
  discard (accept (.mark .less))
  discard (separated type)
  discard (accept (.mark .greater))

/-- A type in angle brackets in front of an expression, if there is one. -/
def typeAssertion : Production Unit := do
  if ← isAt (.mark .less) then typeArguments type

/-! ## Parts of types -/

/-- Names with points between them. -/
def qualifiedName : Production Unit := do
  discard name
  rounds do
    if ← skips (.mark .dot) then
      discard name
      return true
    else return false

/-- The parameters of a function type. -/
def typeParameterList : Production Unit := do
  discard (accept (.mark .openParen))
  discard <| listed .closeParen do
    discard (optional (.mark .ellipsis))
    discard name
    discard (optional (.mark .question))
    ascribedType type

/-- Parameters, an arrow and the type of the result. -/
def functionType : Production Unit := do
  typeParameterList type
  discard (accept (.mark .arrow))
  type

def tupleType : Production Unit := do
  discard (accept (.mark .openBracket))
  discard <| listed .closeBracket do
    discard (optional (.mark .ellipsis))
    type
    discard (optional (.mark .question))

/-- What follows the name of a method in an object type. -/
def signature : Production Unit := do
  typeParameters type
  typeParameterList type
  ascribedType type

/-- A member in square brackets: an index signature or a mapped member. -/
def bracketMember : Production Unit := do
  discard (accept (.mark .openBracket))
  discard name
  if ← isAtWord "in" then
    discard next
    type
  else ascribedType type
  discard (accept (.mark .closeBracket))
  discard (optional (.mark .question))
  ascribedType type

/-- A member with a name: a property or a method. -/
def namedMember : Production Unit := do
  discard next
  discard (optional (.mark .question))
  if opensSignature (← peekKind) then signature type else ascribedType type

/-- A member behind its `readonly`. -/
def bareTypeMember : Production Unit := do
  match ← peekKind with
  | .mark .openBracket => bracketMember type
  | .mark .openParen | .mark .less => signature type
  | .keyword .newWord =>
    if ← asks Cursor.startsMethod then
      discard next
      signature type
    else namedMember type
  | .identifier | .keyword _ | .string | .int => namedMember type
  | _ => failHere .expectingIdentifier

def typeMember : Production Unit := do
  if ← asks Cursor.startsReadonly then discard next
  bareTypeMember type

/-- Members in braces, with any number of commas and semicolons around them. -/
def objectType : Production Unit := do
  let brace ← accept (.mark .openBrace)
  rounds do
    match ← peekKind with
    | .mark .closeBrace =>
      discard next
      return false
    | .endOfFile => fail .unclosedBlock brace.position
    | .mark .comma | .mark .semicolon =>
      discard next
      return true
    | _ =>
      typeMember type
      return true

end Production

end ScriptFront

namespace ScriptFront.Cursor

/-- At an opening parenthesis: whether it opens the parameters of a function type, and not a type in
parentheses. -/
def startsFunctionType (c : Cursor) : Bool :=
  match (c.peekNth 1).kind with
  | .mark .closeParen | .mark .ellipsis => true
  | .identifier | .keyword _ =>
    match (c.peekNth 2).kind with
    | .mark .colon | .mark .question | .mark .comma => true
    | .mark .closeParen => (c.peekNth 3).kind == .mark .arrow
    | _ => false
  | _ => false

/-- At a word that goes in front of a type: whether it does, and is no type name itself. -/
def startsTypeOperator (c : Cursor) : Bool :=
  (c.peek.isWord "keyof" || c.peek.isWord "readonly") &&
    match (c.peekNth 1).kind with
    | .mark .bar | .mark .ampersand | .mark .comma | .mark .greater => false
    | _ => true

/-- At a minus: whether a number follows. -/
def startsNegative (c : Cursor) : Bool :=
  match (c.peekNth 1).kind with
  | .int | .float => true
  | _ => false

/-- Whether an empty pair of square brackets stands here. -/
def startsArraySuffix (c : Cursor) : Bool :=
  c.isAt (.mark .openBracket) && (c.peekNth 1).kind == .mark .closeBracket

end ScriptFront.Cursor

namespace ScriptFront.Production

variable (type : Production Unit)

/-! ## Types -/

/-- A qualified name with its type arguments. -/
def namedType : Production Unit := do
  qualifiedName
  if ← isAt (.mark .less) then typeArguments type

def primaryType : Production Unit := do
  match ← peekKind with
  | .mark .openParen =>
    if ← asks Cursor.startsFunctionType then functionType type
    else
      discard next
      type
      discard (accept (.mark .closeParen))
  | .mark .openBrace => objectType type
  | .mark .openBracket => tupleType type
  | .mark .less =>
    typeParameters type
    functionType type
  | .string | .int | .float | .hex | .rune => discard next
  | .keyword .trueWord | .keyword .falseWord | .keyword .nullWord | .keyword .undefinedWord =>
    discard next
  | .mark .minus =>
    if ← asks Cursor.startsNegative then advance 2 else failHere .expectingType
  | .keyword .typeofWord =>
    discard next
    qualifiedName
  | .keyword .newWord =>
    if (← peekNth 1).kind = .mark .openParen then
      discard next
      functionType type
    else namedType type
  | .identifier | .keyword _ => namedType type
  | _ => failHere .expectingType

/-- A type with what stands in front of it and the array brackets behind it. -/
def arrayType : Production Unit := do
  if ← asks Cursor.startsTypeOperator then discard next
  primaryType type
  rounds do
    if ← asks Cursor.startsArraySuffix then
      advance 2
      return true
    else return false

/-- Whether the token joins the members of a union or an intersection. -/
def joinsTypes (k : Kind) : Bool := k == .mark .bar || k == .mark .ampersand

/-- A union or intersection. -/
def unionType : Production Unit :=
  nested do
    if joinsTypes (← peekKind) then discard next
    rounds do
      arrayType type
      if joinsTypes (← peekKind) then
        discard next
        return true
      else return false

/-! ## Declarations of types -/

/-- The types behind `extends` or `implements`, with the word itself. -/
def heritage : Production Unit := do
  discard next
  discard (separated type)

def interfaceDeclaration : Production Unit := do
  discard (accept (.keyword .interfaceWord))
  discard name
  typeParameters type
  if (← isAtWord "extends") || (← isAtWord "implements") then heritage type
  objectType type
  semicolon

def typeAlias : Production Unit := do
  discard (word "type")
  discard identifier
  typeParameters type
  discard (accept (.mark .equals))
  type
  semicolon

/-- A function without a body. -/
def functionSignature : Production Unit := do
  discard (accept (.keyword .functionWord))
  discard identifier
  signature type
  semicolon

end ScriptFront.Production

/-! ## Type arguments in expressions -/

namespace ScriptFront.Lookahead

/-- How deep type arguments in an expression may nest. Deeper ones are read as comparisons. -/
def typeArgumentDepth : Nat := 8

/-- A qualified name, the type arguments that `arguments` takes, and array brackets. -/
def typeReference (arguments : Lookahead → Option Lookahead) (l : Lookahead) : Option Lookahead := do
  let l ← l.eat .identifier
  let l ← l.eatAll (.mark .dot) (·.eat .identifier)
  let l ← if l.peek.kind = .mark .less then arguments l else some l
  l.eatAll (.mark .openBracket) (·.eat (.mark .closeBracket))

/-- Type arguments that nest less deep than the number says. -/
def typeArguments : Nat → Lookahead → Option Lookahead
  | 0, _ => none
  | n + 1, l => do
    let l ← l.eat (.mark .less)
    let l ← l.typeReference (typeArguments n)
    let l ← l.eatAll (.mark .comma) (typeReference (typeArguments n))
    l.eat (.mark .greater)

end ScriptFront.Lookahead

namespace ScriptFront.Production

/-- Reads the type arguments behind a name in an expression if they are complete, and nothing
otherwise. -/
def genericArguments : Production Unit := do
  match ← asks fun c => (Lookahead.ofCursor c).typeArguments Lookahead.typeArgumentDepth with
  | some l => advance l.consumed
  | none => return

end ScriptFront.Production
