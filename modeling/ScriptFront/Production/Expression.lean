import ScriptFront.Production.Grammar
import ScriptFront.Production.TypeAnnotation
import ScriptFront.Text.Integer

/-!
# Expressions

Loosest first: arrow functions, the ternary operator, binary operators by level, operators in front,
postfix chains and primary expressions.
-/

namespace ScriptFront

namespace Cursor

/-- Whether an arrow function starts here, seen from four tokens at most: `x =>`, `() =>`, `():`,
`(...`, `(x,`, `(x:`, `(x?` before `:`, `,` or `)`, and `(x) =>`. -/
def startsArrow (c : Cursor) : Bool :=
  match c.peekKind with
  | .identifier => (c.peekNth 1).kind == .mark .arrow
  | .mark .openParen =>
    match (c.peekNth 1).kind with
    | .mark .closeParen =>
      match (c.peekNth 2).kind with
      | .mark .arrow | .mark .colon => true
      | _ => false
    | .mark .ellipsis => true
    | .identifier =>
      match (c.peekNth 2).kind with
      | .mark .comma | .mark .colon => true
      | .mark .question =>
        match (c.peekNth 3).kind with
        | .mark .colon | .mark .comma | .mark .closeParen => true
        | _ => false
      | .mark .closeParen => (c.peekNth 3).kind == .mark .arrow
      | _ => false
    | _ => false
  | _ => false

/-- The binary operator here, and how many tokens it is written with. -/
def binaryOperator? (c : Cursor) : Option (BinaryOperator × Nat) :=
  let t := c.peek
  let n := c.peekNth 1
  match t.kind with
  | .mark .greater =>
    if n.kind = .mark .greater ∧ t.position.isAdjacentTo n.position then some (.shiftRight, 2)
    else some (.greater, 1)
  | .mark m => (BinaryOperator.ofMark? m).map (·, 1)
  | _ => none

end Cursor

namespace ConstantKind

/-- The literals and words that are constants as they stand. -/
def ofKind? : Kind → Option ConstantKind
  | .int => int
  | .float => float
  | .string => string
  | .rune => rune
  | .keyword .trueWord => ConstantKind.true
  | .keyword .falseWord => ConstantKind.false
  | .keyword .nullWord => null
  | .keyword .undefinedWord => undefined
  | _ => none

end ConstantKind

namespace Token

/-- The characters behind the first `n` bytes, if a character starts there. -/
def dropBytes? : Nat → List Char → Option (List Char)
  | 0, cs => some cs
  | _ + 1, [] => none
  | n + 1, c :: cs => if c.utf8Size ≤ n + 1 then dropBytes? (n + 1 - c.utf8Size) cs else none

/-- The value of a hexadecimal literal, behind the two bytes of its sign for the base. -/
def hexValue? (t : Token) : Option Int :=
  Text.readSigned64 16 ((dropBytes? 2 t.text.toList).getD [])

def ident (t : Token) : Ident := ⟨t.position, t.text⟩

end Token

namespace Block

/-- The body of an arrow function that is written as an expression. -/
def returning (value : Expr) : Block :=
  ⟨value.position, [.returns value.position (some value)], value.position⟩

end Block

namespace Grammar

open Production

variable (g : Grammar)

/-! ## Parameters -/

/-- Parameters in parentheses. Only the last one may take the rest of the arguments. -/
def parameters : Production Parameters := do
  let paren ← accept (.mark .openParen)
  let (fields, variadic) ← loop (fun (fields : List Parameter) => do
    let variadic ← skips (.mark .ellipsis)
    if !(← isAt .identifier) then return .done (fields.reverse, variadic)
    let name ← identifier
    let optional ← skips (.mark .question)
    g.ascription
    let fields := ⟨name.position, name.text, optional⟩ :: fields
    if variadic then
      if ← isAt (.mark .comma) then fail .parameterAfterVariadic (← peekNth 1).position
      return .done (fields.reverse, true)
    if ← skips (.mark .comma) then return .again fields
    return .done (fields.reverse, false)) []
  discard (accept (.mark .closeParen))
  return ⟨paren.position, fields, variadic⟩

/-! ## Postfix chains -/

/-- Arguments with their closing parenthesis. Only the last one may be spread; the answer says
whether it is. -/
def arguments : Production (List Expr × Bool) := do
  let result ← loop (fun (items : List Expr) => do
    if ← isAt (.mark .closeParen) then return .done (items.reverse, false)
    match ← optional (.mark .ellipsis) with
    | some dots =>
      let items := (← g.value) :: items
      discard (optional (.mark .comma))
      if !(← isAt (.mark .closeParen)) then fail .spreadNotLast dots.position
      return .done (items.reverse, true)
    | none =>
      let items := (← g.value) :: items
      if ← skips (.mark .comma) then return .again items
      return .done (items.reverse, false)) []
  discard (accept (.mark .closeParen))
  return result

/-- A member behind its point, with the type arguments that may follow. -/
def selector (target : Expr) (optional : Bool) : Production Expr := do
  let member ← name
  genericArguments
  return .selector target member.ident optional false

def index (target : Expr) (optional : Bool) : Production Expr := do
  let bracket ← accept (.mark .openBracket)
  let key ← g.expression
  discard (accept (.mark .closeBracket))
  return .index target bracket.position key optional false

def call (callee : Expr) (optional : Bool) : Production Expr := do
  let paren ← accept (.mark .openParen)
  let (arguments, spread) ← g.arguments
  return .call ⟨callee, paren.position, arguments, spread, optional, false⟩

/-- One link of a postfix chain behind `e`, if there is one. -/
def link (e : Expr) : Production (Option Expr) := do
  match ← peekKind with
  | .mark .dot =>
    discard next
    return some (← selector e false)
  | .mark .questionDot =>
    discard next
    match ← peekKind with
    | .mark .openParen => return some (← g.call e true)
    | .mark .openBracket => return some (← g.index e true)
    | _ => return some (← selector e true)
  | .mark .openBracket => return some (← g.index e false)
  | .mark .openParen => return some (← g.call e false)
  | _ => return none

/-- The links behind `e`. The last one is marked. -/
def chain (e : Expr) : Production Expr :=
  loop (fun (s : Expr × Bool) => do
    match ← g.link s.1 with
    | some e => return .again (e, true)
    | none => return .done (if s.2 then s.1.markOutermost else s.1)) (e, false)

/-! ## Primary expressions -/

def newInstance : Production Expr := do
  let keyword ← accept (.keyword .newWord)
  let first := Expr.identifier (← name).ident
  let typeName ← if ← skips (.mark .dot) then selector first false else pure first
  genericArguments
  discard (accept (.mark .openParen))
  let (arguments, spread) ← g.arguments
  return .newInstance keyword.position typeName arguments spread

def arrayLiteral : Production Expr := do
  let bracket ← accept (.mark .openBracket)
  return .arrayLiteral bracket.position (← listed .closeBracket g.value)

def mapEntry : Production MapEntry := do
  let k ← peekKind
  if !(k.isName || k == .string || k == .int) then failHere .expectingIdentifier
  let key ← next
  discard (accept (.mark .colon))
  return ⟨key.position, key.text, ← g.value⟩

def mapLiteral : Production Expr := do
  let brace ← accept (.mark .openBrace)
  return .mapLiteral brace.position (← listed .closeBrace g.mapEntry)

/-- What stands behind the name of a function: type parameters, parameters, the type of the result
and the body. -/
def functionRest : Production (Parameters × Block) := do
  typeParameters g.type
  let parameters ← g.parameters
  g.ascription
  return (parameters, ← g.block)

def functionLiteral : Production Expr := do
  let keyword ← accept (.keyword .functionWord)
  let (parameters, body) ← g.functionRest
  return .function keyword.position parameters body

def primary : Production Expr := do
  let t ← peek
  match ConstantKind.ofKind? t.kind with
  | some kind =>
    discard next
    return .constant t.position kind t.text
  | none =>
    match t.kind with
    | .hex =>
      discard next
      match t.hexValue? with
      | some n => return .constant t.position .int (toString n)
      | none => fail (.invalidHexLiteral t.text) t.position
    | .identifier | .keyword .defaultWord =>
      discard next
      genericArguments
      return .identifier t.ident
    | .mark .openParen =>
      discard next
      let e ← g.value
      discard (accept (.mark .closeParen))
      return e
    | .keyword .newWord => g.newInstance
    | .keyword .functionWord => g.functionLiteral
    | .mark .openBracket => g.arrayLiteral
    | .mark .openBrace => g.mapLiteral
    | _ => failHere .expectingExpression

/-! ## Operators -/

def postfixExpression : Production Expr := do
  typeAssertion g.type
  let e ← g.primary
  g.chain e

/-- A postfix chain and the types it is taken as. -/
def operand : Production Expr := do
  let e ← g.postfixExpression
  g.casts
  return e

/-- An operand with the operators in front of it. -/
def unaryExpression : Production Expr := do
  match ← peekKind with
  | .keyword .typeofWord => fail .typeofExpression (← peek).position
  | .mark m =>
    match UnaryOperator.ofMark? m with
    | some op =>
      let t ← next
      return .unary t.position op (← nested g.unary)
    | none => g.operand
  | _ => g.operand

/-- The operator behind `left`, if there is one of at least level `least`, with its other operand. -/
def operation (least : Level) (left : Expr) : Production (Turn Expr Expr) := do
  match ← asks Cursor.binaryOperator? with
  | none => return .done left
  | some (op, width) =>
    if op.level.rank < least.rank then return .done left
    advance width
    return .again (.binary op left (← g.binary op.level.tighter))

/-- Operands joined by operators of at least level `least`, grouped to the left. -/
def binaryExpression (least : Level) : Production Expr := do
  let first ← g.unaryExpression
  loop (g.operation least) first

/-- The condition with the two values of a ternary operator, if one follows. -/
def ternary (condition : Expr) : Production Expr := do
  if ← skips (.mark .question) then
    let whenTrue ← g.value
    discard (accept (.mark .colon))
    return .ternary condition whenTrue (← g.value)
  else return condition

/-- Operands and operators, as the condition of a ternary operator if one follows. -/
def conditional : Production Expr := do
  g.ternary (← g.binaryExpression .logical)

/-! ## Values -/

/-- A single name or a parameter list with the type of the result, an arrow, and a block or an
expression. -/
def arrowFunction : Production Expr := do
  let start ← peek
  let parameters ←
    if start.kind = .identifier then
      discard next
      pure ⟨start.position, [⟨start.position, start.text, false⟩], false⟩
    else
      let parameters ← g.parameters
      ascribedType g.type
      pure parameters
  discard (accept (.mark .arrow))
  let body ← if ← isAt (.mark .openBrace) then g.block else Block.returning <$> g.value
  return .function start.position parameters body

def valueExpression : Production Expr :=
  nested do if ← asks Cursor.startsArrow then g.arrowFunction else g.conditional

end Grammar

end ScriptFront
