import ScriptFront.Production.Expression
import ScriptFront.Tree.TailCall

/-!
# Declarations

Variables, functions, classes and enums.
-/

namespace ScriptFront.Grammar

open Production

variable (g : Grammar)

/-! ## Variables -/

/-- A variable without its keyword: a name, a question mark, a type and a value, all but the name
optional. -/
def variableDeclaration (isConst : Bool) : Production VarDecl := do
  let name ← identifier
  discard (optional (.mark .question))
  g.ascription
  let value ←
    if ← skips (.mark .equals) then g.value else pure (Expr.undefinedAt name.position)
  return ⟨name.position, name.text, value, false, isConst⟩

/-- A variable with the keyword in front of it, whichever it is. -/
def variableStatement : Production VarDecl := do
  let keyword ← next
  g.variableDeclaration (keyword.kind == .keyword .constWord)

/-! ## Functions -/

/-- A function or method whose name has been read. -/
def namedFunction (position : Position) (name : String) (exported : Bool) : Production FuncDecl := do
  let (parameters, body) ← g.functionRest
  semicolon
  let f : FuncDecl := ⟨position, name, parameters, exported, [], body, none⟩
  if ← optimizes then return f.markTailCall else return f

def functionDeclaration (exported : Bool) : Production FuncDecl := do
  let keyword ← accept (.keyword .functionWord)
  let name ← identifier
  g.namedFunction keyword.position name.text exported

/-- A method that is assigned to the prototype of a type. -/
def prototypeMethod : Production FuncDecl := do
  let receiver ← identifier
  discard (accept (.mark .dot))
  let prototype ← word "prototype"
  discard (accept (.mark .dot))
  let name ← name
  discard (accept (.mark .equals))
  discard (accept (.keyword .functionWord))
  let (parameters, body) ← g.functionRest
  return ⟨prototype.position, name.text, parameters, false, [], body, some receiver.text⟩

end ScriptFront.Grammar

namespace ScriptFront.Cursor

/-- Whether a member starts here with the word `w` in front of its name, and no member of that name. -/
def startsModified (w : String) (c : Cursor) : Bool := c.peek.isWord w && (c.peekNth 1).kind.isName

end ScriptFront.Cursor

namespace ScriptFront.Grammar

open Production

variable (g : Grammar)

/-! ## Classes -/

/-- What a class is made of. -/
inductive ClassMember where
  | field (decl : VarDecl)
  | method (decl : FuncDecl)
  | getter (decl : FuncDecl)
  | setter (decl : FuncDecl)

namespace ClassMember

def field? : ClassMember → Option VarDecl
  | field d => some d
  | _ => none

def method? : ClassMember → Option FuncDecl
  | method d => some d
  | _ => none

def getter? : ClassMember → Option FuncDecl
  | getter d => some d
  | _ => none

def setter? : ClassMember → Option FuncDecl
  | setter d => some d
  | _ => none

end ClassMember

def method (exported : Bool) : Production FuncDecl := do
  let name ← name
  g.namedFunction name.position name.text exported

def field (exported : Bool) : Production VarDecl := do
  let field ← g.variableDeclaration false
  semicolon
  return { field with exported := exported }

/-- A member without the word that makes it private. -/
def bareMember (exported : Bool) : Production ClassMember := do
  if ← asks (Cursor.startsModified "get") then
    discard next
    return .getter (← g.method exported)
  else if ← asks (Cursor.startsModified "set") then
    discard next
    return .setter (← g.method exported)
  else if ← asks Cursor.startsMethod then return .method (← g.method exported)
  else return .field (← g.field exported)

/-- A member; all but the private ones are exported. -/
def classMember : Production ClassMember := do
  if ← asks (Cursor.startsModified "private") then
    discard next
    g.bareMember false
  else g.bareMember true

/-- The members of a class with the closing brace. -/
def classMembers : Production (List ClassMember) :=
  loop (fun members => do
    let t ← peek
    match t.kind with
    | .mark .closeBrace =>
      discard next
      return .done members.reverse
    | .endOfFile => fail .unclosedClass t.position
    | .mark .semicolon =>
      discard next
      return .again members
    | .identifier | .keyword _ => return .again ((← g.classMember) :: members)
    | _ => failHere .invalidClassMember) []

def classDeclaration (exported : Bool) : Production ClassDecl := do
  let keyword ← accept (.keyword .classWord)
  let name ← identifier
  typeParameters g.type
  if ← isAtWord "implements" then heritage g.type
  discard (accept (.mark .openBrace))
  let members ← g.classMembers
  return {
    position := keyword.position
    name := name.text
    exported := exported
    attributes := []
    fields := members.filterMap ClassMember.field?
    methods := members.filterMap ClassMember.method?
    getters := members.filterMap ClassMember.getter?
    setters := members.filterMap ClassMember.setter? }

/-- A function or a class. -/
def functionOrClass (exported : Bool) : Production Stmt := do
  if ← isAt (.keyword .classWord) then return .classDecl (← g.classDeclaration exported)
  else return .funcDecl (← g.functionDeclaration exported)

end ScriptFront.Grammar

namespace ScriptFront.Cursor

/-- Whether a method is assigned to the prototype of a type here. -/
def startsPrototypeMethod (c : Cursor) : Bool :=
  c.peek.kind == .identifier && (c.peekNth 1).kind == .mark .dot
    && (c.peekNth 2).isWord "prototype" && (c.peekNth 3).kind == .mark .dot
    && (c.peekNth 5).kind == .mark .equals && (c.peekNth 6).kind == .keyword .functionWord

end ScriptFront.Cursor

/-! ## Enums -/

namespace ScriptFront.Production

/-- The value of an enum member as written. For a number it comes with the integer it denotes, if
that fits. -/
def enumInitializer : Production (EnumValueKind × String × Position) := do
  let negative ← skips (.mark .minus)
  let t ← peek
  match t.kind with
  | .int =>
    discard next
    return (.int, if negative then "-" ++ t.text else t.text, t.position)
  | .string =>
    if negative then failHere .invalidEnumValue
    else
      discard next
      return (.string, t.text, t.position)
  | _ => failHere .invalidEnumValue

/-- A member when the counter stands at `counter`, and the counter for the next member. Only the first
member sets the counter, if it is a number that fits. -/
def enumMember (isFirst : Bool) (counter : Int) : Production (EnumMember × Int) := do
  let name ← name
  if ← skips (.mark .equals) then
    let (kind, value, position) ← enumInitializer
    let counter ←
      if isFirst && kind == .int then
        match Text.readSigned64 10 value.toList with
        | some n => pure n
        | none => fail (.invalidEnumValue value) position
      else pure counter
    return (⟨name.position, name.text, kind, value⟩, Text.next64 counter)
  else
    return (⟨name.position, name.text, .int, toString counter⟩, Text.next64 counter)

/-- The members of an enum up to its closing brace, with a comma or none behind each. -/
def enumMembers : Production (List EnumMember) :=
  loop (fun (s : List EnumMember × Int) => do
    if ← isAt (.mark .closeBrace) then return .done s.1.reverse
    let (member, counter) ← enumMember s.1.isEmpty s.2
    discard (optional (.mark .comma))
    return .again (member :: s.1, counter)) ([], 0)

def enumDeclaration (exported : Bool) : Production EnumDecl := do
  discard (accept (.keyword .enumWord))
  let name ← identifier
  discard (accept (.mark .openBrace))
  let members ← enumMembers
  discard next
  semicolon
  return ⟨name.position, name.text, exported, members⟩

end ScriptFront.Production
