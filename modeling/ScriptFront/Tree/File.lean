import ScriptFront.Token
import ScriptFront.Tree

/-!
# Files and modules

A file is what one source text holds; a module is an entry file with every file that it imports,
directly or through others.
-/

namespace ScriptFront

structure Comment where
  position : Position
  multiLine : Bool
  text : String
deriving DecidableEq, Repr

namespace Comment

def ofToken? (t : Token) : Option Comment :=
  match t.kind with
  | .lineComment => some ⟨t.position, false, t.text⟩
  | .blockComment => some ⟨t.position, true, t.text⟩
  | _ => none

/-- The comments of a token list, attributes left out. -/
def ofTokens (tokens : List Token) : List Comment := tokens.filterMap ofToken?

end Comment

structure Import where
  position : Position
  /-- The path as written. -/
  path : String
  /-- The name that the imported file is bound to; empty for an import for its effects only. -/
  localName : String
  /-- The key of the imported file in the module; empty as long as the import is not resolved. -/
  resolvedPath : String
deriving DecidableEq, Repr

namespace Import

def isSideEffect (i : Import) : Bool := i.localName.isEmpty

end Import

structure File where
  path : String
  imports : List Import
  statements : List Stmt
  /-- Attributes that belong to no declaration. -/
  attributes : List String
  comments : List Comment
  /-- What `declare global` blocks declare. -/
  globals : List Stmt

namespace File

/-- The import that binds the name. -/
def import? (f : File) (name : String) : Option Import := f.imports.find? (·.localName == name)

end File

/-- An entry file with the files that it imports, in the order of their keys. The key of a file is its
absolute path without extension. -/
structure Module where
  basePath : String
  entry : File
  imported : List (String × File)

namespace Module

/-- The global declarations of the entry file, then those of every imported file. -/
def globals (m : Module) : List Stmt :=
  m.entry.globals ++ m.imported.flatMap fun f => f.2.globals

end Module

end ScriptFront
