import ScriptFront.Module.Digest
import ScriptFront.Text.Hex
import ScriptFront.Token.Table
import ScriptFront.Tree.Outline

/-!
# The command line

Three commands on one file each: `parse` writes the outlines of a module, `hash` its digest, `tokens`
the tokens of the file alone. Commands look at files through `Inspect` and answer with an `Outcome`.
-/

namespace ScriptFront

inductive Command where
  | parse (file : String) (optimize : Bool)
  | hash (file : String)
  | tokens (file : String)
deriving DecidableEq, Repr

/-- What a run of the program leaves behind. -/
structure Outcome where
  exitCode : UInt32
  stdout : String
  stderr : String
deriving DecidableEq, Repr

namespace CommandLine

/-! ## Arguments -/

def usage : String :=
  "Usage: dsc [-v] parse FILE [--optimize] | hash FILE | tokens FILE\n"

/-- The user asked how to use the program. -/
def help : Outcome := ⟨0, usage, ""⟩

/-- The arguments make no command. -/
def misuse : Outcome := ⟨2, "", usage⟩

/-- What a group of short options says: nothing but more words to log, or something else. -/
def shortOptions : List Char → Except Outcome Unit
  | [] => .ok ()
  | 'v' :: rest => shortOptions rest
  | 'h' :: _ => .error help
  | _ => .error misuse

/-- The arguments of a command as far as they have been read. -/
structure Arguments where
  file : Option String
  optimize : Bool

/-- Reads the arguments behind a command. Behind `--` everything is a file. -/
def readArguments (allowsOptimize : Bool) : Bool → Arguments → List String → Except Outcome Arguments
  | _, a, [] => .ok a
  | isPlain, a, s :: rest =>
    match isPlain, s.toList with
    | false, ['-', '-'] => readArguments allowsOptimize true a rest
    | false, '-' :: '-' :: _ =>
      if s = "--verbose" then readArguments allowsOptimize isPlain a rest
      else if s = "--help" then .error help
      else if s = "--optimize" ∧ allowsOptimize ∧ !a.optimize then
        readArguments allowsOptimize isPlain { a with optimize := true } rest
      else .error misuse
    | false, '-' :: c :: options =>
      match shortOptions (c :: options) with
      | .ok () => readArguments allowsOptimize isPlain a rest
      | .error o => .error o
    | _, _ =>
      if a.file.isSome then .error misuse
      else readArguments allowsOptimize isPlain { a with file := some s } rest

/-- A command with its arguments; it needs a file. -/
def withFile (allowsOptimize : Bool) (args : List String) (make : String → Bool → Command) :
    Except Outcome Command :=
  match readArguments allowsOptimize false ⟨none, false⟩ args with
  | .error o => .error o
  | .ok a =>
    match a.file with
    | some file => .ok (make file a.optimize)
    | none => .error misuse

/-- Whether help on the program or on one of its commands is asked for. -/
def asksForHelp : List String → Bool
  | [] => true
  | [s] => ["parse", "hash", "tokens", "help"].contains s
  | _ => false

/-- The command that the arguments of the program ask for. -/
def read : List String → Except Outcome Command
  | [] => .error misuse
  | s :: rest =>
    match s with
    | "parse" => withFile true rest .parse
    | "hash" => withFile false rest fun file _ => .hash file
    | "tokens" => withFile false rest fun file _ => .tokens file
    | "help" => .error (if asksForHelp rest then help else misuse)
    | "--help" => .error help
    | "--verbose" => read rest
    | s =>
      match s.toList with
      | '-' :: c :: options =>
        match shortOptions (c :: options) with
        | .ok () => read rest
        | .error o => .error o
      | _ => .error misuse

/-! ## Commands -/

/-- The outline of a file under its path. -/
def fileOutline (f : File) : String :=
  "// " ++ f.path ++ "\n" ++ (Outline.ofFile f).text ++ "\n"

/-- What a command writes when nothing goes wrong. -/
def output (limit : Nat) (cwd : String) : Command → Inspection String
  | .parse file optimize => do
    let m ← Module.parse limit cwd file ⟨optimize⟩
    return String.join ((m.entry :: m.imported.map (·.2)).map fileOutline)
  | .hash file => do return Text.hexText (← Module.digest limit cwd file) ++ "\n"
  | .tokens file => do
    let source ← Inspection.text (← Module.findEntry cwd file)
    return Token.table (← Inspection.ofExcept (Source.tokenize (Source.prepare source)))

def run (limit : Nat) (cwd : String) (command : Command) : Inspect Outcome := do
  match ← (output limit cwd command).run with
  | .ok s => return ⟨0, s, ""⟩
  | .error e => return ⟨1, "", e.kind.text ++ ": " ++ e.text ++ "\n"⟩

end CommandLine

end ScriptFront
