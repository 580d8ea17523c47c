import ScriptFront.CommandLine

/-!
# The program

Answers the questions of a command from the disk and writes its outcome.
-/

namespace ScriptFront.Program

/-- No project has more files than this. -/
def fileLimit : Nat := 4294967296

/-- Whether a regular file stands at an absolute path. -/
def isFile (path : String) : IO Bool := do
  try
    let metadata ← ((← IO.currentDir) / path).metadata
    return metadata.type == .file
  catch _ => return false

def readFile (path : String) : IO (Except ReadFailure ByteArray) := do
  try
    return .ok (← IO.FS.readBinFile path)
  catch e => return .error (.other (toString e))

/-- Answers a program that looks at files. -/
def answer {α : Type} : Inspect α → IO α
  | .done a => return a
  | .exists? path next => do answer (next (← isFile path))
  | .read path next => do answer (next (← readFile path))

def write (o : Outcome) : IO UInt32 := do
  (← IO.getStdout).putStr o.stdout
  (← IO.getStderr).putStr o.stderr
  return o.exitCode

end ScriptFront.Program

def main (args : List String) : IO UInt32 := do
  match ScriptFront.CommandLine.read args with
  | .error o => ScriptFront.Program.write o
  | .ok command =>
    let cwd := ScriptFront.Path.normalize (← IO.currentDir).toString
    let o ← ScriptFront.Program.answer
      (ScriptFront.CommandLine.run ScriptFront.Program.fileLimit cwd command)
    ScriptFront.Program.write o
