import ScriptFront.Files.Inspect
import ScriptFront.Path

/-!
# Files in memory

A finite set of files with a working directory, and what a program sees that looks at them. A run also
tells which questions were asked, in order.
-/

namespace ScriptFront

structure MemoryFiles where
  cwd : String
  /-- Absolute paths, each once, with their contents. -/
  files : List (String × ByteArray)

/-- What a program can ask about a path. -/
inductive Question where
  | exists? (path : String)
  | read (path : String)
deriving DecidableEq, Repr

namespace MemoryFiles

def ofCwd (cwd : String) : MemoryFiles := ⟨Path.normalize cwd, []⟩

/-- The path made absolute. -/
def resolve (m : MemoryFiles) (path : String) : String := Path.combine m.cwd path

/-- Adds a file or replaces its content. A relative path is taken from the working directory. -/
def add (m : MemoryFiles) (path : String) (content : ByteArray) : MemoryFiles :=
  let path := m.resolve path
  { m with files := (path, content) :: m.files.filter (·.1 ≠ path) }

def find? (m : MemoryFiles) (path : String) : Option ByteArray :=
  (m.files.find? (·.1 = path)).map (·.2)

def exists? (m : MemoryFiles) (path : String) : Bool := (m.find? path).isSome

def read (m : MemoryFiles) (path : String) : Except ReadFailure ByteArray :=
  match m.find? path with
  | some bytes => .ok bytes
  | none => .error (.notFound path)

/-- The answer of a program that looks at these files, and the questions it asks. -/
def run {α : Type} (m : MemoryFiles) : Inspect α → α × List Question
  | .done a => (a, [])
  | .exists? path next =>
    let (a, asked) := m.run (next (m.exists? path))
    (a, .exists? path :: asked)
  | .read path next =>
    let (a, asked) := m.run (next (m.read path))
    (a, .read path :: asked)

/-- The files whose content was given out in answer to these questions, each as often as it was. -/
def filesRead (m : MemoryFiles) (asked : List Question) : List String :=
  asked.filterMap fun q =>
    match q with
    | .read path => if m.exists? path then some path else none
    | .exists? _ => none

/-- How often the file at `path`, taken from the working directory, is among those read. -/
def readCount (m : MemoryFiles) (reads : List String) (path : String) : Nat :=
  reads.count (m.resolve path)

end MemoryFiles

end ScriptFront
