import ScriptFront.Diagnostic
import ScriptFront.Text.Utf8

/-!
# Looking at files

A program that looks at files is an `Inspect`: it has an answer, or it asks whether a file exists or
what it holds, and goes on with what it is told. Who answers is left open, so the same program runs
against files in memory and against those of a disk, and what it asked for can be recorded.
-/

namespace ScriptFront

/-- Why the content of a file could not be had. -/
inductive ReadFailure where
  | notFound (path : String)
  | notText (failure : Text.Utf8.Failure)
  | other (message : String)
deriving DecidableEq, Repr

namespace ReadFailure

def message : ReadFailure → String
  | notFound path => path ++ " does not exist"
  | notText failure => failure.message
  | other message => message

end ReadFailure

/-- A program that looks at files. Paths are absolute. -/
inductive Inspect (α : Type) where
  | done (a : α)
  | exists? (path : String) (next : Bool → Inspect α)
  | read (path : String) (next : Except ReadFailure ByteArray → Inspect α)

namespace Inspect

variable {α β : Type}

protected def bind : Inspect α → (α → Inspect β) → Inspect β
  | done a, f => f a
  | exists? path next, f => exists? path fun b => (next b).bind f
  | read path next, f => read path fun r => (next r).bind f

instance : Monad Inspect where
  pure := done
  bind := Inspect.bind

/-- Whether a file exists at the path. -/
def fileExists (path : String) : Inspect Bool := exists? path done

def readBytes (path : String) : Inspect (Except ReadFailure ByteArray) := read path done

/-- The content of a file as text. -/
def readText (path : String) : Inspect (Except ReadFailure String) :=
  read path fun r => done <|
    match r with
    | .error e => .error e
    | .ok bytes =>
      match Text.Utf8.decode bytes with
      | .ok s => .ok s
      | .error f => .error (.notText f)

end Inspect

/-- A program that looks at files and may fail. -/
abbrev Inspection (α : Type) : Type := ExceptT Error Inspect α

namespace Inspection

variable {α : Type}

def ofExcept (r : Except Error α) : Inspection α := ExceptT.mk (.done r)

/-- The text of a file that has to be readable. -/
def text (path : String) : Inspection String := do
  match ← (Inspect.readText path : Inspect _) with
  | .ok s => return s
  | .error e => throw ⟨.unreadableFile path e.message, .start⟩

end Inspection

end ScriptFront
