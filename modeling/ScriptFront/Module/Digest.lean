import ScriptFront.Digest.Sha256
import ScriptFront.Module.Load

/-!
# The digest of a module

The digest is taken over the contents of all files of a module, each once, in the order of their paths.
-/

namespace ScriptFront.Module

/-- Puts a text at its place in a sorted list without repetitions. -/
def insertPath (path : String) : List String → List String
  | [] => [path]
  | p :: rest =>
    if path < p then path :: p :: rest
    else if path = p then p :: rest
    else p :: insertPath path rest

/-- The paths of all files of a module, sorted, each once. -/
def paths (m : Module) : List String :=
  (m.entry.path :: m.imported.map (·.2.path)).foldr insertPath []

/-- The contents of the files one after the other. -/
def contents : List String → Inspection (List UInt8)
  | [] => return []
  | path :: rest => do
    match ← (Inspect.readBytes path : Inspect _) with
    | .ok bytes => return bytes.toList ++ (← contents rest)
    | .error e => throw ⟨.unreadableFile path e.message, .start⟩

/-- The digest of the module whose entry file is at `path`. -/
def digest (limit : Nat) (cwd path : String) : Inspection (List UInt8) := do
  let m ← parse limit cwd path ⟨false⟩
  return Sha256.digest (← contents m.paths)

end ScriptFront.Module
