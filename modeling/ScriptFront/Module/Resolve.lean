import ScriptFront.Config
import ScriptFront.Files.Inspect

/-!
# Finding files

Where the entry file of a project is, which config file belongs to it, and which file an import means.
An import is looked up in the search directories first, then next to the file that imports it, then
among the vendored files; in each place a file of type definitions goes before a source file.
-/

namespace ScriptFront.Module

/-- The directory for files that are not where they are expected. -/
def vendorDirectory : String := "vendor"

/-- The place of a path among the vendored files. -/
def vendored (cwd path : String) : String :=
  Path.combine cwd (Path.combine vendorDirectory path)

/-! ## The entry file -/

/-- The file at `path`, or the vendored one if there is none. -/
def findEntry (cwd path : String) : Inspection String := do
  let absolute := Path.combine cwd path
  if ← (Inspect.fileExists absolute : Inspect _) then return absolute
  if ← (Inspect.fileExists (vendored cwd path) : Inspect _) then return vendored cwd path
  throw ⟨.fileNotFound path, .start⟩

/-! ## The config file -/

/-- A directory and those that it lies in, from the inside out, `n + 1` at most. -/
def ancestorsFrom : Nat → String → List String
  | 0, dir => [dir]
  | n + 1, dir =>
    let parent := Path.directory dir
    if parent = dir then [dir] else dir :: ancestorsFrom n parent

/-- Going up shortens a path, but for a single segment that becomes a point. -/
def ancestors (dir : String) : List String := ancestorsFrom (dir.length + 1) dir

/-- The configuration in the first of the directories that has a config file. -/
def configIn (otherwise : Config) : List String → Inspection Config
  | [] => return otherwise
  | dir :: rest => do
    let path := Path.combine dir Config.fileName
    if ← (Inspect.fileExists path : Inspect _) then
      Inspection.ofExcept (Config.ofText (← Inspection.text path) path)
    else configIn otherwise rest

/-- The configuration for an entry file: the config file next to it or the nearest one above. Without
one, the directory of the entry file is the base path. -/
def findConfig (cwd entry : String) : Inspection Config :=
  let dir := Path.directory (Path.combine cwd entry)
  configIn (.ofBasePath dir) (ancestors dir)

/-! ## Imports -/

/-- What an import means. -/
inductive Target where
  /-- A file of type definitions: there is nothing to load. -/
  | definition (path : String)
  | source (path : String)
deriving DecidableEq, Repr

/-- The places, without extension, where an import of `path` is looked up for a file in `importerDir`,
in order. -/
def candidates (cwd : String) (config : Config) (path importerDir : String) : List String :=
  (if Path.isRooted path then [Path.normalize path] else [])
    ++ config.searchPaths.map (fun dir => Path.join [config.basePath, Path.trimWildcard dir, path])
    ++ [Path.combine cwd (Path.combine importerDir path), vendored cwd path]

/-- What stands at one of the places. -/
def targetAt (place : String) : Inspect (Option Target) := do
  let definition := place ++ Path.definitionExtension
  if ← Inspect.fileExists definition then return some (.definition definition)
  let source := place ++ Path.sourceExtension
  if ← Inspect.fileExists source then return some (.source source)
  return none

/-- What stands at the first place where something stands. -/
def firstTarget : List String → Inspect (Option Target)
  | [] => return none
  | place :: rest => do
    match ← targetAt place with
    | some t => return some t
    | none => firstTarget rest

end ScriptFront.Module
