import ScriptFront.Module.Resolve
import ScriptFront.Production.SourceFile

/-!
# Loading modules

A module is loaded from its entry file on: the imports of a file are resolved, and each of them is
loaded together with what it imports before the next one. A file is entered before its own imports are
followed, so a cycle of imports ends where it meets itself.
-/

namespace ScriptFront.Module

/-- What is the same for all files of a module. -/
structure Project where
  cwd : String
  config : Config
  options : Options

/-- A resolved import of a source file. -/
structure Pending where
  /-- The import, with its key as resolved path. -/
  declared : Import
  /-- The file that it means. -/
  source : String

/-- What has been loaded. -/
structure Loaded where
  /-- The files imported for their effects. -/
  effects : List String
  /-- The imported files with their keys, in the order of the keys. -/
  files : List (String × File)

namespace Loaded

def empty : Loaded := ⟨[], []⟩

/-- Whether nothing has to be loaded for an import. -/
def covers (l : Loaded) (p : Pending) : Bool :=
  if p.declared.isSideEffect then l.effects.contains p.source
  else l.files.any (·.1 == p.declared.resolvedPath)

/-- Puts a file at its place in the order of keys, in place of one with the same key. -/
def insertFile (key : String) (file : File) : List (String × File) → List (String × File)
  | [] => [(key, file)]
  | (k, f) :: rest =>
    if key < k then (key, file) :: (k, f) :: rest
    else if key = k then (key, file) :: rest
    else (k, f) :: insertFile key file rest

def add (l : Loaded) (p : Pending) (file : File) : Loaded where
  effects := if p.declared.isSideEffect then p.source :: l.effects else l.effects
  files := insertFile p.declared.resolvedPath file l.files

end Loaded

variable (project : Project)

/-- Reads the file at an absolute path. -/
def parseFile (path : String) : Inspection File := do
  Inspection.ofExcept (File.ofSource (← Inspection.text path) path project.options)

/-- The imports in order, each with the file that it means. Imports of type definitions are left
out. -/
def resolveEach (importerDir : String) : List Import → Inspection (List Pending)
  | [] => return []
  | i :: rest => do
    let places := candidates project.cwd project.config i.path importerDir
    match ← (firstTarget places : Inspect _) with
    | none => throw ⟨.importNotFound i.path, i.position⟩
    | some (.definition _) => resolveEach importerDir rest
    | some (.source path) =>
      let key := Path.withoutEnding Path.sourceExtension path
      return ⟨{ i with resolvedPath := key }, path⟩ :: (← resolveEach importerDir rest)

/-- Resolves the imports of a file. -/
def resolveImports (file : File) : Inspection (File × List Pending) := do
  let pending ← resolveEach project (Path.directory file.path) file.imports
  return ({ file with imports := pending.map (·.declared) }, pending)

/-- Reads the file of an import. An error in it becomes an error of the import. -/
def parseImport (p : Pending) : Inspection File :=
  ExceptT.adapt (fun e => ⟨.importFailed p.declared.path e.cause e.position, p.declared.position⟩)
    (parseFile project p.source)

/-- Loads the imports that are not covered yet, and what they import. The number bounds the files that
are still to be read. -/
def loadPending : Nat → Loaded → List Pending → Inspection Loaded
  | limit, l, pending =>
    match pending.dropWhile l.covers with
    | [] => return l
    | p :: rest =>
      match limit with
      | 0 => throw ⟨.stalled, p.declared.position⟩
      | limit + 1 => do
        let (file, more) ← resolveImports project (← parseImport project p)
        loadPending limit (l.add p file) (more ++ rest)

/-- The module around an entry file that has been read. -/
def load (limit : Nat) (entry : File) : Inspection Module := do
  let (entry, pending) ← resolveImports project entry
  let l ← loadPending project limit .empty pending
  return ⟨project.config.basePath, entry, l.files⟩

/-! ## Entry points -/

/-- The module whose entry file is at `path`. -/
def parse (limit : Nat) (cwd path : String) (options : Options) : Inspection Module := do
  let entry ← findEntry cwd path
  let config ← findConfig cwd entry
  let project : Project := ⟨cwd, config, options⟩
  load project limit (← parseFile project entry)

/-- The module of a source text that is in no file and imports nothing. -/
def ofText (source : String) (options : Options) : Except Error Module := do
  let file ← File.ofSource source "" options
  match file.imports with
  | [] => return ⟨"", file, []⟩
  | i :: _ => throw ⟨.importsWithoutFiles, i.position⟩

/-- The module of a source text whose imports are found as if it were the file of the given name. -/
def parseSource (limit : Nat) (cwd source fileName : String) (options : Options) :
    Inspection Module := do
  let path := Path.combine cwd fileName
  let project : Project := ⟨cwd, .ofBasePath (Path.directory path), options⟩
  load project limit (← Inspection.ofExcept (File.ofSource source path options))

end ScriptFront.Module

