import ScriptFront.Module.Load
import ScriptFront.Proofs.Files.Answer

/-!
# The import graph of files in memory

Which file an import means depends on the files alone, so the imports of a project form a graph on its
source files: there is an edge to every source file that an import resolves to. `Imported` are the files
that can be reached from an entry file along one edge or more, and `Loadable` says that nothing is in
the way of reading them all. `answer_resolveImports` and `answer_fetch` tie the programs to the graph.
-/

namespace ScriptFront

namespace MemoryFiles

open ScriptFront.Module

variable (m : MemoryFiles)

/-- What stands at a place. -/
def targetAt (place : String) : Option Target :=
  if m.exists? (place ++ Path.definitionExtension) then
    some (.definition (place ++ Path.definitionExtension))
  else if m.exists? (place ++ Path.sourceExtension) then
    some (.source (place ++ Path.sourceExtension))
  else none

theorem filesRead_append (a b : List Question) :
    m.filesRead (a ++ b) = m.filesRead a ++ m.filesRead b :=
  List.filterMap_append

theorem run_targetAt (place : String) :
    (m.run (Module.targetAt place)).1 = m.targetAt place ∧
      m.filesRead (m.run (Module.targetAt place)).2 = [] := by
  unfold Module.targetAt targetAt
  rw [run_bind, run_fileExists]
  cases m.exists? (place ++ Path.definitionExtension) with
  | true => exact ⟨rfl, rfl⟩
  | false =>
    simp only [Bool.false_eq_true, ↓reduceIte]
    rw [run_bind, run_fileExists]
    cases m.exists? (place ++ Path.sourceExtension) <;> exact ⟨rfl, rfl⟩

theorem run_firstTarget (places : List String) :
    (m.run (firstTarget places)).1 = places.findSome? m.targetAt ∧
      m.filesRead (m.run (firstTarget places)).2 = [] := by
  induction places with
  | nil => exact ⟨rfl, rfl⟩
  | cons place rest ih =>
    obtain ⟨hanswer, hreads⟩ := m.run_targetAt place
    unfold firstTarget
    rw [run_bind, hanswer, List.findSome?_cons, filesRead_append, hreads]
    cases m.targetAt place with
    | some t => exact ⟨rfl, rfl⟩
    | none => exact ih

/-- Only a file that exists is found as a source file, and it ends so. -/
theorem targetAt_source {place path : String} (h : m.targetAt place = some (.source path)) :
    m.exists? path = true ∧ path = place ++ Path.sourceExtension := by
  unfold targetAt at h
  split at h
  · cases h
  · split at h
    · cases h
      exact ⟨‹_›, rfl⟩
    · cases h

end MemoryFiles

namespace Module

variable (m : MemoryFiles) (project : Project)

/-! ## Edges -/

/-- What an import of `path` means in a file in the directory `dir`. -/
def target? (dir path : String) : Option Target :=
  (candidates project.cwd project.config path dir).findSome? m.targetAt

/-- The key of a source file. -/
def key (source : String) : String := Path.withoutEnding Path.sourceExtension source

/-- An import in a file in the directory `dir`, as it is left to be loaded if it means a source
file. -/
def pending? (dir : String) (i : Import) : Option Pending :=
  match target? m project dir i.path with
  | some (.source path) => some ⟨{ i with resolvedPath := key path }, path⟩
  | _ => none

/-- The imports of a file that mean source files, in order. -/
def pendingOf (file : File) : List Pending :=
  file.imports.filterMap (pending? m project (Path.directory file.path))

/-- Whether every import of a file means something. -/
def Resolves (file : File) : Prop :=
  ∀ i ∈ file.imports, (target? m project (Path.directory file.path) i.path).isSome

/-- A file with its imports resolved: those of type definitions are gone, and the others have got the
keys of the files that they mean. -/
def resolved (file : File) : File :=
  { file with
    imports := file.imports.filterMap fun i =>
      match target? m project (Path.directory file.path) i.path with
      | some (.source path) => some { i with resolvedPath := key path }
      | _ => none }

@[simp] theorem path_resolved (file : File) : (resolved m project file).path = file.path := rfl

@[simp] theorem globals_resolved (file : File) : (resolved m project file).globals = file.globals := rfl

theorem resolved_eq (file : File) :
    resolved m project file =
      { file with imports := (pendingOf m project file).map (·.declared) } := by
  unfold resolved pendingOf
  rw [List.map_filterMap]
  congr
  funext i
  unfold pending?
  cases target? m project (Path.directory file.path) i.path with
  | none => rfl
  | some t => cases t <;> rfl

/-- Whether the file at `path` is a text and parses as `file`. -/
def Parses (path : String) (file : File) : Prop :=
  ∃ s, m.text path = .ok s ∧ File.ofSource s path project.options = .ok file

/-- The files that `entry` imports, directly or through others. -/
inductive Imported (entry : File) : String → Prop
  | direct {i : Import} {path : String} (hi : i ∈ entry.imports)
      (hpath : target? m project (Path.directory entry.path) i.path = some (.source path)) :
      Imported entry path
  | through {importer : String} {file : File} {i : Import} {path : String}
      (himporter : Imported entry importer) (hfile : Parses m project importer file)
      (hi : i ∈ file.imports)
      (hpath : target? m project (Path.directory importer) i.path = some (.source path)) :
      Imported entry path

/-- Whether every file that `entry` imports can be read, and every import of them and of `entry` means
something. -/
structure Loadable (entry : File) : Prop where
  entryResolves : Resolves m project entry
  importsParse : ∀ {path}, Imported m project entry path →
    ∃ file, Parses m project path file ∧ Resolves m project file

/-! ## Pending imports -/

theorem mem_pendingOf {file : File} {p : Pending} :
    p ∈ pendingOf m project file ↔
      ∃ i ∈ file.imports, target? m project (Path.directory file.path) i.path = some (.source p.source) ∧
        p.declared = { i with resolvedPath := key p.source } := by
  unfold pendingOf
  rw [List.mem_filterMap]
  constructor
  · rintro ⟨i, hi, hp⟩
    unfold pending? at hp
    split at hp
    · next path hpath =>
      cases hp
      exact ⟨i, hi, hpath, rfl⟩
    · cases hp
  · rintro ⟨i, hi, htarget, hdeclared⟩
    refine ⟨i, hi, ?_⟩
    unfold pending?
    rw [htarget]
    exact congrArg some (congrArg (Pending.mk · p.source) hdeclared.symm)

/-- The text of a place comes back when the ending that was added to it is taken away. -/
theorem withoutEnding_append (s ending : String) : Path.withoutEnding ending (s ++ ending) = s := by
  unfold Path.withoutEnding
  have hsuffix : ending.toList.isSuffixOf (s ++ ending).toList = true := by
    rw [String.toList_append]
    exact List.isSuffixOf_iff_suffix.2 (List.suffix_append _ _)
  rw [if_pos hsuffix, String.toList_append]
  simp

variable {m project}

/-- What an import means exists, and its path is its key with the ending of source files. -/
theorem exists_of_target {dir path source : String}
    (h : target? m project dir path = some (.source source)) :
    m.exists? source = true ∧ source = key source ++ Path.sourceExtension := by
  obtain ⟨place, -, hplace⟩ := List.exists_of_findSome?_eq_some h
  obtain ⟨hexists, rfl⟩ := m.targetAt_source hplace
  exact ⟨hexists, by rw [key, withoutEnding_append]⟩

/-- A pending import of a file in memory: the file is there, and the import has got its key. -/
structure Pending.WF (m : MemoryFiles) (p : Pending) : Prop where
  sourceExists : m.exists? p.source = true
  source_eq : p.source = p.declared.resolvedPath ++ Path.sourceExtension

theorem pendingOf_wf {file : File} {p : Pending} (h : p ∈ pendingOf m project file) :
    p.WF m := by
  obtain ⟨i, -, htarget, hdeclared⟩ := (mem_pendingOf m project).1 h
  obtain ⟨hexists, hkey⟩ := exists_of_target htarget
  refine ⟨hexists, ?_⟩
  rw [hdeclared]
  exact hkey

theorem wf_pendingOf_append {file : File} {rest : List Pending} (h : ∀ p ∈ rest, p.WF m) :
    ∀ p ∈ pendingOf m project file ++ rest, p.WF m := by
  intro p hp
  rcases List.mem_append.1 hp with hp | hp
  · exact pendingOf_wf hp
  · exact h p hp

theorem Pending.WF.key_eq {p : Pending} (h : p.WF m) : key p.source = p.declared.resolvedPath := by
  rw [h.source_eq, key, withoutEnding_append]

/-! ## Reading one file -/

theorem parses_path {path : String} {file : File} (h : Parses m project path file) :
    file.path = path := by
  obtain ⟨s, -, hfile⟩ := h
  unfold File.ofSource at hfile
  cases htokens : Source.tokenize (Source.prepare s) with
  | error e =>
    rw [htokens] at hfile
    cases hfile
  | ok tokens =>
    rw [htokens] at hfile
    change File.ofTokens tokens path project.options = .ok file at hfile
    unfold File.ofTokens at hfile
    cases hdraft : Production.runOn Grammar.constructs project.options tokens with
    | error e =>
      rw [hdraft] at hfile
      cases hfile
    | ok d =>
      rw [hdraft] at hfile
      cases hfile
      rfl

theorem parses_unique {path : String} {f g : File} (hf : Parses m project path f)
    (hg : Parses m project path g) : f = g := by
  obtain ⟨s, hs, hf⟩ := hf
  obtain ⟨t, ht, hg⟩ := hg
  rw [hs] at ht
  cases ht
  rw [hf] at hg
  exact Except.ok.inj hg

/-! ## What the programs answer -/

variable (m project)

/-- Resolving imports fails at the first one that means nothing. -/
theorem answer_resolveEach (dir : String) (imports : List Import) :
    m.answer (resolveEach project dir imports) =
      match imports.find? fun i => (target? m project dir i.path).isNone with
      | some i => .error ⟨.importNotFound i.path, i.position⟩
      | none => .ok (imports.filterMap (pending? m project dir)) := by
  induction imports with
  | nil => rfl
  | cons i rest ih =>
    have htarget : (m.run (firstTarget (candidates project.cwd project.config i.path dir))).1 =
        target? m project dir i.path := (m.run_firstTarget _).1
    unfold resolveEach
    rw [m.answer_bind, m.answer_lift, htarget, List.find?_cons, List.filterMap_cons]
    unfold pending?
    cases target? m project dir i.path with
    | none => rfl
    | some t =>
      cases t with
      | definition path => exact ih
      | source path =>
        simp only [m.answer_bind, ih, Option.isNone_some]
        cases rest.find? fun i => (target? m project dir i.path).isNone <;> rfl

theorem filesRead_resolveEach (dir : String) (imports : List Import) :
    m.filesRead (m.asked (resolveEach project dir imports)) = [] := by
  induction imports with
  | nil => rfl
  | cons i rest ih =>
    have hreads := (m.run_firstTarget (candidates project.cwd project.config i.path dir)).2
    unfold resolveEach
    rw [m.asked_bind, m.answer_lift, m.asked_lift, m.filesRead_append, hreads]
    cases (m.run (firstTarget (candidates project.cwd project.config i.path dir))).1 with
    | none => rfl
    | some t =>
      cases t with
      | definition path => exact ih
      | source path =>
        simp only [m.asked_bind, m.filesRead_append, ih]
        cases m.answer (resolveEach project dir rest) <;> rfl

variable {m project}

theorem answer_resolveImports {file : File} (h : Resolves m project file) :
    m.answer (resolveImports project file) =
      .ok (resolved m project file, pendingOf m project file) := by
  have hfind : (file.imports.find? fun i =>
      (target? m project (Path.directory file.path) i.path).isNone) = none := by
    rw [List.find?_eq_none]
    intro i hi hnone
    have hsome := h i hi
    rw [Option.isNone_iff_eq_none.1 hnone] at hsome
    cases hsome
  have heach := answer_resolveEach m project (Path.directory file.path) file.imports
  rw [hfind] at heach
  unfold resolveImports
  rw [m.answer_bind_of_ok heach, resolved_eq]
  rfl

theorem answer_resolveImports_ok {file : File} {r : File × List Pending}
    (h : m.answer (resolveImports project file) = .ok r) :
    Resolves m project file ∧ r = (resolved m project file, pendingOf m project file) := by
  have hresolves : Resolves m project file := by
    unfold resolveImports at h
    obtain ⟨pending, heach, -⟩ := MemoryFiles.answer_bind_ok.1 h
    rw [answer_resolveEach] at heach
    intro i hi
    split at heach
    · cases heach
    · next hfind =>
      have hnone := List.find?_eq_none.1 hfind i hi
      rw [← Option.not_isNone, (Bool.not_eq_true _).mp hnone]
      rfl
  rw [answer_resolveImports hresolves] at h
  exact ⟨hresolves, (Except.ok.inj h).symm⟩

theorem filesRead_resolveImports (file : File) :
    m.filesRead (m.asked (resolveImports project file)) = [] := by
  unfold resolveImports
  rw [m.asked_bind, m.filesRead_append, filesRead_resolveEach]
  cases m.answer (resolveEach project (Path.directory file.path) file.imports) <;> rfl

theorem answer_parseFile_ok {path : String} {file : File} :
    m.answer (parseFile project path) = .ok file ↔ Parses m project path file := by
  unfold parseFile
  rw [MemoryFiles.answer_bind_ok]
  unfold Parses
  refine exists_congr fun s => and_congr_left fun _ => ?_
  rw [m.answer_text, MemoryFiles.mapError_eq_ok]

theorem asked_parseFile (path : String) :
    m.asked (parseFile project path) = [.read path] := by
  unfold parseFile
  rw [m.asked_bind, m.asked_text]
  cases m.answer (Inspection.text path) <;> rfl

variable (m project)

/-- What comes of reading the file of a pending import and resolving its imports. -/
def fetch (p : Pending) : Except Error (File × List Pending) :=
  m.answer (parseImport project p >>= resolveImports project)

variable {m project}

theorem asked_parseImport (p : Pending) : m.asked (parseImport project p) = [.read p.source] := by
  unfold parseImport
  rw [m.asked_adapt, asked_parseFile]

theorem answer_parseImport_ok {p : Pending} {file : File} :
    m.answer (parseImport project p) = .ok file ↔ Parses m project p.source file := by
  unfold parseImport
  rw [m.answer_adapt, MemoryFiles.mapError_eq_ok, answer_parseFile_ok]

theorem fetch_of_parses {p : Pending} {file : File} (hparses : Parses m project p.source file)
    (hresolves : Resolves m project file) :
    fetch m project p = .ok (resolved m project file, pendingOf m project file) := by
  unfold fetch
  rw [m.answer_bind_of_ok (answer_parseImport_ok.2 hparses), answer_resolveImports hresolves]

theorem fetch_ok {p : Pending} {r : File × List Pending} (h : fetch m project p = .ok r) :
    ∃ file, Parses m project p.source file ∧ Resolves m project file ∧
      r = (resolved m project file, pendingOf m project file) := by
  obtain ⟨file, hparse, hresolve⟩ := MemoryFiles.answer_bind_ok.1 h
  obtain ⟨hresolves, hr⟩ := answer_resolveImports_ok hresolve
  exact ⟨file, answer_parseImport_ok.1 hparse, hresolves, hr⟩

variable (project) in
/-- Of the files, only that of the import is read. -/
theorem filesRead_fetch {p : Pending} (h : m.exists? p.source = true) :
    m.filesRead (m.asked (parseImport project p >>= resolveImports project)) = [p.source] := by
  have hparse : m.filesRead (m.asked (parseImport project p)) = [p.source] := by
    rw [asked_parseImport]
    simp [MemoryFiles.filesRead, h]
  rw [m.asked_bind, m.filesRead_append, hparse]
  cases m.answer (parseImport project p) with
  | error e => rfl
  | ok file =>
    show [p.source] ++ m.filesRead (m.asked (resolveImports project file)) = _
    rw [filesRead_resolveImports]
    rfl

end Module

end ScriptFront
