import Mathlib.Logic.Function.Iterate
import ScriptFront.Proofs.Module.Entry
import ScriptFront.Proofs.Path.Normal

/-!
# Modules of source texts

A module can be made of the file at a path, of a text that is taken for that file, and of a text that is
in no file. The first two agree when no config file is found on the way up from the file
(`parse_eq_parseSource`): the path of the file is absolute already, so its directory is the base path
either way. The third one has no files to import, and reads the same file but for its path.
-/

namespace ScriptFront

/-- The path of a file has no part in what is read. -/
theorem File.ofSource_withPath (source path : String) (options : Options) :
    File.ofSource source path options =
      (File.ofSource source "" options).map fun file => { file with path := path } := by
  unfold File.ofSource
  cases Source.tokenize (Source.prepare source) with
  | error e => rfl
  | ok tokens =>
    show File.ofTokens tokens path options = (File.ofTokens tokens "" options).map _
    unfold File.ofTokens
    cases Production.runOn Grammar.constructs options tokens <;> rfl

namespace Module

variable {m : MemoryFiles} {project : Project}

/-! ## Directories without a config file -/

variable (m) in
/-- Whether no directory that the file at `path` lies in has a config file. -/
def Unconfigured (path : String) : Prop :=
  ∀ n, m.exists? (Path.combine (Path.directory^[n + 1] path) Config.fileName) = false

/-- Going up is taking the directory again and again. -/
theorem exists_iterate_of_mem {n : Nat} {dir above : String} (h : above ∈ ancestorsFrom n dir) :
    ∃ k, above = Path.directory^[k] dir := by
  induction n generalizing dir with
  | zero =>
    rw [ancestorsFrom, List.mem_singleton] at h
    exact ⟨0, h⟩
  | succ n ih =>
    unfold ancestorsFrom at h
    dsimp only at h
    split at h
    · exact ⟨0, List.mem_singleton.1 h⟩
    · rcases List.mem_cons.1 h with rfl | h
      · exact ⟨0, rfl⟩
      · obtain ⟨k, rfl⟩ := ih h
        exact ⟨k + 1, rfl⟩

theorem answer_configIn {otherwise : Config} {dirs : List String}
    (h : ∀ dir ∈ dirs, m.exists? (Path.combine dir Config.fileName) = false) :
    m.answer (configIn otherwise dirs) = .ok otherwise := by
  induction dirs with
  | nil => rfl
  | cons dir rest ih =>
    rw [List.forall_mem_cons] at h
    unfold configIn
    rw [m.answer_bind, m.answer_lift, m.run_fileExists, h.1]
    exact ih h.2

/-- Without a config file the directory of the entry file is the base path. -/
theorem answer_findConfig {path : String} (hcwd : Path.isRooted m.cwd = true)
    (h : Unconfigured m (m.resolve path)) :
    m.answer (findConfig m.cwd (m.resolve path)) =
      .ok (.ofBasePath (Path.directory (m.resolve path))) := by
  have habsolute : Path.combine m.cwd (m.resolve path) = m.resolve path :=
    Path.combine_combine hcwd path
  unfold findConfig
  rw [habsolute]
  refine answer_configIn fun dir hdir => ?_
  obtain ⟨k, rfl⟩ := exists_iterate_of_mem hdir
  exact h k

/-! ## Files without imports -/

theorem answer_load_of_imports_nil (limit : Nat) (file : File) (h : file.imports = []) :
    m.answer (load project limit file) = .ok ⟨project.config.basePath, file, []⟩ := by
  have hresolves : Resolves m project file := by
    intro i hi
    rw [h] at hi
    exact absurd hi List.not_mem_nil
  have hpending : pendingOf m project file = [] := by
    unfold pendingOf
    rw [h, List.filterMap_nil]
  have hresolved : resolved m project file = file := by
    rw [resolved_eq, hpending, List.map_nil, ← h]
  rw [answer_load m project limit hresolves, hpending, loadPending_nil, hresolved]
  rfl

theorem ofText_of_imports_nil {content : String} {options : Options} {file : File}
    (hfile : File.ofSource content "" options = .ok file) (h : file.imports = []) :
    ofText content options = .ok ⟨"", file, []⟩ := by
  unfold ofText
  rw [hfile]
  cases file
  cases h
  rfl

/-! ## The entry points -/

theorem exists_of_text {path content : String} (h : m.text path = .ok content) :
    m.exists? path = true := by
  unfold MemoryFiles.text MemoryFiles.read at h
  unfold MemoryFiles.exists?
  cases hfind : m.find? path with
  | some bytes => rfl
  | none =>
    rw [hfind] at h
    cases h

/-- The file at a path is read from its text. -/
theorem answer_parseFile_of_text {path content : String} (h : m.text path = .ok content) :
    m.answer (parseFile project path) = File.ofSource content path project.options := by
  have htext : m.answer (Inspection.text path) = .ok content := by
    rw [m.answer_text, h]
    rfl
  unfold parseFile
  rw [m.answer_bind_of_ok htext, m.answer_ofExcept]

/-- **Source texts.** A file that no config file belongs to and its content, taken for that file, make the
same module or fail with the same error. If the content imports nothing, it makes the same file by itself,
but for the path. -/
theorem parse_eq_parseSource (m : MemoryFiles) (path content : String) (options : Options)
    (hcwd : Path.isRooted m.cwd = true) (htext : m.text (m.resolve path) = .ok content)
    (hconfig : Unconfigured m (m.resolve path)) :
    (m.parse path options).1 = (m.parseSource content path options).1 ∧
      ∀ file, File.ofSource content "" options = .ok file → file.imports = [] →
        ofText content options = .ok ⟨"", file, []⟩ ∧
          (m.parse path options).1 = .ok
            ⟨Path.directory (m.resolve path), { file with path := m.resolve path }, []⟩ := by
  have hfound : m.answer (findEntry m.cwd path) = .ok (m.resolve path) := by
    rw [answer_findEntry]
    exact if_pos (exists_of_text htext)
  have hparse : (m.parse path options).1 =
      m.answer (Inspection.ofExcept (File.ofSource content (m.resolve path) options) >>=
        load ⟨m.cwd, .ofBasePath (Path.directory (m.resolve path)), options⟩ m.loadLimit) := by
    change m.answer (parse m.loadLimit m.cwd path options) = _
    unfold parse
    rw [m.answer_bind_of_ok hfound, m.answer_bind_of_ok (answer_findConfig hcwd hconfig),
      m.answer_bind, m.answer_bind, answer_parseFile_of_text htext, m.answer_ofExcept]
  refine ⟨hparse, fun file hfile himports => ⟨ofText_of_imports_nil hfile himports, ?_⟩⟩
  have hread : m.answer (Inspection.ofExcept (File.ofSource content (m.resolve path) options)) =
      .ok { file with path := m.resolve path } := by
    rw [m.answer_ofExcept, File.ofSource_withPath, hfile]
    rfl
  rw [hparse, m.answer_bind_of_ok hread,
    answer_load_of_imports_nil m.loadLimit { file with path := m.resolve path } himports]
  simp only [Config.ofBasePath]

/-- A file two directories below the root, and no config file anywhere. -/
def scriptInWork : MemoryFiles :=
  (MemoryFiles.ofCwd "/work").add "src/a.ts" "declare global { const A = 1 }".toUTF8

theorem scriptInWork_unconfigured : Unconfigured scriptInWork "/work/src/a.ts" := by
  intro n
  have hdirs : Path.directory^[n + 1] "/work/src/a.ts" ∈ ["/work/src", "/work", "/"] := by
    induction n with
    | zero => decide +kernel
    | succ n ih =>
      rw [Function.iterate_succ_apply']
      revert ih
      generalize Path.directory^[n + 1] "/work/src/a.ts" = dir
      revert dir
      decide +kernel
  revert hdirs
  generalize Path.directory^[n + 1] "/work/src/a.ts" = dir
  revert dir
  decide +kernel

theorem parse_eq_parseSource_inWork : ∃ file,
    (scriptInWork.parse "src/a.ts" ⟨false⟩).1 =
        (scriptInWork.parseSource "declare global { const A = 1 }" "src/a.ts" ⟨false⟩).1 ∧
      ofText "declare global { const A = 1 }" ⟨false⟩ = .ok ⟨"", file, []⟩ ∧
      (scriptInWork.parse "src/a.ts" ⟨false⟩).1 =
        .ok ⟨"/work/src", { file with path := "/work/src/a.ts" }, []⟩ := by
  have himports : (File.ofSource "declare global { const A = 1 }" "" ⟨false⟩).map (·.imports) =
      .ok [] := by decide +kernel
  obtain ⟨file, hfile, hnone⟩ := exists_map_eq_ok himports
  obtain ⟨hsource, halone⟩ := parse_eq_parseSource scriptInWork "src/a.ts"
    "declare global { const A = 1 }" ⟨false⟩ (by decide) (by decide +kernel) scriptInWork_unconfigured
  obtain ⟨hofText, hparse⟩ := halone file hfile hnone
  exact ⟨file, hsource, hofText, hparse⟩

end Module

end ScriptFront
