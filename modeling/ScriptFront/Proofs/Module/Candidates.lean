import ScriptFront.Proofs.Module.Questions
import ScriptFront.Proofs.Path.Absolute

/-!
# Where imports are looked up

The places where an import is looked up are absolute paths, also with the endings that are written behind
them (`isAbsolute_of_mem_candidates`), and a rooted import is looked up at one place only
(`eq_normalize_of_mem_candidates`). So the paths of two imported files differ exactly when the files do, and
the keys of the files tell as much (`candidates_absolute`).
-/

namespace ScriptFront.Module

/-! ## Places -/

section Places

variable {cwd path dir place : String} {config : Config}

theorem isAbsolute_of_mem_candidates (hcwd : Path.isRooted cwd = true)
    (hbase : Path.isRooted config.basePath = true) (h : place ∈ candidates cwd config path dir) :
    Path.IsAbsolute place := by
  unfold candidates vendored at h
  simp only [List.mem_append, List.mem_map, List.mem_cons, List.not_mem_nil, or_false] at h
  rcases h with (hrooted | ⟨searchPath, -, rfl⟩) | rfl | rfl
  · split at hrooted
    · next hpath =>
      rw [List.mem_singleton.1 hrooted]
      exact Path.isAbsolute_normalize hpath
    · cases hrooted
  · exact Path.isAbsolute_join hbase _
  · exact Path.isAbsolute_combine hcwd _
  · exact Path.isAbsolute_combine hcwd _

/-- A rooted path leads to one place, wherever it is looked up from. -/
theorem eq_normalize_of_mem_candidates (hpath : Path.isRooted path = true)
    (h : place ∈ candidates cwd config path dir) : place = Path.normalize path := by
  have hcombine : ∀ base, Path.combine cwd (Path.combine base path) = Path.normalize path := by
    intro base
    rw [Path.combine_of_isRooted hpath, Path.combine_of_isRooted (Path.isRooted_normalize hpath),
      Path.normalize_normalize]
  unfold candidates vendored at h
  simp only [List.mem_append, List.mem_map, List.mem_cons, List.not_mem_nil, or_false] at h
  rcases h with (hrooted | ⟨searchPath, -, rfl⟩) | rfl | rfl
  · rw [if_pos hpath] at hrooted
    exact List.mem_singleton.1 hrooted
  · exact Path.join_concat hpath [config.basePath, Path.trimWildcard searchPath]
  · exact hcombine dir
  · exact hcombine vendorDirectory

theorem sourceExtension_isPlain : Path.IsPlain Path.sourceExtension.toList where
  noSlash := by decide
  noBackslash := by decide
  notEmpty := by decide
  notHere := by decide
  notUp := by decide

theorem definitionExtension_isPlain : Path.IsPlain Path.definitionExtension.toList where
  noSlash := by decide
  noBackslash := by decide
  notEmpty := by decide
  notHere := by decide
  notUp := by decide

theorem isAbsolute_source (h : Path.IsAbsolute place) :
    Path.IsAbsolute (place ++ Path.sourceExtension) :=
  h.append_ending sourceExtension_isPlain (by decide)

theorem isAbsolute_definition (h : Path.IsAbsolute place) :
    Path.IsAbsolute (place ++ Path.definitionExtension) :=
  h.append_ending definitionExtension_isPlain (by decide)

end Places

variable {m : MemoryFiles} {project : Project}

/-- Only the two files of a place are looked for there. -/
theorem TargetAsks.exists_place {places : List String} {q : Question} (h : TargetAsks m places q) :
    ∃ place ∈ places, q = .exists? (place ++ Path.definitionExtension) ∨
      q = .exists? (place ++ Path.sourceExtension) := by
  cases h with
  | @definition place hplace =>
    obtain ⟨before, behind, rfl, -⟩ := hplace
    exact ⟨place, by simp, .inl rfl⟩
  | @source place hplace =>
    obtain ⟨before, behind, rfl, -⟩ := hplace
    exact ⟨place, by simp, .inr rfl⟩

/-! ## Keys -/

/-- The key of a file says which file it is. -/
theorem Pending.WF.key_inj {p p' : Pending} (h : p.WF m) (h' : p'.WF m) :
    p.declared.resolvedPath = p'.declared.resolvedPath ↔ p.source = p'.source := by
  rw [h.source_eq, h'.source_eq, ← String.toList_inj, ← String.toList_inj, String.toList_append,
    String.toList_append, List.append_left_inj]

/-- What an import means has an absolute path. -/
theorem isAbsolute_of_mem_pendingOf (hcwd : Path.isRooted project.cwd = true)
    (hbase : Path.isRooted project.config.basePath = true) {file : File} {p : Pending}
    (h : p ∈ pendingOf m project file) : Path.IsAbsolute p.source := by
  obtain ⟨i, -, htarget, -⟩ := (mem_pendingOf m project).1 h
  obtain ⟨place, hmem, hplace⟩ := List.exists_of_findSome?_eq_some htarget
  obtain ⟨-, hsource⟩ := m.targetAt_source hplace
  rw [hsource]
  exact isAbsolute_source (isAbsolute_of_mem_candidates hcwd hbase hmem)

/-- **Places and keys.** From a rooted working directory and a rooted base path every place where an import is
looked up is an absolute path, wherever the import stands, and so are the files there. For a rooted import
that is its normal form, and only the files of this place are looked for. All imports that a load meets mean
files with absolute paths, which are their keys with the ending of source files; two of them have one key
exactly when they mean one file. -/
theorem candidates_absolute (project : Project) (hcwd : Path.isRooted project.cwd = true)
    (hbase : Path.isRooted project.config.basePath = true) :
    (∀ path dir,
      (∀ place ∈ candidates project.cwd project.config path dir,
        Path.IsAbsolute place ∧ Path.IsAbsolute (place ++ Path.sourceExtension) ∧
          Path.IsAbsolute (place ++ Path.definitionExtension)) ∧
      (Path.isRooted path = true →
        (∀ place ∈ candidates project.cwd project.config path dir, place = Path.normalize path) ∧
        ∀ (m : MemoryFiles),
          ∀ q ∈ (m.run (firstTarget (candidates project.cwd project.config path dir))).2,
            q = .exists? (Path.normalize path ++ Path.definitionExtension) ∨
              q = .exists? (Path.normalize path ++ Path.sourceExtension))) ∧
    ∀ (m : MemoryFiles) (entry : File), ∀ p ∈ importsOf m project entry,
      p.source = p.declared.resolvedPath ++ Path.sourceExtension ∧ Path.IsAbsolute p.source ∧
        ∀ p' ∈ importsOf m project entry,
          p.declared.resolvedPath = p'.declared.resolvedPath ↔ p.source = p'.source := by
  refine ⟨?_, ?_⟩
  · intro path dir
    refine ⟨?_, fun hpath => ⟨fun place => eq_normalize_of_mem_candidates hpath, ?_⟩⟩
    · intro place hplace
      have habsolute := isAbsolute_of_mem_candidates hcwd hbase hplace
      exact ⟨habsolute, isAbsolute_source habsolute, isAbsolute_definition habsolute⟩
    · intro m q hq
      obtain ⟨place, hplace, hasked⟩ := (mem_asked_firstTarget.1 hq).exists_place
      rwa [eq_normalize_of_mem_candidates hpath hplace] at hasked
  · intro m entry p hp
    have hrun := @importsOf_run m project entry
    have hwf := hrun.met_wf fun _ hpending => pendingOf_wf hpending
    have habsolute : ∀ file, ∀ p ∈ pendingOf m project file, Path.IsAbsolute p.source :=
      fun _ _ => isAbsolute_of_mem_pendingOf hcwd hbase
    refine ⟨(hwf p hp).source_eq, hrun.forall_met (habsolute entry) habsolute p hp, ?_⟩
    intro p' hp'
    exact (hwf p hp).key_inj (hwf p' hp')

/-- A project on a drive that is searched below a base path without one. -/
def onDrive : Project := ⟨"C:\\work", ⟨"/p/./q/..", ["lib\\*", "D:/deps/*", ""]⟩, ⟨false⟩⟩

/-- A file with two imports that mean one file. -/
def twoSpellings : File :=
  ⟨"/p/main.ts", [⟨⟨1, 1⟩, "./a", "", ""⟩, ⟨⟨2, 1⟩, "/p//x/..\\a", "", ""⟩], [], [], [], []⟩

/-- A relative import that leads to the root of the drive, a rooted one, and two spellings of one file. -/
theorem candidates_absolute_onDrive :
    (Path.isRooted onDrive.cwd = true ∧ Path.isRooted onDrive.config.basePath = true) ∧
    ("C:/x" ∈ candidates onDrive.cwd onDrive.config "../C:/x" "/p/src" ∧
      Path.IsAbsolute ("C:/x" ++ Path.sourceExtension)) ∧
    (∀ place ∈ candidates onDrive.cwd onDrive.config "E:\\y\\." "/p/src", place = "E:/y") ∧
    ∃ p ∈ importsOf ((MemoryFiles.ofCwd "/").add "p/a.ts" "".toUTF8) onDrive twoSpellings,
      ∃ p' ∈ importsOf ((MemoryFiles.ofCwd "/").add "p/a.ts" "".toUTF8) onDrive twoSpellings,
        p.declared.path = "./a" ∧ p'.declared.path = "/p//x/..\\a" ∧
          p.declared.resolvedPath = p'.declared.resolvedPath := by
  have hcwd : Path.isRooted onDrive.cwd = true := by decide
  have hbase : Path.isRooted onDrive.config.basePath = true := by decide
  have hplace : "C:/x" ∈ candidates onDrive.cwd onDrive.config "../C:/x" "/p/src" := by
    decide +kernel
  have hrooted : Path.isRooted "E:\\y\\." = true := by decide
  obtain ⟨hplaces, hkeys⟩ := candidates_absolute onDrive hcwd hbase
  refine ⟨⟨hcwd, hbase⟩, ⟨hplace, ((hplaces _ _).1 _ hplace).2.1⟩, ?_, ?_⟩
  · intro place hmem
    rw [((hplaces _ _).2 hrooted).1 place hmem]
    decide
  · have hmet : (importsOf ((MemoryFiles.ofCwd "/").add "p/a.ts" "".toUTF8) onDrive twoSpellings).map
        (fun p => (p.declared.path, p.source)) =
        [("./a", "/p/a.ts"), ("/p//x/..\\a", "/p/a.ts")] := by decide +kernel
    obtain ⟨p, hp, hpath⟩ := List.mem_map.1 (hmet ▸ List.mem_cons_self)
    obtain ⟨p', hp', hpath'⟩ := List.mem_map.1 (hmet ▸ List.mem_cons_of_mem _ List.mem_cons_self)
    have hsource : p.source = p'.source :=
      (Prod.mk.inj hpath).2.trans (Prod.mk.inj hpath').2.symm
    exact ⟨p, hp, p', hp', (Prod.mk.inj hpath).1, (Prod.mk.inj hpath').1,
      ((hkeys _ _ p hp).2.2 p' hp').2 hsource⟩

end ScriptFront.Module
