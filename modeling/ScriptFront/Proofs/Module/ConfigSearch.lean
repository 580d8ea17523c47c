import ScriptFront.Proofs.Files.FileSystem
import ScriptFront.Proofs.Module.Reads
import ScriptFront.Proofs.Path.Directory

/-!
# The search for a config file

A config file is looked for in one directory after the other, from that of the entry file up to the root
(`ancestors_eq`). The first one that is there decides, readable or not, and nothing above it is looked at;
without one the directory of the entry file is the base path (`findConfig_nearest`).
-/

namespace ScriptFront

open ScriptFront.Module

namespace Config

/-- The place of the config file of a directory. -/
def pathIn (dir : String) : String := Path.combine dir fileName

theorem basePath_ofBasePath (basePath : String) : (ofBasePath basePath).basePath = basePath := rfl

/-- The directory of a config file is the base path. -/
theorem basePath_of_ofText {content path : String} {config : Config}
    (h : ofText content path = .ok config) : config.basePath = Path.directory path := by
  unfold ofText at h
  dsimp only at h
  split at h
  · cases h
  · rw [← Except.ok.inj h, basePath_ofBasePath]
  · split at h
    · cases h
    · rw [← Except.ok.inj h, basePath_ofBasePath]
    · rw [← Except.ok.inj h]
      dsimp only
      rw [basePath_ofBasePath]

variable {p q : Path}

/-- The config file of a directory lies in it under its name. -/
theorem pathIn_toString (h : p.NormalForm) (hrooted : p.root ≠ .relative) :
    pathIn p.toString = Path.toString ⟨p.root, p.segments ++ [fileName.toList]⟩ := by
  have hrelative : Path.isRooted (String.ofList fileName.toList) = false := by decide
  have hcombine := h.combine_name hrooted fileName_isPlain hrelative
  rw [String.ofList_toList] at hcombine
  exact hcombine

theorem directory_pathIn (h : p.NormalForm) (hrooted : p.root ≠ .relative) :
    Path.directory (pathIn p.toString) = p.toString := by
  have hconcat := h.concat fileName_isPlain
  rw [pathIn_toString h hrooted, hconcat.directory_toString hrooted]
  simp only [List.dropLast_concat]

/-- Different directories have their config files at different places. -/
theorem eq_of_pathIn (hp : p.NormalForm) (hq : q.NormalForm) (hprooted : p.root ≠ .relative)
    (hqrooted : q.root ≠ .relative) (h : pathIn p.toString = pathIn q.toString) : p = q := by
  apply hp.eq_of_toString hq hprooted hqrooted
  rw [← directory_pathIn hp hprooted, h, directory_pathIn hq hqrooted]

end Config

namespace FileSystem

variable (fs : FileSystem)

/-- The content of a file as text, with the reason if there is none. -/
def text (path : String) : Except ReadFailure String :=
  match fs.read path with
  | .error e => .error e
  | .ok bytes =>
    match Text.Utf8.decode bytes with
    | .ok s => .ok s
    | .error f => .error (.notText f)

/-- What the config file at `path` comes to: what its text means, or that it has none. -/
def configAt (path : String) : Except Error Config :=
  match fs.text path with
  | .ok content => Config.ofText content path
  | .error e => .error ⟨.unreadableFile path e.message, .start⟩

variable {fs} in
theorem basePath_of_configAt {path : String} {config : Config}
    (h : fs.configAt path = .ok config) : config.basePath = Path.directory path := by
  unfold configAt at h
  split at h
  · exact Config.basePath_of_ofText h
  · cases h

/-- Whether a directory has a config file. -/
def hasConfig (dir : String) : Bool := fs.exists? (Config.pathIn dir)

/-- The questions whether these directories have config files. -/
def lookups (dirs : List String) : List Question := dirs.map fun dir => .exists? (Config.pathIn dir)

variable {fs} {α : Type}

/-! ## The search through given directories -/

theorem run_fileExists_bind (path : String) (f : Bool → Inspection α) :
    fs.run ((liftM (Inspect.fileExists path) : Inspection Bool) >>= f).run =
      ((fs.run (f (fs.exists? path)).run).1,
        .exists? path :: (fs.run (f (fs.exists? path)).run).2) :=
  rfl

theorem run_text_bind (path : String) (f : String → Except Error α) :
    fs.run (Inspection.text path >>= fun s => Inspection.ofExcept (f s)).run =
      (match fs.text path with
        | .ok s => f s
        | .error e => .error ⟨.unreadableFile path e.message, .start⟩, [.read path]) := by
  unfold text
  show fs.run (.read path _) = _
  unfold run
  cases fs.read path with
  | error e => rfl
  | ok bytes =>
    dsimp only
    cases Text.Utf8.decode bytes <;> rfl

variable {otherwise : Config} {dir : String}

theorem run_configIn_found (h : fs.hasConfig dir = true) (rest : List String) :
    fs.run (configIn otherwise (dir :: rest)).run =
      (fs.configAt (Config.pathIn dir),
        [.exists? (Config.pathIn dir), .read (Config.pathIn dir)]) := by
  have hexists : fs.exists? (Path.combine dir Config.fileName) = true := h
  rw [configIn, run_fileExists_bind, hexists, if_pos rfl, run_text_bind]
  rfl

theorem run_configIn_missing (h : fs.hasConfig dir = false) (rest : List String) :
    fs.run (configIn otherwise (dir :: rest)).run =
      ((fs.run (configIn otherwise rest).run).1,
        .exists? (Config.pathIn dir) :: (fs.run (configIn otherwise rest).run).2) := by
  have hexists : fs.exists? (Path.combine dir Config.fileName) = false := h
  rw [configIn, run_fileExists_bind, hexists]
  rfl

/-- The first directory with a config file decides. -/
theorem run_configIn_nearest {before : List String} (hbefore : ∀ d ∈ before, fs.hasConfig d = false)
    (hdir : fs.hasConfig dir = true) (behind : List String) :
    fs.run (configIn otherwise (before ++ dir :: behind)).run =
      (fs.configAt (Config.pathIn dir),
        lookups (before ++ [dir]) ++ [.read (Config.pathIn dir)]) := by
  induction before with
  | nil => exact run_configIn_found hdir behind
  | cons d before ih =>
    obtain ⟨hd, hbefore⟩ := List.forall_mem_cons.1 hbefore
    rw [List.cons_append, run_configIn_missing hd, ih hbefore]
    rfl

theorem run_configIn_none {dirs : List String} (h : ∀ d ∈ dirs, fs.hasConfig d = false) :
    fs.run (configIn otherwise dirs).run = (.ok otherwise, lookups dirs) := by
  induction dirs with
  | nil => rfl
  | cons d dirs ih =>
    obtain ⟨hd, hdirs⟩ := List.forall_mem_cons.1 h
    rw [run_configIn_missing hd, ih hdirs]
    rfl

/-- No question is asked twice if no two directories have their config files at one place. -/
theorem nodup_asked_configIn {dirs : List String} (h : (dirs.map Config.pathIn).Nodup) :
    (fs.run (configIn otherwise dirs).run).2.Nodup := by
  have hlookups : ∀ dirs : List String, (dirs.map Config.pathIn).Nodup → (lookups dirs).Nodup := by
    intro dirs hdirs
    have hmap := hdirs.map fun path path' heq => Question.exists?.inj heq
    rwa [List.map_map] at hmap
  cases hfind : dirs.find? fs.hasConfig with
  | none =>
    have hnone := List.find?_eq_none.1 hfind
    rw [run_configIn_none fun d hd => Bool.eq_false_iff.2 (hnone d hd)]
    exact hlookups dirs h
  | some dir =>
    obtain ⟨hdir, before, behind, rfl, hbefore⟩ := List.find?_eq_some_iff_append.1 hfind
    rw [run_configIn_nearest (fun d hd => by simpa using hbefore d hd) hdir]
    have hsearched : before ++ [dir] <+: before ++ dir :: behind := ⟨behind, by simp⟩
    have hnodup := h.sublist (hsearched.map Config.pathIn).sublist
    apply List.nodup_append.2
    refine ⟨hlookups _ hnodup, List.nodup_singleton _, ?_⟩
    intro q hq q' hq'
    obtain ⟨d, -, rfl⟩ := List.mem_map.1 hq
    rw [List.mem_singleton.1 hq']
    exact nofun

end FileSystem

namespace Module

/-! ## The directories that are searched -/

theorem length_pos_of_climbsThrough {dir : String} {dirs : List String}
    (h : Path.ClimbsThrough dir dirs) : 0 < dirs.length := by
  cases h with
  | top => exact Nat.one_pos
  | up => exact Nat.succ_pos _

/-- The limit on the number of directories is not noticed when it is high enough. -/
theorem ancestorsFrom_of_climbsThrough {dir : String} {dirs : List String}
    (h : Path.ClimbsThrough dir dirs) {n : Nat} (hn : dirs.length ≤ n + 1) :
    ancestorsFrom n dir = dirs := by
  induction h generalizing n with
  | top htop =>
    cases n with
    | zero => unfold ancestorsFrom; rfl
    | succ n =>
      unfold ancestorsFrom
      dsimp only
      rw [if_pos htop]
  | @up dir dirs hup hdirs ih =>
    have hpos := length_pos_of_climbsThrough hdirs
    rw [List.length_cons] at hn
    obtain ⟨n, rfl⟩ := Nat.exists_eq_add_one.2 (show 0 < n by omega)
    have hrest := ih (n := n) (by omega)
    unfold ancestorsFrom
    dsimp only
    rw [if_neg hup, hrest]

/-- The search goes up from the directory of a file to the root. -/
theorem ancestors_eq {path : String} (h : Path.isRooted path = true) :
    ancestors (Path.directory path) = (Path.ofString path).above.map Path.toString := by
  apply ancestorsFrom_of_climbsThrough (Path.climbsThrough_above h)
  have hle := (Path.ofString_normalForm path).dropLast.length_segments_le (Path.isRooted_iff.1 h)
  rw [← Path.directory_eq h] at hle
  dsimp only at hle
  unfold Path.above
  rw [List.length_map, List.length_reverse, List.length_map, List.length_inits]
  omega

theorem findConfig_eq {cwd entry : String} (h : Path.isRooted (Path.combine cwd entry) = true) :
    findConfig cwd entry =
      configIn (.ofBasePath (Path.directory (Path.combine cwd entry)))
        ((Path.ofString (Path.combine cwd entry)).above.map Path.toString) := by
  unfold findConfig
  dsimp only
  rw [ancestors_eq h]

/-- **The nearest config file.** The search goes up from the directory of the entry file to the root,
through every directory that the file lies in, and ends there. It asks nothing twice. The first config
file on the way decides: the result is what its text means or why it has none, nothing above it is asked
for, and its directory is the base path. Without a config file the directory of the entry file is. -/
theorem findConfig_nearest (fs : FileSystem) (hcwd : Path.isRooted fs.cwd = true) (entry : String) :
    let place := Path.combine fs.cwd entry
    let dirs := (Path.ofString place).above.map Path.toString
    let result := fs.run (findConfig fs.cwd entry).run
    Path.ClimbsThrough (Path.directory place) dirs ∧ result.2.Nodup ∧
      (∀ before dir behind, dirs = before ++ dir :: behind →
        (∀ d ∈ before, fs.hasConfig d = false) → fs.hasConfig dir = true →
          result = (fs.configAt (Config.pathIn dir),
            FileSystem.lookups (before ++ [dir]) ++ [.read (Config.pathIn dir)]) ∧
          ∀ config, fs.configAt (Config.pathIn dir) = .ok config → config.basePath = dir) ∧
      ((∀ d ∈ dirs, fs.hasConfig d = false) →
        result = (.ok (.ofBasePath (Path.directory place)), FileSystem.lookups dirs)) := by
  intro place dirs result
  have hplace : Path.isRooted place = true := Path.isRooted_combine hcwd entry
  have hnormal := Path.ofString_normalForm place
  have hroot := Path.isRooted_iff.1 hplace
  have hresult : result =
      fs.run (configIn (.ofBasePath (Path.directory place)) dirs).run := by
    unfold result
    rw [findConfig_eq hplace]
  have hdirs : ∀ q ∈ (Path.ofString place).above, q.NormalForm ∧ q.root ≠ .relative := by
    intro q hq
    obtain ⟨hq, hqroot⟩ := hnormal.of_mem_above hq
    exact ⟨hq, hqroot ▸ hroot⟩
  rw [hresult]
  refine ⟨Path.climbsThrough_above hplace, ?_, ?_, FileSystem.run_configIn_none⟩
  · apply FileSystem.nodup_asked_configIn
    rw [List.map_map]
    apply (Path.nodup_above _).map_on
    intro q hq q' hq' heq
    obtain ⟨hq, hqroot⟩ := hdirs q hq
    obtain ⟨hq', hqroot'⟩ := hdirs q' hq'
    exact Config.eq_of_pathIn hq hq' hqroot hqroot' heq
  · intro before dir behind hsplit hbefore hdir
    rw [hsplit]
    refine ⟨FileSystem.run_configIn_nearest hbefore hdir behind, ?_⟩
    intro config hconfig
    have hmem : dir ∈ dirs := by simp [hsplit]
    obtain ⟨q, hq, rfl⟩ := List.mem_map.1 hmem
    obtain ⟨hq, hqroot⟩ := hdirs q hq
    rw [FileSystem.basePath_of_configAt hconfig, Config.directory_pathIn hq hqroot]

/-- Config files in a directory and in the one above it. -/
def nestedConfigs : FileSystem :=
  (((MemoryFiles.ofCwd "C:\\work").add "tsconfig.json" "[".toUTF8).add "app/tsconfig.json"
    "\x7b \"compilerOptions\": \x7b \"paths\": \x7b \"*\": [\"lib/*\"] \x7d \x7d \x7d".toUTF8).fileSystem

/-- The outer config file is broken, but it is not looked at. -/
theorem findConfig_nearest_inner :
    Path.isRooted nestedConfigs.cwd = true ∧
      nestedConfigs.run (findConfig nestedConfigs.cwd "app/./src/main.ts").run =
        (.ok ⟨"C:/work/app", ["lib/*"]⟩,
          [.exists? "C:/work/app/src/tsconfig.json", .exists? "C:/work/app/tsconfig.json",
            .read "C:/work/app/tsconfig.json"]) := by
  have hcwd : Path.isRooted nestedConfigs.cwd = true := by decide +kernel
  have hdirs : (Path.ofString (Path.combine nestedConfigs.cwd "app/./src/main.ts")).above.map
      Path.toString = ["C:/work/app/src"] ++ "C:/work/app" :: ["C:/work", "C:/"] := by decide +kernel
  have hmissing : ∀ d ∈ ["C:/work/app/src"], nestedConfigs.hasConfig d = false := by decide +kernel
  have hconfig : nestedConfigs.hasConfig "C:/work/app" = true := by decide +kernel
  obtain ⟨-, -, hnearest, -⟩ := findConfig_nearest nestedConfigs hcwd "app/./src/main.ts"
  obtain ⟨hresult, -⟩ := hnearest _ _ _ hdirs hmissing hconfig
  refine ⟨hcwd, hresult.trans ?_⟩
  decide +kernel

end Module

end ScriptFront
