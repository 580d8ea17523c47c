import Mathlib.Data.List.Perm.Basic
import ScriptFront.Proofs.Module.Entry
import ScriptFront.Proofs.Text.ByteOrder

/-!
# What the digest of a module covers

The digest of a module is that of a single message: the contents of its files one behind the other, each
file once, in the order of the bytes of their paths. The files are the entry file and all that it imports,
however the imports are ordered (`digest_covers`).
-/

namespace ScriptFront

namespace MemoryFiles

variable (m : MemoryFiles)

/-- The bytes of a file, or none if it does not exist. -/
def bytes (path : String) : List UInt8 := ((m.find? path).map (·.toList)).getD []

theorem read_of_exists {path : String} (h : m.exists? path = true) :
    ∃ content, m.read path = .ok content ∧ m.bytes path = content.toList := by
  unfold exists? at h
  obtain ⟨content, hcontent⟩ := Option.isSome_iff_exists.1 h
  unfold read bytes
  rw [hcontent]
  exact ⟨content, rfl, rfl⟩

theorem answer_contents {paths : List String} (h : ∀ path ∈ paths, m.exists? path = true) :
    m.answer (Module.contents paths) = .ok (paths.flatMap m.bytes) := by
  induction paths with
  | nil => rfl
  | cons path rest ih =>
    obtain ⟨hpath, hrest⟩ := List.forall_mem_cons.1 h
    obtain ⟨content, hread, hbytes⟩ := m.read_of_exists hpath
    have hrun : m.run (Inspect.readBytes path) = (m.read path, [.read path]) := rfl
    unfold Module.contents
    rw [m.answer_bind, m.answer_lift, hrun, hread]
    simp only [m.answer_bind, ih hrest, List.flatMap_cons, hbytes, m.answer_pure]

end MemoryFiles

namespace Module

/-! ## Sorted paths -/

theorem mem_insertPath {path p : String} {paths : List String} :
    p ∈ insertPath path paths ↔ p = path ∨ p ∈ paths := by
  induction paths with
  | nil => simp [insertPath]
  | cons q rest ih =>
    unfold insertPath
    split
    · simp
    · split
      · next heq =>
        subst heq
        simp
      · simp only [List.mem_cons, ih]
        exact or_left_comm

theorem sorted_insertPath (path : String) {paths : List String} (h : paths.Pairwise (· < ·)) :
    (insertPath path paths).Pairwise (· < ·) := by
  induction paths with
  | nil => simp [insertPath]
  | cons q rest ih =>
    obtain ⟨hq, hrest⟩ := List.pairwise_cons.1 h
    unfold insertPath
    split
    · next hlt =>
      refine List.pairwise_cons.2 ⟨fun p hp => ?_, h⟩
      rcases List.mem_cons.1 hp with rfl | hp
      · exact hlt
      · exact lt_trans hlt (hq p hp)
    · next hlt =>
      split
      · exact h
      · next hne =>
        refine List.pairwise_cons.2 ⟨fun p hp => ?_, ih hrest⟩
        rcases mem_insertPath.1 hp with rfl | hp
        · exact lt_of_le_of_ne (not_lt.1 hlt) (Ne.symm hne)
        · exact hq p hp

/-- Every file of a module is among its paths once, in order. -/
theorem mem_paths {module : Module} {p : String} :
    p ∈ module.paths ↔ p = module.entry.path ∨ p ∈ module.imported.map (·.2.path) := by
  unfold paths
  rw [← List.mem_cons]
  induction module.entry.path :: module.imported.map (·.2.path) with
  | nil => simp
  | cons q rest ih => rw [List.foldr_cons, mem_insertPath, ih, List.mem_cons]

theorem sorted_paths (module : Module) : module.paths.Pairwise (· < ·) := by
  unfold paths
  induction module.entry.path :: module.imported.map (·.2.path) with
  | nil => exact .nil
  | cons q rest ih => exact sorted_insertPath q ih

/-- There is one way only to sort the files of a set. -/
theorem eq_of_sorted {ps qs : List String} (hps : ps.Pairwise (· < ·)) (hqs : qs.Pairwise (· < ·))
    (h : ∀ p, p ∈ ps ↔ p ∈ qs) : ps = qs := by
  have hperm : ps.Perm qs := (List.perm_ext_iff_of_nodup (hps.imp ne_of_lt) (hqs.imp ne_of_lt)).2 h
  exact hperm.eq_of_pairwise (fun _ _ _ _ hlt hgt => absurd hgt (lt_asymm hlt)) hps hqs

/-! ## The files of a module -/

/-- Whether a file belongs to the module at `path`: it is the entry file, or imported from there. -/
def Covers (m : MemoryFiles) (path : String) (options : Options) (p : String) : Prop :=
  ∃ project entry, project.options = options ∧ StartsAt m path project entry ∧
    (p = entry.path ∨ Imported m project entry p)

variable {m : MemoryFiles} {path : String} {options : Options}

theorem covers_iff {project : Project} {entry : File} (hoptions : project.options = options)
    (hstarts : StartsAt m path project entry) {p : String} :
    Covers m path options p ↔ p = entry.path ∨ Imported m project entry p := by
  constructor
  · rintro ⟨project', entry', hoptions', hstarts', hp⟩
    obtain ⟨rfl, rfl⟩ := hstarts.unique hstarts' (hoptions.trans hoptions'.symm)
    exact hp
  · exact fun hp => ⟨project, entry, hoptions, hstarts, hp⟩

/-- The paths of a module are those of the entry file and of what it imports. -/
theorem mem_paths_iff_covers {module : Module} (h : (m.parse path options).1 = .ok module) {p : String} :
    p ∈ module.paths ↔ Covers m path options p := by
  obtain ⟨project, entry, hoptions, hstarts, hload⟩ := parse_ok h
  have hmodule : IsModuleOf m project entry module := isModuleOf_of_load hload
  rw [mem_paths, hmodule.mem_importedPaths, hmodule.entryResolved, covers_iff hoptions hstarts]
  rfl

theorem exists_of_covers {p : String} (h : Covers m path options p) : m.exists? p = true := by
  obtain ⟨project, entry, -, hstarts, rfl | himported⟩ := h
  · exact exists_of_findEntry hstarts.found
  · cases himported with
    | direct _ htarget => exact (exists_of_target htarget).1
    | through _ _ _ htarget => exact (exists_of_target htarget).1

/-! ## The message -/

variable (m path) in
/-- What the digest of the module at `path` is taken over. -/
def message : Except Error (List UInt8) :=
  (m.parse path ⟨false⟩).1.map fun module => module.paths.flatMap m.bytes

variable (m path) in
theorem digest_eq : (m.digest path).1 = (message m path).map Sha256.digest := by
  change m.answer (digest m.loadLimit m.cwd path) = _
  have hanswer : m.answer (parse m.loadLimit m.cwd path ⟨false⟩) = (m.parse path ⟨false⟩).1 := rfl
  unfold digest message
  rw [m.answer_bind, hanswer]
  cases hparse : (m.parse path ⟨false⟩).1 with
  | error e => rfl
  | ok module =>
    have hexists : ∀ p ∈ module.paths, m.exists? p = true := fun p hp =>
      exists_of_covers ((mem_paths_iff_covers hparse).1 hp)
    exact m.answer_bind_of_ok (m.answer_contents hexists) _

/-! ## Imports in another order -/

/-- The paths that a file imports, as they are written. -/
def importPaths (file : File) : List String := file.imports.map (·.path)

/-- Whether two files import the same paths, in whatever order. -/
def SameImports (file file' : File) : Prop := ∀ s, s ∈ importPaths file' ↔ s ∈ importPaths file

/-- Whether `m'` has the files of `m`, and those of the module at `path` import the same. -/
structure ImportsAlike (m m' : MemoryFiles) (path : String) : Prop where
  cwd : m'.cwd = m.cwd
  exists? : ∀ p, m'.exists? p = m.exists? p
  config : ∀ {entry}, m.answer (findEntry m.cwd path) = .ok entry →
    m'.answer (findConfig m.cwd entry) = m.answer (findConfig m.cwd entry)
  imports : ∀ {project p file}, project.options = ⟨false⟩ → Covers m path ⟨false⟩ p →
    Parses m project p file → ∃ file', Parses m' project p file' ∧ SameImports file file'

theorem SameImports.exists_import {file file' : File} (h : SameImports file file') {i : Import}
    (hi : i ∈ file'.imports) : ∃ j ∈ file.imports, j.path = i.path :=
  List.mem_map.1 ((h _).1 (List.mem_map.2 ⟨i, hi, rfl⟩))

theorem SameImports.symm {file file' : File} (h : SameImports file file') : SameImports file' file :=
  fun s => (h s).symm

namespace ImportsAlike

variable {m' : MemoryFiles} {project : Project} {entry entry' : File}

theorem findEntry_eq (h : ImportsAlike m m' path) :
    m'.answer (findEntry m.cwd path) = m.answer (findEntry m.cwd path) := by
  rw [answer_findEntry, answer_findEntry, h.exists?, h.exists?]

theorem target?_eq (h : ImportsAlike m m' path) (project : Project) (dir s : String) :
    target? m' project dir s = target? m project dir s := by
  unfold target?
  congr 1
  funext place
  unfold MemoryFiles.targetAt
  rw [h.exists?, h.exists?]

/-- Whether the imports of a file mean something depends on their paths alone. -/
theorem resolves {file file' : File} (h : ImportsAlike m m' path) (hpath : file'.path = file.path)
    (himports : SameImports file file') (hresolves : Resolves m project file) :
    Resolves m' project file' := by
  intro i hi
  obtain ⟨j, hj, heq⟩ := himports.exists_import hi
  rw [h.target?_eq, hpath, ← heq]
  exact hresolves j hj

/-- The module at `path` starts from the same file. -/
theorem startsAt (h : ImportsAlike m m' path) (hoptions : project.options = ⟨false⟩)
    (hstarts : StartsAt m path project entry) :
    ∃ entry', StartsAt m' path project entry' ∧ entry'.path = entry.path ∧
      SameImports entry entry' := by
  have hcovers : Covers m path ⟨false⟩ entry.path :=
    ⟨project, entry, hoptions, hstarts, .inl rfl⟩
  obtain ⟨entry', hparses, himports⟩ := h.imports hoptions hcovers hstarts.parses
  have hpath := parses_path hparses
  refine ⟨entry', ⟨hstarts.cwd.trans h.cwd.symm, ?_, ?_, ?_⟩, hpath, himports⟩
  · rw [h.cwd, h.findEntry_eq, hpath]
    exact hstarts.found
  · rw [h.cwd, hpath, h.config hstarts.found]
    exact hstarts.config
  · rw [hpath]
    exact hparses

section Load

variable (h : ImportsAlike m m' path) (hoptions : project.options = ⟨false⟩)
  (hstarts : StartsAt m path project entry) (hloadable : Loadable m project entry)
  (hpath : entry'.path = entry.path) (himports : SameImports entry entry')

include h hoptions hstarts hloadable

/-- A file that is imported parses in both. -/
theorem parses_both {p : String} (hp : Imported m project entry p) :
    ∃ file file', Parses m project p file ∧ Resolves m project file ∧ Parses m' project p file' ∧
      SameImports file file' := by
  obtain ⟨file, hparses, hresolves⟩ := hloadable.importsParse hp
  obtain ⟨file', hparses', hsame⟩ :=
    h.imports hoptions ⟨project, entry, hoptions, hstarts, .inr hp⟩ hparses
  exact ⟨file, file', hparses, hresolves, hparses', hsame⟩

include hpath himports

theorem imported_iff {p : String} : Imported m' project entry' p ↔ Imported m project entry p := by
  constructor
  · intro hp
    induction hp with
    | direct hi htarget =>
      obtain ⟨j, hj, heq⟩ := himports.exists_import hi
      rw [h.target?_eq, hpath, ← heq] at htarget
      exact .direct hj htarget
    | through himporter hparses hi htarget ih =>
      obtain ⟨file, file', hfile, -, hfile', hsame⟩ := h.parses_both hoptions hstarts hloadable ih
      obtain rfl := parses_unique hparses hfile'
      obtain ⟨j, hj, heq⟩ := hsame.exists_import hi
      rw [h.target?_eq, ← heq] at htarget
      exact .through ih hfile hj htarget
  · intro hp
    induction hp with
    | direct hi htarget =>
      obtain ⟨j, hj, heq⟩ := himports.symm.exists_import hi
      rw [← h.target?_eq, ← hpath, ← heq] at htarget
      exact .direct hj htarget
    | through himporter hparses hi htarget ih =>
      obtain ⟨file, file', hfile, -, hfile', hsame⟩ :=
        h.parses_both hoptions hstarts hloadable himporter
      obtain rfl := parses_unique hparses hfile
      obtain ⟨j, hj, heq⟩ := hsame.symm.exists_import hi
      rw [← h.target?_eq, ← heq] at htarget
      exact .through ih hfile' hj htarget

theorem loadable : Loadable m' project entry' where
  entryResolves := h.resolves hpath himports hloadable.entryResolves
  importsParse := fun {p} hp => by
    have himported := (h.imported_iff hoptions hstarts hloadable hpath himports).1 hp
    obtain ⟨file, file', hparses, hresolves, hparses', hsame⟩ :=
      h.parses_both hoptions hstarts hloadable himported
    refine ⟨file', hparses', h.resolves ?_ hsame hresolves⟩
    rw [parses_path hparses, parses_path hparses']

end Load

/-- The module at `path` has the same files. -/
theorem paths_eq (h : ImportsAlike m m' path) {module : Module}
    (hparse : (m.parse path ⟨false⟩).1 = .ok module) :
    ∃ module', (m'.parse path ⟨false⟩).1 = .ok module' ∧ module'.paths = module.paths := by
  obtain ⟨project, entry, hoptions, hstarts, hload⟩ := parse_ok hparse
  have hloadable := loadable_of_load hload
  obtain ⟨entry', hstarts', hpath, himports⟩ := h.startsAt hoptions hstarts
  have hloadable' := h.loadable hoptions hstarts hloadable hpath himports
  obtain ⟨module', hload'⟩ := load_of_loadable hloadable'
  have hparse' : (m'.parse path ⟨false⟩).1 = .ok module' :=
    (parse_eq_load hoptions hstarts').trans hload'
  refine ⟨module', hparse', eq_of_sorted (sorted_paths _) (sorted_paths _) fun p => ?_⟩
  rw [mem_paths_iff_covers hparse, mem_paths_iff_covers hparse',
    covers_iff hoptions hstarts, covers_iff hoptions hstarts', hpath,
    h.imported_iff hoptions hstarts hloadable hpath himports]

end ImportsAlike

/-! ## What is covered -/

/-- **The digest.** A module that cannot be parsed has no digest, for the same reason. The digest of any
other module is that of the contents of its files, one behind the other, each once and in the order of the
bytes of their paths. Neither the order in which a module holds its files nor that of the imports in
them changes which files these are and how they are ordered. -/
theorem digest_covers (m : MemoryFiles) (path : String) :
    (∀ e, (m.parse path ⟨false⟩).1 = .error e → (m.digest path).1 = .error e) ∧
      ∀ module, (m.parse path ⟨false⟩).1 = .ok module →
        ∃ files : List String, (∀ p, p ∈ files ↔ Covers m path ⟨false⟩ p) ∧
          files.Pairwise (fun p q => Text.utf8Bytes p < Text.utf8Bytes q) ∧
          (m.digest path).1 = .ok (Sha256.digest (files.flatMap m.bytes)) ∧
          (∀ imported, imported.Perm module.imported →
            ({ module with imported } : Module).paths = files) ∧
          ∀ m', ImportsAlike m m' path →
            (m'.digest path).1 = .ok (Sha256.digest (files.flatMap m'.bytes)) := by
  have hdigest : ∀ m : MemoryFiles, ∀ module, (m.parse path ⟨false⟩).1 = .ok module →
      (m.digest path).1 = .ok (Sha256.digest (module.paths.flatMap m.bytes)) := by
    intro m module hparse
    rw [digest_eq, message, hparse]
    rfl
  refine ⟨fun e hparse => ?_, fun module hparse => ?_⟩
  · rw [digest_eq, message, hparse]
    rfl
  · refine ⟨module.paths, fun p => mem_paths_iff_covers hparse,
      module.sorted_paths.imp Text.utf8Bytes_lt, hdigest m module hparse, fun imported himported => ?_,
      fun m' halike => ?_⟩
    · refine eq_of_sorted (sorted_paths _) (sorted_paths _) fun p => ?_
      rw [mem_paths, mem_paths, (himported.map _).mem_iff]
    · obtain ⟨module', hparse', hpaths⟩ := halike.paths_eq hparse
      rw [← hpaths]
      exact hdigest m' module' hparse'

/-- Lines that import files for their effects. -/
def importLines (paths : List String) : String :=
  String.join (paths.map fun p => "import \"" ++ p ++ "\"\n")

/-- An entry file with some imports, and a file that imports it in turn. -/
def cycle (imports : List String) : MemoryFiles :=
  ((MemoryFiles.ofCwd "/").add "main.ts" (importLines imports).toUTF8).add "a.ts"
    (importLines ["./main"]).toUTF8

/-- The cycle of two files, one of which also imports itself. -/
theorem cycle_paths : ∃ module,
    ((cycle ["./a", "./main"]).parse "main.ts" ⟨false⟩).1 = .ok module ∧
      module.paths = ["/a.ts", "/main.ts"] :=
  exists_map_eq_ok (by decide +kernel)

theorem cycle_alike :
    ImportsAlike (cycle ["./a", "./main"]) (cycle ["./main", "./a"]) "main.ts" where
  cwd := rfl
  exists? := fun p => by
    unfold MemoryFiles.exists? MemoryFiles.find?
    rw [Option.isSome_map, Option.isSome_map, List.isSome_find?, List.isSome_find?]
    rfl
  config := fun {entry} hentry => by
    have hfound : (cycle ["./a", "./main"]).answer (findEntry "/" "main.ts") = .ok "/main.ts" := by
      decide +kernel
    obtain rfl : "/main.ts" = entry := Except.ok.inj (hfound.symm.trans hentry)
    decide +kernel
  imports := fun {project p file} hoptions hcovers hparses => by
    obtain ⟨module, hmodule, hpaths⟩ := cycle_paths
    have hp := (mem_paths_iff_covers hmodule).2 hcovers
    rw [hpaths, List.mem_pair] at hp
    obtain ⟨s, hs, hfile⟩ := hparses
    unfold Parses
    rw [hoptions] at hfile ⊢
    obtain rfl | rfl := hp
    · exact ⟨file, ⟨s, hs, hfile⟩, fun _ => Iff.rfl⟩
    · have htext : (cycle ["./a", "./main"]).text "/main.ts" = .ok (importLines ["./a", "./main"]) := by
        decide +kernel
      obtain rfl := Except.ok.inj (htext.symm.trans hs)
      obtain ⟨file', hfile', himports'⟩ := exists_map_eq_ok (show
        (File.ofSource (importLines ["./main", "./a"]) "/main.ts" ⟨false⟩).map importPaths =
          .ok ["./main", "./a"] by decide +kernel)
      have himports : (File.ofSource (importLines ["./a", "./main"]) "/main.ts" ⟨false⟩).map
          importPaths = .ok ["./a", "./main"] := by decide +kernel
      rw [hfile] at himports
      have himports : importPaths file = ["./a", "./main"] := Except.ok.inj himports
      refine ⟨file', ⟨importLines ["./main", "./a"], by decide +kernel, hfile'⟩, fun s => ?_⟩
      rw [himports, himports', List.mem_pair, List.mem_pair, or_comm]

theorem digest_covers_cycle :
    let m := cycle ["./a", "./main"]
    let m' := cycle ["./main", "./a"]
    (m.digest "main.ts").1 = .ok (Sha256.digest (["/a.ts", "/main.ts"].flatMap m.bytes)) ∧
      (m'.digest "main.ts").1 = .ok (Sha256.digest (["/a.ts", "/main.ts"].flatMap m'.bytes)) := by
  intro m m'
  obtain ⟨module, hparse, hpaths⟩ := cycle_paths
  obtain ⟨files, -, -, hdigest, hmap, halike⟩ := (digest_covers m "main.ts").2 module hparse
  obtain rfl : files = ["/a.ts", "/main.ts"] := (hmap module.imported (.refl _)).symm.trans hpaths
  exact ⟨hdigest, halike m' cycle_alike⟩

end Module

end ScriptFront
