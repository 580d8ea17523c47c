import ScriptFront.Proofs.Module.Digest

/-!
# The files of a module and their global declarations

The global declarations of a module are those of its files, one file after the other: the entry file comes
first, then the imported files in the order of their keys. No imported file stands there twice. The entry
file does when a chain of imports leads back to it, because it is imported like any other file then.
-/

namespace ScriptFront.Module

/-- The paths of the files of a module, in the order of their global declarations. -/
def filePaths (module : Module) : List String :=
  module.entry.path :: module.imported.map (·.2.path)

/-- What the `declare global` blocks of the file at a path declare. -/
def globalsAt (m : MemoryFiles) (options : Options) (path : String) : List Stmt :=
  match m.text path with
  | .error _ => []
  | .ok source =>
    match File.ofSource source path options with
    | .error _ => []
    | .ok file => file.globals

/-- Whether a chain of imports leads from the entry file back to it. -/
def LeadsBack (m : MemoryFiles) (path : String) (options : Options) : Prop :=
  ∃ project entry, project.options = options ∧ StartsAt m path project entry ∧
    Imported m project entry entry.path

variable {m : MemoryFiles} {project : Project} {path : String} {options : Options} {module : Module}
  {entry : File}

theorem globalsAt_of_parses {file : File} (h : Parses m project path file) :
    globalsAt m project.options path = file.globals := by
  obtain ⟨source, htext, hfile⟩ := h
  unfold globalsAt
  simp only [htext, hfile]

theorem leadsBack_iff (hoptions : project.options = options) (hstarts : StartsAt m path project entry) :
    LeadsBack m path options ↔ Imported m project entry entry.path := by
  constructor
  · rintro ⟨project', entry', hoptions', hstarts', hback⟩
    obtain ⟨rfl, rfl⟩ := hstarts.unique hstarts' (hoptions.trans hoptions'.symm)
    exact hback
  · intro hback
    exact ⟨project, entry, hoptions, hstarts, hback⟩

namespace IsModuleOf

/-- Different keys stand for different files. -/
theorem nodup_importedPaths (h : IsModuleOf m project entry module) :
    (module.imported.map (·.2.path)).Nodup := by
  have hpaths : module.imported.map (·.2.path) =
      (module.imported.map (·.1)).map (· ++ Path.sourceExtension) := by
    rw [List.map_map]
    exact List.map_congr_left fun f hf => h.path_eq hf
  rw [hpaths]
  refine (h.sorted.imp ne_of_lt).map _ fun k k' hne heq => hne ?_
  exact String.append_left_inj _ |>.1 heq

theorem nodup_filePaths_iff (h : IsModuleOf m project entry module) :
    module.filePaths.Nodup ↔ ¬ Imported m project entry entry.path := by
  have hentry : module.entry.path = entry.path := by
    rw [h.entryResolved, path_resolved]
  unfold filePaths
  rw [List.nodup_cons, h.mem_importedPaths, hentry]
  exact and_iff_left h.nodup_importedPaths

/-- The global declarations of a file do not depend on how its imports are resolved. -/
theorem globals_eq (h : IsModuleOf m project entry module)
    (hentry : Parses m project entry.path entry) :
    module.globals = module.filePaths.flatMap (globalsAt m project.options) := by
  have himported : module.imported.flatMap (·.2.globals) =
      (module.imported.map (·.2.path)).flatMap (globalsAt m project.options) := by
    rw [List.flatMap_map]
    refine List.flatMap_congr fun f hf => ?_
    obtain ⟨parsed, hparses, hfile⟩ := h.files hf
    rw [h.path_eq hf, globalsAt_of_parses hparses, hfile, globals_resolved]
  have hfirst : globalsAt m project.options module.entry.path = module.entry.globals := by
    rw [h.entryResolved, path_resolved, globals_resolved, globalsAt_of_parses hentry]
  unfold globals filePaths
  rw [List.flatMap_cons, hfirst, himported]

end IsModuleOf

/-- **Global declarations.** They are those of the entry file, then those of the imported files in the
order of their keys. The files are all those of the module; none of them stands there twice, unless a
chain of imports leads back to the entry file. -/
theorem globals_eq_flatMap (h : (m.parse path options).1 = .ok module) :
    module.globals = module.filePaths.flatMap (globalsAt m options) ∧
      (∀ p, p ∈ module.filePaths ↔ Covers m path options p) ∧
      (module.imported.map (·.1)).Pairwise (· < ·) ∧
      (∀ f ∈ module.imported, f.2.path = f.1 ++ Path.sourceExtension) ∧
      (module.imported.map (·.2.path)).Nodup ∧
      (module.filePaths.Nodup ↔ ¬ LeadsBack m path options) := by
  obtain ⟨project, entry, rfl, hstarts, hload⟩ := parse_ok h
  have hmodule : IsModuleOf m project entry module := isModuleOf_of_load hload
  refine ⟨hmodule.globals_eq hstarts.parses, fun p => ?_, hmodule.sorted, fun f hf => hmodule.path_eq hf,
    hmodule.nodup_importedPaths, ?_⟩
  · rw [← mem_paths_iff_covers h, mem_paths]
    exact List.mem_cons
  · rw [leadsBack_iff rfl hstarts]
    exact hmodule.nodup_filePaths_iff

/-- A file with some imports that declares one global name. -/
def declaring (imports : List String) (name : String) : ByteArray :=
  (importLines imports ++ "declare global \x7b\nconst " ++ name ++ " = 1\n\x7d\n").toUTF8

/-- The names that are declared globally. -/
def globalNames (module : Module) : List String :=
  module.globals.filterMap fun s =>
    match s with
    | .varDecl d => some d.name
    | _ => none

/-- Two files that import each other do no harm if the entry file is none of them. -/
theorem globals_eq_flatMap_besideCycle :
    let m := (MemoryFiles.ofCwd "/")
      |>.add "main.ts" (declaring ["./b", "./a"] "M")
      |>.add "a.ts" (declaring ["./b"] "A")
      |>.add "b.ts" (declaring ["./a"] "B")
    ∃ module, (m.parse "main.ts" ⟨false⟩).1 = .ok module ∧
      module.globals = ["/main.ts", "/a.ts", "/b.ts"].flatMap (globalsAt m ⟨false⟩) ∧
      module.globalNames = ["M", "A", "B"] ∧ ¬ LeadsBack m "main.ts" ⟨false⟩ := by
  intro m
  obtain ⟨module, hparse, hmodule⟩ := exists_map_eq_ok (show
    (m.parse "main.ts" ⟨false⟩).1.map (fun module => (module.filePaths, module.globalNames)) =
      .ok (["/main.ts", "/a.ts", "/b.ts"], ["M", "A", "B"]) by decide +kernel)
  obtain ⟨hpaths, hnames⟩ := Prod.mk.inj hmodule
  obtain ⟨hglobals, -, -, -, -, hnodup⟩ := globals_eq_flatMap hparse
  rw [hpaths] at hglobals hnodup
  exact ⟨module, hparse, hglobals, hnames, hnodup.1 (by decide)⟩

/-- An entry file that is imported in turn declares everything twice. -/
theorem globals_importedEntry :
    let m := (MemoryFiles.ofCwd "/")
      |>.add "a.ts" "import \"./b\"\ndeclare global \x7b const A = 1 \x7d\n".toUTF8
      |>.add "b.ts" "import \"./a\"\n".toUTF8
    ∃ module, (m.parse "a.ts" ⟨false⟩).1 = .ok module ∧ ¬ module.filePaths.Nodup ∧
      module.filePaths = ["/a.ts", "/a.ts", "/b.ts"] ∧ module.globalNames = ["A", "A"] := by
  intro m
  obtain ⟨module, hparse, hmodule⟩ := exists_map_eq_ok (show
    (m.parse "a.ts" ⟨false⟩).1.map (fun module => (module.filePaths, module.globalNames)) =
      .ok (["/a.ts", "/a.ts", "/b.ts"], ["A", "A"]) by decide +kernel)
  obtain ⟨hpaths, hnames⟩ := Prod.mk.inj hmodule
  refine ⟨module, hparse, ?_, hpaths, hnames⟩
  rw [hpaths]
  decide

end ScriptFront.Module
