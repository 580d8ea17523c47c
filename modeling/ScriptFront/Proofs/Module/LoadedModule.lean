import Mathlib.Data.String.Basic
import ScriptFront.Proofs.Module.LoadRun

/-!
# What a load brings together

A load succeeds when nothing is in the way of it in the import graph, and then the module holds exactly
the files that can be reached from the entry file, each under its key and with its imports resolved.

The invariant `LoadInv` ties the two records of what has been loaded to each other and to the imports
that are still waiting: a file that was imported for its effects has a key, and every import of a loaded
file means a file that has a key or is waited for.
-/

namespace ScriptFront.Module

variable (m : MemoryFiles) (project : Project) (entry : File)

/-! ## Files in the order of their keys -/

theorem Loaded.sorted_insertFile (k : String) (f : File) {files : List (String × File)}
    (h : (files.map (·.1)).Pairwise (· < ·)) :
    ((insertFile k f files).map (·.1)).Pairwise (· < ·) := by
  induction files with
  | nil => simp [insertFile]
  | cons g rest ih =>
    obtain ⟨hg, hrest⟩ := List.pairwise_cons.1 h
    unfold insertFile
    split
    · next hlt =>
      refine List.pairwise_cons.2 ⟨fun k' hk' => ?_, h⟩
      rcases List.mem_cons.1 hk' with rfl | hk'
      · exact hlt
      · exact lt_trans hlt (hg k' hk')
    · next hlt =>
      split
      · next heq =>
        subst heq
        exact h
      · next hne =>
        have hgk : g.1 < k := lt_of_le_of_ne (not_lt.1 hlt) (Ne.symm hne)
        refine List.pairwise_cons.2 ⟨fun k' hk' => ?_, ih hrest⟩
        rcases (Loaded.keys_insertFile k f rest k').1 hk' with rfl | hk'
        · exact hgk
        · exact hg k' hk'

/-! ## The invariant -/

/-- Whether the file with this key is loaded or waited for. -/
def IsAwaited (l : Loaded) (pending : List Pending) (k : String) : Prop :=
  l.HasKey k ∨ ∃ p ∈ pending, p.declared.resolvedPath = k

/-- What holds between two steps of a load of `entry`. -/
structure LoadInv (l : Loaded) (pending : List Pending) : Prop where
  awaited : ∀ p ∈ pending, p.WF m ∧ Imported m project entry p.source
  files : ∀ {k f}, (k, f) ∈ l.files → Imported m project entry (k ++ Path.sourceExtension) ∧
    ∃ parsed, Parses m project (k ++ Path.sourceExtension) parsed ∧ Resolves m project parsed ∧
      f = resolved m project parsed
  effects : ∀ s ∈ l.effects, l.HasKey (key s)
  sorted : (l.files.map (·.1)).Pairwise (· < ·)
  entryClosed : ∀ q ∈ pendingOf m project entry, IsAwaited l pending q.declared.resolvedPath
  filesClosed : ∀ {k parsed}, l.HasKey k → Parses m project (k ++ Path.sourceExtension) parsed →
    ∀ q ∈ pendingOf m project parsed, IsAwaited l pending q.declared.resolvedPath

variable {m project entry}

theorem pendingOf_entry_imported {p : Pending} (h : p ∈ pendingOf m project entry) :
    Imported m project entry p.source := by
  obtain ⟨i, hi, htarget, -⟩ := (mem_pendingOf m project).1 h
  exact .direct hi htarget

theorem pendingOf_imported {importer : String} {file : File} {p : Pending}
    (himporter : Imported m project entry importer) (hparses : Parses m project importer file)
    (h : p ∈ pendingOf m project file) : Imported m project entry p.source := by
  obtain ⟨i, hi, htarget, -⟩ := (mem_pendingOf m project).1 h
  rw [parses_path hparses] at htarget
  exact .through himporter hparses hi htarget

theorem Imported.source_eq {path : String} (h : Imported m project entry path) :
    path = key path ++ Path.sourceExtension := by
  cases h with
  | direct hi htarget => exact (exists_of_target htarget).2
  | through himporter hparses hi htarget => exact (exists_of_target htarget).2

namespace LoadInv

theorem initial : LoadInv m project entry .empty (pendingOf m project entry) where
  awaited := fun _ hp => ⟨pendingOf_wf hp, pendingOf_entry_imported hp⟩
  files := fun h => absurd h List.not_mem_nil
  effects := fun _ h => absurd h List.not_mem_nil
  sorted := .nil
  entryClosed := fun q hq => Or.inr ⟨q, hq, rfl⟩
  filesClosed := fun h => absurd h List.not_mem_nil

variable {l : Loaded} {p : Pending} {rest : List Pending}

/-- The file of an import that is covered has a key. -/
theorem hasKey_of_covers (h : LoadInv m project entry l (p :: rest)) (hcovers : l.covers p = true) :
    l.HasKey p.declared.resolvedPath := by
  rw [Loaded.covers_iff] at hcovers
  split at hcovers
  · rw [← (h.awaited p List.mem_cons_self).1.key_eq]
    exact h.effects p.source hcovers
  · exact hcovers

theorem covered (h : LoadInv m project entry l (p :: rest)) (hcovers : l.covers p = true) :
    LoadInv m project entry l rest := by
  have hkey := h.hasKey_of_covers hcovers
  have hawaited : ∀ k, IsAwaited l (p :: rest) k → IsAwaited l rest k := by
    rintro k (hk | ⟨q, hq, rfl⟩)
    · exact Or.inl hk
    · rcases List.mem_cons.1 hq with rfl | hq
      · exact Or.inl hkey
      · exact Or.inr ⟨q, hq, rfl⟩
  exact {
    awaited := fun q hq => h.awaited q (List.mem_cons_of_mem _ hq)
    files := h.files
    effects := h.effects
    sorted := h.sorted
    entryClosed := fun q hq => hawaited _ (h.entryClosed q hq)
    filesClosed := fun hk hparsed q hq => hawaited _ (h.filesClosed hk hparsed q hq) }

/-- When a file is loaded, its own imports are waited for in its place. -/
theorem loaded (h : LoadInv m project entry l (p :: rest)) {parsed : File}
    (hparses : Parses m project p.source parsed) (hresolves : Resolves m project parsed) :
    LoadInv m project entry (l.add p (resolved m project parsed))
      (pendingOf m project parsed ++ rest) := by
  obtain ⟨hp, himported⟩ := h.awaited p List.mem_cons_self
  have hawaited : ∀ k, IsAwaited l (p :: rest) k →
      IsAwaited (l.add p (resolved m project parsed)) (pendingOf m project parsed ++ rest) k := by
    rintro k (hk | ⟨q, hq, rfl⟩)
    · exact Or.inl (Loaded.hasKey_add.2 (Or.inr hk))
    · rcases List.mem_cons.1 hq with rfl | hq
      · exact Or.inl (Loaded.hasKey_add.2 (Or.inl rfl))
      · exact Or.inr ⟨q, List.mem_append_right _ hq, rfl⟩
  refine {
    awaited := fun q hq => ?_
    files := fun hf => ?_
    effects := fun s hs => ?_
    sorted := Loaded.sorted_insertFile _ _ h.sorted
    entryClosed := fun q hq => hawaited _ (h.entryClosed q hq)
    filesClosed := fun {k file} hk hfile q hq => ?_ }
  · rcases List.mem_append.1 hq with hq | hq
    · exact ⟨pendingOf_wf hq, pendingOf_imported himported hparses hq⟩
    · exact h.awaited q (List.mem_cons_of_mem _ hq)
  · rcases Loaded.mem_insertFile hf with ⟨rfl, rfl⟩ | hf
    · rw [← hp.source_eq]
      exact ⟨himported, parsed, hparses, hresolves, rfl⟩
    · exact h.files hf
  · rcases Loaded.mem_effects_add.1 hs with ⟨-, rfl⟩ | hs
    · exact Loaded.hasKey_add.2 (Or.inl hp.key_eq)
    · exact Loaded.hasKey_add.2 (Or.inr (h.effects s hs))
  · rcases Loaded.hasKey_add.1 hk with rfl | hk
    · rw [← hp.source_eq] at hfile
      obtain rfl := parses_unique hparses hfile
      exact Or.inr ⟨q, List.mem_append_left _ hq, rfl⟩
    · exact hawaited _ (h.filesClosed hk hfile q hq)

/-- Nothing waits at the end, so every file that can be reached has its key. -/
theorem hasKey_of_imported (h : LoadInv m project entry l []) {path : String}
    (himported : Imported m project entry path) : l.HasKey (key path) := by
  have hloaded : ∀ {k}, IsAwaited l [] k → l.HasKey k := by
    rintro k (hk | ⟨q, hq, -⟩)
    · exact hk
    · exact absurd hq List.not_mem_nil
  induction himported with
  | @direct i path hi htarget =>
    exact hloaded (h.entryClosed ⟨{ i with resolvedPath := key path }, path⟩
      ((mem_pendingOf m project).2 ⟨i, hi, htarget, rfl⟩))
  | @through importer file i path himporter hparses hi htarget ih =>
    rw [← parses_path hparses] at htarget
    have hfile := hparses
    rw [himporter.source_eq] at hfile
    exact hloaded (h.filesClosed ih hfile ⟨{ i with resolvedPath := key path }, path⟩
      ((mem_pendingOf m project).2 ⟨i, hi, htarget, rfl⟩))

end LoadInv

namespace LoadRun

variable {l : Loaded} {pending met : List Pending} {reads : List String}
  {r : Except Error Loaded}

/-- The invariant holds at the end of a run. -/
theorem invariant (hrun : LoadRun m project l pending met reads r)
    (h : LoadInv m project entry l pending) {l' : Loaded} (hr : r = .ok l') :
    LoadInv m project entry l' [] := by
  induction hrun with
  | done =>
    cases hr
    exact h
  | covered hcovers _ ih => exact ih (h.covered hcovers) hr
  | loaded _ hfetch _ ih =>
    obtain ⟨parsed, hparses, hresolves, heq⟩ := fetch_ok hfetch
    cases heq
    exact ih (h.loaded hparses hresolves) hr
  | failed => cases hr

/-- A run ends well if nothing is in its way. -/
theorem succeeds (hrun : LoadRun m project l pending met reads r)
    (h : LoadInv m project entry l pending) (hloadable : Loadable m project entry) :
    ∃ l', r = .ok l' := by
  induction hrun with
  | done => exact ⟨_, rfl⟩
  | covered hcovers _ ih => exact ih (h.covered hcovers)
  | loaded _ hfetch _ ih =>
    obtain ⟨parsed, hparses, hresolves, heq⟩ := fetch_ok hfetch
    cases heq
    exact ih (h.loaded hparses hresolves)
  | @failed l p rest e hfresh hfetch =>
    obtain ⟨-, himported⟩ := h.awaited p List.mem_cons_self
    obtain ⟨parsed, hparses, hresolves⟩ := hloadable.importsParse himported
    rw [fetch_of_parses hparses hresolves] at hfetch
    cases hfetch

end LoadRun

/-! ## The module -/

variable (m project entry)

/-- Whether `module` is the entry file with everything that it imports. -/
structure IsModuleOf (module : Module) : Prop where
  basePath : module.basePath = project.config.basePath
  entryResolved : module.entry = resolved m project entry
  /-- No key stands twice. -/
  sorted : (module.imported.map (·.1)).Pairwise (· < ·)
  /-- The keys are those of the files that can be reached. -/
  keys : ∀ k, k ∈ module.imported.map (·.1) ↔
    ∃ path, Imported m project entry path ∧ k = key path
  /-- Under its key stands what the file parses as, with its imports resolved. -/
  files : ∀ {k file}, (k, file) ∈ module.imported →
    ∃ parsed, Parses m project (k ++ Path.sourceExtension) parsed ∧
      file = resolved m project parsed
  /-- What is imported is there. -/
  closed : ∀ file, file = module.entry ∨ file ∈ module.imported.map (·.2) →
    ∀ i ∈ file.imports, i.resolvedPath ∈ module.imported.map (·.1)

variable {m project entry}

theorem mem_imports_resolved {file : File} {i : Import}
    (h : i ∈ (resolved m project file).imports) :
    ∃ q ∈ pendingOf m project file, q.declared = i := by
  rw [resolved_eq] at h
  exact List.mem_map.1 h

theorem LoadInv.isModuleOf {l : Loaded} (h : LoadInv m project entry l []) :
    IsModuleOf m project entry ⟨project.config.basePath, resolved m project entry, l.files⟩ := by
  have hloaded : ∀ {k}, IsAwaited l [] k → l.HasKey k := by
    rintro k (hk | ⟨q, hq, -⟩)
    · exact hk
    · exact absurd hq List.not_mem_nil
  refine {
    basePath := rfl
    entryResolved := rfl
    sorted := h.sorted
    keys := fun k => ⟨fun hk => ?_, ?_⟩
    files := fun hf => ?_
    closed := fun file hfile i hi => ?_ }
  · obtain ⟨⟨k, f⟩, hf, rfl⟩ := List.mem_map.1 hk
    exact ⟨_, (h.files hf).1, by rw [key, withoutEnding_append]⟩
  · rintro ⟨path, himported, rfl⟩
    exact h.hasKey_of_imported himported
  · obtain ⟨-, parsed, hparses, -, hfile⟩ := h.files hf
    exact ⟨parsed, hparses, hfile⟩
  · rcases hfile with rfl | hfile
    · obtain ⟨q, hq, rfl⟩ := mem_imports_resolved hi
      exact hloaded (h.entryClosed q hq)
    · obtain ⟨⟨k, f⟩, hf, rfl⟩ := List.mem_map.1 hfile
      obtain ⟨-, parsed, hparses, -, rfl⟩ := h.files hf
      obtain ⟨q, hq, rfl⟩ := mem_imports_resolved hi
      exact hloaded (h.filesClosed (List.mem_map.2 ⟨_, hf, rfl⟩) hparses q hq)

variable (m project) in
theorem answer_load (limit : Nat) (hresolves : Resolves m project entry) :
    m.answer (load project limit entry) =
      (m.answer (loadPending project limit .empty (pendingOf m project entry))).map
        fun l => ⟨project.config.basePath, resolved m project entry, l.files⟩ := by
  unfold load
  rw [m.answer_bind_of_ok (answer_resolveImports hresolves), m.answer_bind]
  cases m.answer (loadPending project limit .empty (pendingOf m project entry)) <;> rfl

variable (m project entry) in
/-- The run of the load of an entry file. -/
theorem loadRun_entry :
    LoadRun m project .empty (pendingOf m project entry)
      (importsMet m project m.loadLimit .empty (pendingOf m project entry))
      (m.filesRead (m.asked (loadPending project m.loadLimit .empty (pendingOf m project entry))))
      (m.answer (loadPending project m.loadLimit .empty (pendingOf m project entry))) :=
  loadRun m project m.loadLimit .empty (pendingOf m project entry) (fun _ hp => pendingOf_wf hp)
    (unread_empty m).le

/-- What is loaded in the end, when a load answers. -/
theorem load_ok {module : Module} (h : m.answer (load project m.loadLimit entry) = .ok module) :
    Resolves m project entry ∧ ∃ l, LoadInv m project entry l [] ∧
      module = ⟨project.config.basePath, resolved m project entry, l.files⟩ := by
  have hresolves : Resolves m project entry := by
    unfold load at h
    obtain ⟨r, hr, -⟩ := MemoryFiles.answer_bind_ok.1 h
    exact (answer_resolveImports_ok hr).1
  rw [answer_load m project m.loadLimit hresolves] at h
  cases hl : m.answer (loadPending project m.loadLimit .empty (pendingOf m project entry)) with
  | error e =>
    rw [hl] at h
    cases h
  | ok l =>
    rw [hl] at h
    exact ⟨hresolves, l, (loadRun_entry m project entry).invariant .initial hl,
      (Except.ok.inj h).symm⟩

/-- A load that answers had nothing in its way. -/
theorem loadable_of_load {module : Module}
    (h : m.answer (load project m.loadLimit entry) = .ok module) : Loadable m project entry := by
  obtain ⟨hresolves, l, hinv, -⟩ := load_ok h
  refine ⟨hresolves, fun {path} himported => ?_⟩
  obtain ⟨⟨k, f⟩, hf, hk⟩ := List.mem_map.1 (hinv.hasKey_of_imported himported)
  obtain ⟨-, parsed, hparses, hresolves, -⟩ := hinv.files hf
  refine ⟨parsed, ?_, hresolves⟩
  rw [himported.source_eq, ← hk]
  exact hparses

/-- A load that has nothing in its way answers. -/
theorem load_of_loadable (h : Loadable m project entry) :
    ∃ module, m.answer (load project m.loadLimit entry) = .ok module := by
  obtain ⟨l, hl⟩ := (loadRun_entry m project entry).succeeds .initial h
  rw [answer_load m project m.loadLimit h.entryResolves, hl]
  exact ⟨_, rfl⟩

/-- The module that a load answers with. -/
theorem isModuleOf_of_load {module : Module}
    (h : m.answer (load project m.loadLimit entry) = .ok module) :
    IsModuleOf m project entry module := by
  obtain ⟨-, l, hinv, rfl⟩ := load_ok h
  exact hinv.isModuleOf

namespace IsModuleOf

variable {module : Module}

/-- A file stands under its path without the ending. -/
theorem path_eq (h : IsModuleOf m project entry module) {k : String} {file : File}
    (hfile : (k, file) ∈ module.imported) : file.path = k ++ Path.sourceExtension := by
  obtain ⟨parsed, hparses, rfl⟩ := h.files hfile
  rw [path_resolved, parses_path hparses]

/-- The files of a module besides the entry file are those that can be reached from it. -/
theorem mem_importedPaths (h : IsModuleOf m project entry module) {p : String} :
    p ∈ module.imported.map (·.2.path) ↔ Imported m project entry p := by
  rw [List.mem_map]
  constructor
  · rintro ⟨⟨k, file⟩, hfile, rfl⟩
    obtain ⟨p, hp, rfl⟩ := (h.keys k).1 (List.mem_map.2 ⟨_, hfile, rfl⟩)
    rw [h.path_eq hfile, ← hp.source_eq]
    exact hp
  · intro hp
    obtain ⟨⟨k, file⟩, hfile, rfl⟩ := List.mem_map.1 ((h.keys _).2 ⟨p, hp, rfl⟩)
    exact ⟨_, hfile, (h.path_eq hfile).trans hp.source_eq.symm⟩

end IsModuleOf

/-- **Loading.** The load of an entry file from files in memory succeeds exactly when every file that
can be reached from it parses and every import of these files means something, and then it answers
with the module of just these files. -/
theorem load_iff_loadable (m : MemoryFiles) (project : Project) (entry : File) :
    ((∃ module, m.answer (load project m.loadLimit entry) = .ok module) ↔
        Loadable m project entry) ∧
      ∀ module, m.answer (load project m.loadLimit entry) = .ok module →
        IsModuleOf m project entry module :=
  ⟨⟨fun ⟨_, h⟩ => loadable_of_load h, load_of_loadable⟩, fun _ => isModuleOf_of_load⟩

end ScriptFront.Module
