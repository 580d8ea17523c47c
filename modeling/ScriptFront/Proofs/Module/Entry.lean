import ScriptFront.Proofs.Faults.Productions
import ScriptFront.Proofs.Module.LoadedModule
import ScriptFront.Proofs.Module.Reads

/-!
# What a module starts from

The path that is asked for leads to an entry file and to the config file that belongs to it, and the
module is loaded from there (`StartsAt`). A parse that fails before it gets to the load blames no import
(`parse_cases`).
-/

namespace ScriptFront.Module

/-- Whether the module at `path` starts from `entry`, within `project`. -/
structure StartsAt (m : MemoryFiles) (path : String) (project : Project) (entry : File) : Prop where
  cwd : project.cwd = m.cwd
  found : m.answer (findEntry m.cwd path) = .ok entry.path
  config : m.answer (findConfig m.cwd entry.path) = .ok project.config
  parses : Parses m project entry.path entry

variable {m : MemoryFiles} {path : String} {options : Options}

theorem StartsAt.unique {project project' : Project} {entry entry' : File}
    (h : StartsAt m path project entry) (h' : StartsAt m path project' entry')
    (hoptions : project.options = project'.options) : project = project' ∧ entry = entry' := by
  have hpath : entry.path = entry'.path := Except.ok.inj (h.found.symm.trans h'.found)
  have hconfig : project.config = project'.config := by
    refine Except.ok.inj (h.config.symm.trans ?_)
    rw [hpath]
    exact h'.config
  have hproject : project = project' := by
    obtain ⟨cwd, config, options⟩ := project
    obtain ⟨cwd', config', options'⟩ := project'
    obtain rfl : cwd = cwd' := h.cwd.trans h'.cwd.symm
    obtain rfl : config = config' := hconfig
    obtain rfl : options = options' := hoptions
    rfl
  subst hproject
  refine ⟨rfl, parses_unique h.parses ?_⟩
  rw [hpath]
  exact h'.parses

/-! ## Errors before the load -/

theorem kind_of_findEntry_error {cwd : String} {e : Error}
    (h : m.answer (findEntry cwd path) = .error e) : e.kind = .fileAccess := by
  rw [answer_findEntry] at h
  split at h
  · cases h
  · split at h
    · cases h
    · cases h
      rfl

theorem kind_of_text_error {e : Error} (h : m.answer (Inspection.text path) = .error e) :
    e.kind = .fileAccess := by
  rw [m.answer_text] at h
  cases htext : m.text path with
  | ok s =>
    rw [htext] at h
    cases h
  | error failure =>
    rw [htext] at h
    cases h
    rfl

theorem kind_of_ofText_error {content : String} {e : Error} (h : Config.ofText content path = .error e) :
    e.kind = .config := by
  unfold Config.ofText at h
  dsimp only at h
  split at h
  · cases h
    rfl
  · cases h
  · split at h
    · cases h
      rfl
    · cases h
    · cases h

theorem kind_of_configIn_error {otherwise : Config} {dirs : List String} {e : Error}
    (h : m.answer (configIn otherwise dirs) = .error e) : e.kind = .fileAccess ∨ e.kind = .config := by
  induction dirs with
  | nil => cases h
  | cons dir rest ih =>
    unfold configIn at h
    rw [m.answer_bind, m.answer_lift, m.run_fileExists] at h
    cases hexists : m.exists? (Path.combine dir Config.fileName) with
    | false =>
      simp only [hexists] at h
      exact ih h
    | true =>
      simp only [hexists, ↓reduceIte] at h
      rw [m.answer_bind] at h
      cases htext : m.answer (Inspection.text (Path.combine dir Config.fileName)) with
      | error e' =>
        rw [htext] at h
        cases h
        exact .inl (kind_of_text_error htext)
      | ok content =>
        rw [htext] at h
        exact .inr (kind_of_ofText_error h)

/-- A file fails to parse because it is no text, or for what is in the text. -/
theorem kind_of_parseFile_error {project : Project} {e : Error}
    (h : m.answer (parseFile project path) = .error e) : e.kind ≠ .importResolution := by
  unfold parseFile at h
  rw [m.answer_bind] at h
  cases htext : m.answer (Inspection.text path) with
  | error e' =>
    rw [htext] at h
    cases h
    rw [kind_of_text_error htext]
    exact nofun
  | ok s =>
    rw [htext] at h
    exact ((Cause.isOfText_iff _).1 (File.isOfText_of_ofSource h)).1

/-- A parse finds something to start from, or fails with an error that no import is to blame for. -/
theorem parse_cases (m : MemoryFiles) (path : String) (options : Options) :
    (∃ project entry, project.options = options ∧ StartsAt m path project entry) ∨
      ∃ e, (m.parse path options).1 = .error e ∧ e.kind ≠ .importResolution := by
  change _ ∨ ∃ e, m.answer (parse m.loadLimit m.cwd path options) = .error e ∧ _
  unfold parse
  rw [m.answer_bind]
  cases hfound : m.answer (findEntry m.cwd path) with
  | error e =>
    refine .inr ⟨e, rfl, ?_⟩
    rw [kind_of_findEntry_error hfound]
    exact nofun
  | ok entryPath =>
    simp only [m.answer_bind]
    cases hconfig : m.answer (findConfig m.cwd entryPath) with
    | error e =>
      refine .inr ⟨e, rfl, ?_⟩
      obtain hkind | hkind := kind_of_configIn_error hconfig <;> rw [hkind] <;> exact nofun
    | ok config =>
      simp only
      cases hentry : m.answer (parseFile ⟨m.cwd, config, options⟩ entryPath) with
      | error e => exact .inr ⟨e, rfl, kind_of_parseFile_error hentry⟩
      | ok entry =>
        have hparses := answer_parseFile_ok.1 hentry
        have hpath := parses_path hparses
        subst hpath
        exact .inl ⟨_, entry, rfl, rfl, hfound, hconfig, hparses⟩

/-! ## The load around the entry file -/

/-- A parse is the load around the entry file. -/
theorem parse_eq_load {project : Project} {entry : File} (hoptions : project.options = options)
    (hstarts : StartsAt m path project entry) :
    (m.parse path options).1 = m.answer (load project m.loadLimit entry) := by
  change m.answer (parse m.loadLimit m.cwd path options) = _
  have hproject : (⟨m.cwd, project.config, options⟩ : Project) = project := by
    rw [← hstarts.cwd, ← hoptions]
  unfold parse
  rw [m.answer_bind_of_ok hstarts.found, m.answer_bind_of_ok hstarts.config, hproject,
    m.answer_bind_of_ok (answer_parseFile_ok.2 hstarts.parses)]

/-- A parse that answers has found an entry file, and loads everything around it. -/
theorem parse_ok {module : Module} (h : (m.parse path options).1 = .ok module) :
    ∃ project entry, project.options = options ∧ StartsAt m path project entry ∧
      m.answer (load project m.loadLimit entry) = .ok module := by
  obtain ⟨project, entry, hoptions, hstarts⟩ | ⟨e, herror, -⟩ := parse_cases m path options
  · exact ⟨project, entry, hoptions, hstarts, (parse_eq_load hoptions hstarts).symm.trans h⟩
  · cases herror.symm.trans h

theorem exists_map_eq_ok {α β : Type} {f : α → β} {r : Except Error α} {b : β}
    (h : r.map f = .ok b) : ∃ a, r = .ok a ∧ f a = b := by
  cases r with
  | error e => cases h
  | ok a => exact ⟨a, rfl, Except.ok.inj h⟩

end ScriptFront.Module
