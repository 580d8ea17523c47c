import ScriptFront.Proofs.Module.Digest
import ScriptFront.Proofs.Module.Failures

/-!
# What a parse asks

The entry file, its config file and the file that an import means are each searched for, at one place after
the other up to the first hit. So a parse asks about the places that such a search gets to, about the
content of the config file, of the entry file and of every imported file, and about nothing else (`Asks`).
A parse that answers has asked all of that, and a digest asks the same (`mem_parse_iff`, `mem_digest_iff`).
-/

namespace ScriptFront.Module

/-- Whether a search through `xs` that stops at the first hit gets to `x`. -/
def GetsTo {α : Type} (hit : α → Bool) (xs : List α) (x : α) : Prop :=
  ∃ before behind, xs = before ++ x :: behind ∧ ∀ y ∈ before, hit y = false

theorem not_getsTo_nil {α : Type} {hit : α → Bool} {x : α} : ¬ GetsTo hit [] x := by
  rintro ⟨before, behind, h, -⟩
  simp at h

/-- A search gets beyond the first place if that is no hit. -/
theorem getsTo_cons {α : Type} {hit : α → Bool} {y : α} {ys : List α} {x : α} :
    GetsTo hit (y :: ys) x ↔ x = y ∨ hit y = false ∧ GetsTo hit ys x := by
  constructor
  · rintro ⟨before, behind, h, hbefore⟩
    cases before with
    | nil =>
      cases h
      exact .inl rfl
    | cons z before =>
      cases h
      obtain ⟨hz, hbefore⟩ := List.forall_mem_cons.1 hbefore
      exact .inr ⟨hz, before, behind, rfl, hbefore⟩
  · rintro (rfl | ⟨hy, before, behind, rfl, hbefore⟩)
    · exact ⟨[], ys, rfl, fun _ h => absurd h List.not_mem_nil⟩
    · exact ⟨y :: before, behind, rfl, List.forall_mem_cons.2 ⟨hy, hbefore⟩⟩

variable (m : MemoryFiles) (project : Project) (entry : File)

/-- The questions that tell which of these directories has a config file, and what is in it. -/
inductive ConfigAsks (dirs : List String) : Question → Prop
  | there {dir : String}
      (hdir : GetsTo (fun dir => m.exists? (Path.combine dir Config.fileName)) dirs dir) :
      ConfigAsks dirs (.exists? (Path.combine dir Config.fileName))
  | text {dir : String}
      (hdir : GetsTo (fun dir => m.exists? (Path.combine dir Config.fileName)) dirs dir)
      (hexists : m.exists? (Path.combine dir Config.fileName) = true) :
      ConfigAsks dirs (.read (Path.combine dir Config.fileName))

/-- The questions that tell what stands at the first of these places where something stands. -/
inductive TargetAsks (places : List String) : Question → Prop
  | definition {place : String} (hplace : GetsTo (fun place => (m.targetAt place).isSome) places place) :
      TargetAsks places (.exists? (place ++ Path.definitionExtension))
  | source {place : String} (hplace : GetsTo (fun place => (m.targetAt place).isSome) places place)
      (hdefinition : m.exists? (place ++ Path.definitionExtension) = false) :
      TargetAsks places (.exists? (place ++ Path.sourceExtension))

/-- The questions of a load of `entry`. -/
inductive LoadAsks : Question → Prop
  | text {path : String} (himported : Imported m project entry path) : LoadAsks (.read path)
  | target {file : File} {i : Import} {q : Question} (hloads : Loads m project entry file)
      (hi : i ∈ file.imports)
      (hq : TargetAsks m (candidates project.cwd project.config i.path (Path.directory file.path)) q) :
      LoadAsks q

/-- The questions of a parse of the module at `path`. -/
inductive Asks (path : String) (options : Options) : Question → Prop
  | entry : Asks path options (.exists? (Path.combine m.cwd path))
  | vendoredEntry (hmissing : m.exists? (Path.combine m.cwd path) = false) :
      Asks path options (.exists? (vendored m.cwd path))
  | config {entry : String} {q : Question} (hentry : m.answer (findEntry m.cwd path) = .ok entry)
      (hq : ConfigAsks m (ancestors (Path.directory (Path.combine m.cwd entry))) q) :
      Asks path options q
  | entryText {entry : String} (hentry : m.answer (findEntry m.cwd path) = .ok entry) :
      Asks path options (.read entry)
  | load {project : Project} {entry : File} {q : Question} (hoptions : project.options = options)
      (hstarts : StartsAt m path project entry) (hq : LoadAsks m project entry q) :
      Asks path options q

variable {m project entry} {q : Question}

/-! ## Searches -/

theorem configAsks_cons {dir : String} {rest : List String} :
    ConfigAsks m (dir :: rest) q ↔
      q = .exists? (Path.combine dir Config.fileName) ∨
        if m.exists? (Path.combine dir Config.fileName) = true then
          q = .read (Path.combine dir Config.fileName)
        else ConfigAsks m rest q := by
  constructor
  · intro h
    cases h with
    | there hdir =>
      rcases getsTo_cons.1 hdir with rfl | ⟨hnone, hdir⟩
      · exact .inl rfl
      · right
        rw [if_neg (by simp [hnone])]
        exact .there hdir
    | text hdir hexists =>
      right
      rcases getsTo_cons.1 hdir with rfl | ⟨hnone, hdir⟩
      · rw [if_pos hexists]
      · rw [if_neg (by simp [hnone])]
        exact .text hdir hexists
  · rintro (rfl | h)
    · exact .there (getsTo_cons.2 (.inl rfl))
    · split at h
      · next hexists =>
        subst h
        exact .text (getsTo_cons.2 (.inl rfl)) hexists
      · next hnone =>
        have hnone := Bool.not_eq_true _ ▸ hnone
        cases h with
        | there hdir => exact .there (getsTo_cons.2 (.inr ⟨hnone, hdir⟩))
        | text hdir hexists => exact .text (getsTo_cons.2 (.inr ⟨hnone, hdir⟩)) hexists

theorem mem_asked_configIn {otherwise : Config} {dirs : List String} :
    q ∈ m.asked (configIn otherwise dirs) ↔ ConfigAsks m dirs q := by
  induction dirs with
  | nil =>
    refine iff_of_false List.not_mem_nil fun h => ?_
    cases h with
    | there hdir => exact not_getsTo_nil hdir
    | text hdir _ => exact not_getsTo_nil hdir
  | cons dir rest ih =>
    rw [configAsks_cons]
    unfold configIn
    rw [m.asked_bind, m.answer_lift, m.asked_lift, m.run_fileExists, List.mem_append,
      List.mem_singleton]
    cases m.exists? (Path.combine dir Config.fileName) with
    | false => simp [ih]
    | true =>
      simp only [↓reduceIte]
      rw [m.asked_bind, m.asked_text]
      cases m.answer (Inspection.text (Path.combine dir Config.fileName)) <;> simp

theorem targetAsks_cons {place : String} {rest : List String} :
    TargetAsks m (place :: rest) q ↔
      q = .exists? (place ++ Path.definitionExtension) ∨
        (m.exists? (place ++ Path.definitionExtension) = false ∧
          q = .exists? (place ++ Path.sourceExtension)) ∨
        m.targetAt place = none ∧ TargetAsks m rest q := by
  constructor
  · intro h
    cases h with
    | definition hplace =>
      rcases getsTo_cons.1 hplace with rfl | ⟨hnone, hplace⟩
      · exact .inl rfl
      · exact .inr (.inr ⟨Option.not_isSome_iff_eq_none.1 (by simp [hnone]), .definition hplace⟩)
    | source hplace hdefinition =>
      rcases getsTo_cons.1 hplace with rfl | ⟨hnone, hplace⟩
      · exact .inr (.inl ⟨hdefinition, rfl⟩)
      · exact .inr (.inr
          ⟨Option.not_isSome_iff_eq_none.1 (by simp [hnone]), .source hplace hdefinition⟩)
  · rintro (rfl | ⟨hdefinition, rfl⟩ | ⟨hnone, h⟩)
    · exact .definition (getsTo_cons.2 (.inl rfl))
    · exact .source (getsTo_cons.2 (.inl rfl)) hdefinition
    · have hmiss : (m.targetAt place).isSome = false := by rw [hnone, Option.isSome_none]
      cases h with
      | definition hplace => exact .definition (getsTo_cons.2 (.inr ⟨hmiss, hplace⟩))
      | source hplace hdefinition =>
        exact .source (getsTo_cons.2 (.inr ⟨hmiss, hplace⟩)) hdefinition

theorem mem_asked_targetAt {place : String} :
    q ∈ (m.run (targetAt place)).2 ↔
      q = .exists? (place ++ Path.definitionExtension) ∨
        m.exists? (place ++ Path.definitionExtension) = false ∧
          q = .exists? (place ++ Path.sourceExtension) := by
  unfold targetAt
  rw [m.run_bind, m.run_fileExists]
  cases m.exists? (place ++ Path.definitionExtension) with
  | true => simp
  | false =>
    simp only [Bool.false_eq_true, ↓reduceIte]
    rw [m.run_bind, m.run_fileExists]
    cases m.exists? (place ++ Path.sourceExtension) <;> simp

theorem mem_asked_firstTarget {places : List String} :
    q ∈ (m.run (firstTarget places)).2 ↔ TargetAsks m places q := by
  induction places with
  | nil =>
    refine iff_of_false List.not_mem_nil fun h => ?_
    cases h with
    | definition hplace => exact not_getsTo_nil hplace
    | source hplace _ => exact not_getsTo_nil hplace
  | cons place rest ih =>
    rw [targetAsks_cons, ← or_assoc, ← mem_asked_targetAt]
    unfold firstTarget
    rw [m.run_bind, (m.run_targetAt place).1, List.mem_append]
    cases m.targetAt place with
    | some t => simp
    | none => simp [ih]

/-! ## Imports -/

theorem exists_of_mem_resolveEach {dir : String} {imports : List Import}
    (h : q ∈ m.asked (resolveEach project dir imports)) :
    ∃ i ∈ imports, TargetAsks m (candidates project.cwd project.config i.path dir) q := by
  induction imports with
  | nil => cases h
  | cons i rest ih =>
    unfold resolveEach at h
    rcases MemoryFiles.mem_asked_bind.1 h with h | ⟨target, -, h⟩
    · rw [m.asked_lift] at h
      exact ⟨i, List.mem_cons_self, mem_asked_firstTarget.1 h⟩
    · have hrest : q ∈ m.asked (resolveEach project dir rest) := by
        cases target with
        | none => cases h
        | some t =>
          cases t with
          | definition path => exact h
          | source path =>
            rcases MemoryFiles.mem_asked_bind.1 h with h | ⟨pending, -, h⟩
            · exact h
            · cases h
      obtain ⟨i', hi', hq⟩ := ih hrest
      exact ⟨i', List.mem_cons_of_mem _ hi', hq⟩

/-- Imports that all mean something are all looked up. -/
theorem mem_resolveEach {dir : String} {imports : List Import} {i : Import}
    (hresolves : ∀ i ∈ imports, (target? m project dir i.path).isSome) (hi : i ∈ imports)
    (hq : TargetAsks m (candidates project.cwd project.config i.path dir) q) :
    q ∈ m.asked (resolveEach project dir imports) := by
  induction imports with
  | nil => cases hi
  | cons first rest ih =>
    obtain ⟨hfirst, hrest⟩ := List.forall_mem_cons.1 hresolves
    have htarget : (m.run (firstTarget (candidates project.cwd project.config first.path dir))).1 =
        target? m project dir first.path := (m.run_firstTarget _).1
    unfold resolveEach
    rw [MemoryFiles.mem_asked_bind, m.asked_lift, m.answer_lift, htarget]
    rcases List.mem_cons.1 hi with rfl | hi
    · exact .inl (mem_asked_firstTarget.2 hq)
    · refine .inr ⟨_, rfl, ?_⟩
      cases htarget? : target? m project dir first.path with
      | none =>
        rw [htarget?] at hfirst
        cases hfirst
      | some t =>
        cases t with
        | definition path => exact ih hrest hi
        | source path => exact MemoryFiles.mem_asked_bind.2 (.inl (ih hrest hi))

theorem exists_of_mem_resolveImports {file : File} (h : q ∈ m.asked (resolveImports project file)) :
    ∃ i ∈ file.imports,
      TargetAsks m (candidates project.cwd project.config i.path (Path.directory file.path)) q := by
  unfold resolveImports at h
  rcases MemoryFiles.mem_asked_bind.1 h with h | ⟨pending, -, h⟩
  · exact exists_of_mem_resolveEach h
  · cases h

theorem mem_resolveImports {file : File} {i : Import} (hresolves : Resolves m project file)
    (hi : i ∈ file.imports)
    (hq : TargetAsks m (candidates project.cwd project.config i.path (Path.directory file.path)) q) :
    q ∈ m.asked (resolveImports project file) := by
  unfold resolveImports
  exact MemoryFiles.mem_asked_bind.2 (.inl (mem_resolveEach hresolves hi hq))

/-! ## Loads -/

/-- What holds of all imports that wait holds of those from the first one on that is taken up. -/
theorem forall_of_dropWhile {P : Pending → Prop} {l : Loaded} {p : Pending} {pending rest : List Pending}
    (hdrop : pending.dropWhile l.covers = p :: rest) (h : ∀ p ∈ pending, P p) :
    P p ∧ ∀ p ∈ rest, P p := by
  have hsubset : p :: rest ⊆ pending := by
    rw [← hdrop]
    exact (List.dropWhile_sublist _).subset
  exact List.forall_mem_cons.1 fun p hp => h p (hsubset hp)

/-- Whatever the limit, a load asks about imported files only, and about their imports. -/
theorem loadAsks_of_mem_loadPending {limit : Nat} {l : Loaded} {pending : List Pending}
    (himported : ∀ p ∈ pending, Imported m project entry p.source)
    (h : q ∈ m.asked (loadPending project limit l pending)) : LoadAsks m project entry q := by
  induction limit generalizing l pending with
  | zero =>
    unfold loadPending at h
    split at h <;> cases h
  | succ limit ih =>
    unfold loadPending at h
    split at h
    · cases h
    · next p rest hdrop =>
      obtain ⟨hp, hrest⟩ := forall_of_dropWhile hdrop himported
      rcases MemoryFiles.mem_asked_bind.1 h with h | ⟨file, hparse, h⟩
      · rw [asked_parseImport] at h
        rw [List.mem_singleton.1 h]
        exact .text hp
      · have hparses := answer_parseImport_ok.1 hparse
        rcases MemoryFiles.mem_asked_bind.1 h with h | ⟨⟨resolved, more⟩, hresolve, h⟩
        · obtain ⟨i, hi, hq⟩ := exists_of_mem_resolveImports h
          exact .target (.inr ⟨_, hp, hparses⟩) hi hq
        · obtain ⟨-, hr⟩ := answer_resolveImports_ok hresolve
          cases hr
          apply ih _ h
          intro p' hp'
          rcases List.mem_append.1 hp' with hp' | hp'
          · exact pendingOf_imported hp hparses hp'
          · exact hrest p' hp'

theorem loadAsks_of_mem_load {limit : Nat} (h : q ∈ m.asked (load project limit entry)) :
    LoadAsks m project entry q := by
  unfold load at h
  rcases MemoryFiles.mem_asked_bind.1 h with h | ⟨⟨resolved, pending⟩, hresolve, h⟩
  · obtain ⟨i, hi, hq⟩ := exists_of_mem_resolveImports h
    exact .target (.inl rfl) hi hq
  · obtain ⟨-, hr⟩ := answer_resolveImports_ok hresolve
    cases hr
    rcases MemoryFiles.mem_asked_bind.1 h with h | ⟨l, -, h⟩
    · exact loadAsks_of_mem_loadPending (fun _ hp => pendingOf_entry_imported hp) h
    · cases h

/-- Whether a load has read the file at a path and looked up its imports. -/
def TakesUp (m : MemoryFiles) (project : Project) (asked : List Question) (path : String) : Prop :=
  .read path ∈ asked ∧
    ∀ file, Parses m project path file → m.asked (resolveImports project file) ⊆ asked

theorem TakesUp.mono {asked asked' : List Question} {path : String} (h : TakesUp m project asked path)
    (hasked : asked ⊆ asked') : TakesUp m project asked' path :=
  ⟨hasked h.1, fun file hparses => List.Subset.trans (h.2 file hparses) hasked⟩

/-- A load that answers has taken up every file that it adds. -/
theorem hasKey_or_takesUp {limit : Nat} {l l' : Loaded} {pending : List Pending} {k : String}
    (hwf : ∀ p ∈ pending, p.WF m) (h : m.answer (loadPending project limit l pending) = .ok l')
    (hk : l'.HasKey k) :
    l.HasKey k ∨
      TakesUp m project (m.asked (loadPending project limit l pending)) (k ++ Path.sourceExtension) := by
  induction limit generalizing l pending with
  | zero =>
    unfold loadPending at h
    split at h
    · cases h
      exact .inl hk
    · cases h
  | succ limit ih =>
    unfold loadPending at h ⊢
    cases hdrop : pending.dropWhile l.covers with
    | nil =>
      simp only [hdrop] at h
      cases h
      exact .inl hk
    | cons p rest =>
      simp only [hdrop] at h
      obtain ⟨hp, hrest⟩ := forall_of_dropWhile hdrop hwf
      obtain ⟨parsed, hparse, h⟩ := MemoryFiles.answer_bind_ok.1 h
      obtain ⟨⟨file, more⟩, hresolve, h⟩ := MemoryFiles.answer_bind_ok.1 h
      obtain ⟨-, hr⟩ := answer_resolveImports_ok hresolve
      cases hr
      simp only
      rcases ih (wf_pendingOf_append hrest) h with hadded | htaken
      · rcases Loaded.hasKey_add.1 hadded with rfl | hk
        · right
          rw [← hp.source_eq]
          constructor
          · apply MemoryFiles.mem_asked_bind.2
            left
            rw [asked_parseImport]
            exact List.mem_singleton.2 rfl
          · intro file hfile q hq
            obtain rfl := parses_unique hfile (answer_parseImport_ok.1 hparse)
            exact MemoryFiles.mem_asked_bind.2
              (.inr ⟨_, hparse, MemoryFiles.mem_asked_bind.2 (.inl hq)⟩)
        · exact .inl hk
      · right
        apply htaken.mono
        intro q hq
        exact MemoryFiles.mem_asked_bind.2
          (.inr ⟨_, hparse, MemoryFiles.mem_asked_bind.2 (.inr ⟨_, hresolve, hq⟩)⟩)

/-- A load that answers has asked all of its questions. -/
theorem mem_load_iff {module : Module} (h : m.answer (load project m.loadLimit entry) = .ok module) :
    q ∈ m.asked (load project m.loadLimit entry) ↔ LoadAsks m project entry q := by
  have hmodule := isModuleOf_of_load h
  have hloadable := loadable_of_load h
  have hresolves := hloadable.entryResolves
  rw [answer_load m project m.loadLimit hresolves] at h
  obtain ⟨l, hl, rfl⟩ := exists_map_eq_ok h
  have hpending : m.asked (loadPending project m.loadLimit .empty (pendingOf m project entry)) ⊆
      m.asked (load project m.loadLimit entry) := by
    intro q hq
    unfold load
    exact MemoryFiles.mem_asked_bind.2
      (.inr ⟨_, answer_resolveImports hresolves, MemoryFiles.mem_asked_bind.2 (.inl hq)⟩)
  have htaken : ∀ {path}, Imported m project entry path →
      TakesUp m project (m.asked (load project m.loadLimit entry)) path := by
    intro path himported
    have hkey : l.HasKey (key path) := (hmodule.keys _).2 ⟨path, himported, rfl⟩
    rcases hasKey_or_takesUp (fun _ hp => pendingOf_wf hp) hl hkey with hempty | htaken
    · exact absurd hempty List.not_mem_nil
    · rw [← himported.source_eq] at htaken
      exact htaken.mono hpending
  refine ⟨loadAsks_of_mem_load, fun hq => ?_⟩
  cases hq with
  | text himported => exact (htaken himported).1
  | target hloads hi hq =>
    rcases hloads with rfl | ⟨path, himported, hparses⟩
    · unfold load
      exact MemoryFiles.mem_asked_bind.2 (.inl (mem_resolveImports hresolves hi hq))
    · obtain ⟨file, hfile, hresolvesFile⟩ := hloadable.importsParse himported
      obtain rfl := parses_unique hfile hparses
      exact (htaken himported).2 _ hparses (mem_resolveImports hresolvesFile hi hq)

/-! ## Whole runs -/

theorem mem_asked_findEntry {cwd path : String} :
    q ∈ m.asked (findEntry cwd path) ↔
      q = .exists? (Path.combine cwd path) ∨
        m.exists? (Path.combine cwd path) = false ∧ q = .exists? (vendored cwd path) := by
  unfold findEntry
  rw [m.asked_bind, m.answer_lift, m.asked_lift, m.run_fileExists]
  cases m.exists? (Path.combine cwd path) with
  | true => simp
  | false =>
    simp only [Bool.false_eq_true, ↓reduceIte]
    rw [m.asked_bind, m.answer_lift, m.asked_lift, m.run_fileExists]
    cases m.exists? (vendored cwd path) <;> simp

theorem exists_of_mem_contents {paths : List String} (h : q ∈ m.asked (contents paths)) :
    ∃ path ∈ paths, q = .read path := by
  induction paths with
  | nil => cases h
  | cons path rest ih =>
    unfold contents at h
    rcases MemoryFiles.mem_asked_bind.1 h with h | ⟨bytes, -, h⟩
    · rw [m.asked_lift] at h
      exact ⟨path, List.mem_cons_self, List.mem_singleton.1 h⟩
    · cases bytes with
      | error e => cases h
      | ok bytes =>
        rcases MemoryFiles.mem_asked_bind.1 h with h | ⟨_, -, h⟩
        · obtain ⟨path', hpath', hq⟩ := ih h
          exact ⟨path', List.mem_cons_of_mem _ hpath', hq⟩
        · cases h

variable {path : String} {options : Options}

theorem asked_parse (hstarts : StartsAt m path project entry) (hoptions : project.options = options) :
    (m.parse path options).2 =
      m.asked (findEntry m.cwd path) ++ (m.asked (findConfig m.cwd entry.path) ++
        (.read entry.path :: m.asked (load project m.loadLimit entry))) := by
  change m.asked (parse m.loadLimit m.cwd path options) = _
  have hproject : (⟨m.cwd, project.config, options⟩ : Project) = project := by
    rw [← hstarts.cwd, ← hoptions]
  unfold parse
  rw [m.asked_bind, hstarts.found]
  simp only
  rw [m.asked_bind, hstarts.config]
  simp only
  rw [hproject, m.asked_bind, asked_parseFile, answer_parseFile_ok.2 hstarts.parses]
  rfl

/-- A parse asks nothing but its own questions. -/
theorem asks_of_mem_parse (h : q ∈ (m.parse path options).2) : Asks m path options q := by
  change q ∈ m.asked (parse m.loadLimit m.cwd path options) at h
  unfold parse at h
  rcases MemoryFiles.mem_asked_bind.1 h with h | ⟨entry, hentry, h⟩
  · rcases mem_asked_findEntry.1 h with rfl | ⟨hmissing, rfl⟩
    · exact .entry
    · exact .vendoredEntry hmissing
  · rcases MemoryFiles.mem_asked_bind.1 h with h | ⟨config, hconfig, h⟩
    · unfold findConfig at h
      exact .config hentry (mem_asked_configIn.1 h)
    · rcases MemoryFiles.mem_asked_bind.1 h with hfile | ⟨file, hparse, hload⟩
      · rw [asked_parseFile] at hfile
        rw [List.mem_singleton.1 hfile]
        exact .entryText hentry
      · have hparses := answer_parseFile_ok.1 hparse
        obtain rfl := parses_path hparses
        exact .load rfl ⟨rfl, hentry, hconfig, hparses⟩ (loadAsks_of_mem_load hload)

/-- A parse that answers has asked all of its questions. -/
theorem mem_parse_iff {module : Module} (h : (m.parse path options).1 = .ok module) :
    q ∈ (m.parse path options).2 ↔ Asks m path options q := by
  obtain ⟨project, entry, hoptions, hstarts, hload⟩ := parse_ok h
  refine ⟨asks_of_mem_parse, fun hq => ?_⟩
  rw [asked_parse hstarts hoptions, List.mem_append, List.mem_append, List.mem_cons,
    mem_asked_findEntry]
  cases hq with
  | entry => exact .inl (.inl rfl)
  | vendoredEntry hmissing => exact .inl (.inr ⟨hmissing, rfl⟩)
  | config hentry hq =>
    obtain rfl := Except.ok.inj (hstarts.found.symm.trans hentry)
    right
    left
    unfold findConfig
    exact mem_asked_configIn.2 hq
  | entryText hentry =>
    obtain rfl := Except.ok.inj (hstarts.found.symm.trans hentry)
    exact .inr (.inr (.inl rfl))
  | load hoptions' hstarts' hq =>
    obtain ⟨rfl, rfl⟩ := hstarts.unique hstarts' (hoptions.trans hoptions'.symm)
    exact .inr (.inr (.inr ((mem_load_iff hload).2 hq)))

/-- A digest reads the files of the module again, and asks nothing else besides the parse. -/
theorem asks_of_mem_digest (h : q ∈ (m.digest path).2) : Asks m path ⟨false⟩ q := by
  change q ∈ m.asked (digest m.loadLimit m.cwd path) at h
  unfold digest at h
  rcases MemoryFiles.mem_asked_bind.1 h with h | ⟨module, hparse, h⟩
  · exact asks_of_mem_parse h
  · rcases MemoryFiles.mem_asked_bind.1 h with h | ⟨_, -, h⟩
    · obtain ⟨p, hp, rfl⟩ := exists_of_mem_contents h
      obtain ⟨project, entry, hoptions, hstarts, rfl | himported⟩ := (mem_paths_iff_covers hparse).1 hp
      · exact .entryText hstarts.found
      · exact .load hoptions hstarts (.text himported)
    · cases h

theorem mem_digest_iff {module : Module} (h : (m.parse path ⟨false⟩).1 = .ok module) :
    q ∈ (m.digest path).2 ↔ Asks m path ⟨false⟩ q := by
  refine ⟨asks_of_mem_digest, fun hq => ?_⟩
  change q ∈ m.asked (digest m.loadLimit m.cwd path)
  unfold digest
  exact MemoryFiles.mem_asked_bind.2 (.inl ((mem_parse_iff h).2 hq))

end ScriptFront.Module
