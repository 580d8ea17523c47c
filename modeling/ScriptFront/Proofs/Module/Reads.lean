import ScriptFront.Proofs.Module.LoadRun
import ScriptFront.Proofs.Path

/-!
# How often a file is read

The two records of what has been loaded are asked for different forms of import, and neither of them
knows the entry file. So a file can be read twice: once for its key and later for its effects, or once
as the entry file and again as an import. How often a load reads a file depends on nothing but the forms
of the imports that mean it, in the order in which the load meets them; `count_reads` counts the reads
on these forms, and `nodup_filesRead_iff` says when a run reads every file once at most.
-/

namespace ScriptFront.Module

variable {m : MemoryFiles} {project : Project}

/-! ## The forms of the imports of a file -/

/-- How often a file is read for imports of these forms, `true` standing for an import for its effects,
when it has been met for its effects or not and has a key or not. -/
def readsFor : Bool → Bool → List Bool → Nat
  | _, _, [] => 0
  | effects, keyed, true :: forms =>
    if effects then readsFor effects keyed forms else readsFor true true forms + 1
  | effects, keyed, false :: forms =>
    if keyed then readsFor effects keyed forms else readsFor effects true forms + 1

theorem readsFor_effects (forms : List Bool) : readsFor true true forms = 0 := by
  induction forms with
  | nil => rfl
  | cons form forms ih => cases form <;> exact ih

/-- A file that has been loaded for its key is read once more for its effects. -/
theorem readsFor_keyed (forms : List Bool) :
    readsFor false true forms = if true ∈ forms then 1 else 0 := by
  induction forms with
  | nil => rfl
  | cons form forms ih =>
    cases form with
    | true => simp [readsFor, readsFor_effects]
    | false => simpa [readsFor] using ih

theorem readsFor_le_one {forms : List Bool} :
    readsFor false false forms ≤ 1 ↔ (true ∈ forms → forms.head? = some true) := by
  cases forms with
  | nil => simp [readsFor]
  | cons form forms =>
    cases form with
    | true => simp [readsFor, readsFor_effects]
    | false =>
      have hkeyed := readsFor_keyed forms
      by_cases h : true ∈ forms
      · rw [if_pos h] at hkeyed
        simp [readsFor, hkeyed, h]
      · rw [if_neg h] at hkeyed
        simp [readsFor, hkeyed, h]

theorem readsFor_eq_zero {forms : List Bool} : readsFor false false forms = 0 ↔ forms = [] := by
  cases forms with
  | nil => simp [readsFor]
  | cons form forms => cases form <;> simp [readsFor]

/-- The forms of the imports that mean the file `source`. -/
def formsOf (source : String) (met : List Pending) : List Bool :=
  (met.filter (·.source = source)).map (·.declared.isSideEffect)

theorem formsOf_cons_self (p : Pending) (met : List Pending) :
    formsOf p.source (p :: met) = p.declared.isSideEffect :: formsOf p.source met := by
  simp [formsOf]

theorem formsOf_cons_of_ne {p : Pending} {source : String} (h : p.source ≠ source)
    (met : List Pending) : formsOf source (p :: met) = formsOf source met := by
  simp [formsOf, h]

theorem mem_formsOf {source : String} {met : List Pending} {form : Bool} :
    form ∈ formsOf source met ↔ ∃ p ∈ met, p.source = source ∧ p.declared.isSideEffect = form := by
  simp [formsOf, and_assoc]

theorem head?_formsOf (source : String) (met : List Pending) :
    (formsOf source met).head? =
      (met.find? (·.source = source)).map (·.declared.isSideEffect) := by
  rw [formsOf, List.head?_map, List.head?_filter]

/-! ## The reads of a load -/

namespace Loaded

/-- How often a file will be read for the imports that are met. -/
def readsLeft (l : Loaded) (source : String) (met : List Pending) : Nat :=
  readsFor (decide (source ∈ l.effects)) (decide (l.HasKey (key source))) (formsOf source met)

variable {l : Loaded} {p : Pending}

theorem readsLeft_covered (hp : p.WF m) (hcovers : l.covers p = true) (source : String)
    (met : List Pending) : l.readsLeft source (p :: met) = l.readsLeft source met := by
  unfold readsLeft
  by_cases hsource : p.source = source
  · subst hsource
    rw [covers_iff] at hcovers
    rw [formsOf_cons_self, hp.key_eq]
    cases hside : p.declared.isSideEffect with
    | true =>
      rw [if_pos hside] at hcovers
      simp [readsFor, hcovers]
    | false =>
      rw [hside, if_neg Bool.false_ne_true] at hcovers
      simp [readsFor, hcovers]
  · rw [formsOf_cons_of_ne hsource]

theorem readsLeft_fresh {source : String} (hp : p.WF m)
    (hkey : source = key source ++ Path.sourceExtension) (hfresh : l.covers p = false)
    (file : File) (met : List Pending) :
    l.readsLeft source (p :: met) =
      (l.add p file).readsLeft source met + if p.source = source then 1 else 0 := by
  have hcovers : ¬ l.covers p = true := by simp [hfresh]
  unfold readsLeft
  by_cases hsource : p.source = source
  · subst hsource
    rw [covers_iff] at hcovers
    have hadded : (l.add p file).HasKey p.declared.resolvedPath := hasKey_add.2 (Or.inl rfl)
    rw [formsOf_cons_self, hp.key_eq, if_pos rfl, decide_eq_true hadded]
    cases hside : p.declared.isSideEffect with
    | true =>
      rw [if_pos hside] at hcovers
      have heffects : p.source ∈ (l.add p file).effects := mem_effects_add.2 (Or.inl ⟨hside, rfl⟩)
      simp [readsFor, hcovers, heffects]
    | false =>
      rw [hside, if_neg Bool.false_ne_true] at hcovers
      have heffects : p.source ∈ (l.add p file).effects ↔ p.source ∈ l.effects := by
        simp [mem_effects_add, hside]
      simp [readsFor, hcovers, heffects]
  · have heffects : source ∈ (l.add p file).effects ↔ source ∈ l.effects := by
      rw [mem_effects_add]
      exact or_iff_right fun h => hsource h.2.symm
    have hkeys : (l.add p file).HasKey (key source) ↔ l.HasKey (key source) := by
      rw [hasKey_add]
      refine or_iff_right fun h => hsource ?_
      rw [hp.source_eq, hkey, h]
    simp [formsOf_cons_of_ne hsource, hsource, heffects, hkeys]

end Loaded

namespace LoadRun

variable {l : Loaded} {pending met : List Pending} {reads : List String}
  {r : Except Error Loaded}

/-- What holds of the imports that are pending and of those of every file holds of all that are met. -/
theorem forall_met {P : Pending → Prop} (hrun : LoadRun m project l pending met reads r)
    (hpending : ∀ p ∈ pending, P p) (hfiles : ∀ file, ∀ p ∈ pendingOf m project file, P p) :
    ∀ p ∈ met, P p := by
  induction hrun with
  | done => exact hpending
  | covered _ _ ih =>
    rw [List.forall_mem_cons] at hpending ⊢
    exact ⟨hpending.1, ih hpending.2⟩
  | loaded _ hfetch _ ih =>
    rw [List.forall_mem_cons] at hpending ⊢
    obtain ⟨parsed, -, -, hr⟩ := fetch_ok hfetch
    cases hr
    refine ⟨hpending.1, ih ?_⟩
    intro q hq
    exact (List.mem_append.1 hq).elim (hfiles parsed q) (hpending.2 q)
  | failed =>
    rw [List.forall_mem_cons] at hpending ⊢
    exact ⟨hpending.1, fun _ h => absurd h List.not_mem_nil⟩

/-- Every import that is met means a file in memory. -/
theorem met_wf (hrun : LoadRun m project l pending met reads r) (hwf : ∀ p ∈ pending, p.WF m) :
    ∀ p ∈ met, p.WF m :=
  hrun.forall_met hwf fun _ _ => pendingOf_wf

/-- Only what an import means is read. -/
theorem exists_met_of_mem_reads (hrun : LoadRun m project l pending met reads r) {path : String}
    (h : path ∈ reads) : ∃ p ∈ met, p.source = path := by
  induction hrun with
  | done => exact absurd h List.not_mem_nil
  | covered _ _ ih =>
    obtain ⟨p, hp, hpath⟩ := ih h
    exact ⟨p, List.mem_cons_of_mem _ hp, hpath⟩
  | loaded _ _ _ ih =>
    rcases List.mem_cons.1 h with rfl | h
    · exact ⟨_, List.mem_cons_self, rfl⟩
    · obtain ⟨p, hp, hpath⟩ := ih h
      exact ⟨p, List.mem_cons_of_mem _ hp, hpath⟩
  | failed => exact ⟨_, List.mem_cons_self, (List.mem_singleton.1 h).symm⟩

/-- A load reads a source file as often as the forms of its imports say. -/
theorem count_reads (hrun : LoadRun m project l pending met reads r) (hwf : ∀ p ∈ pending, p.WF m)
    {source : String} (hsource : source = key source ++ Path.sourceExtension) :
    reads.count source = l.readsLeft source met := by
  induction hrun with
  | done => rfl
  | @covered l p rest met reads r hcovers _ ih =>
    rw [List.forall_mem_cons] at hwf
    rw [Loaded.readsLeft_covered hwf.1 hcovers]
    exact ih hwf.2
  | @loaded l p rest more met file reads r hfresh hfetch _ ih =>
    rw [List.forall_mem_cons] at hwf
    obtain ⟨parsed, -, -, hr⟩ := fetch_ok hfetch
    cases hr
    rw [Loaded.readsLeft_fresh hwf.1 hsource hfresh (resolved m project parsed),
      List.count_cons,
      ih fun q hq => (List.mem_append.1 hq).elim pendingOf_wf (hwf.2 q)]
    simp only [beq_iff_eq]
  | @failed l p rest e hfresh _ =>
    rw [List.forall_mem_cons] at hwf
    rw [Loaded.readsLeft_fresh hwf.1 hsource hfresh ⟨"", [], [], [], [], []⟩]
    simp [Loaded.readsLeft, formsOf, readsFor, List.count_cons]

end LoadRun

/-- What keeps a load from reading a file twice: the entry file is not imported, and a file that is
imported for its effects is so where it is met first. -/
structure MeetsOnce (entry : String) (met : List Pending) : Prop where
  notEntry : ∀ p ∈ met, p.source ≠ entry
  effectsFirst : ∀ p ∈ met, p.declared.isSideEffect = true →
    ∀ first, met.find? (·.source = p.source) = some first → first.declared.isSideEffect = true

theorem effectsFirst_iff {p : Pending} {met : List Pending} (hp : p ∈ met) :
    ((formsOf p.source met).head? = some true) ↔
      ∀ first, met.find? (·.source = p.source) = some first → first.declared.isSideEffect = true := by
  rw [head?_formsOf]
  cases hfind : met.find? (·.source = p.source) with
  | none => exact absurd (decide_eq_true rfl) (List.find?_eq_none.1 hfind p hp)
  | some first => simp

theorem LoadRun.nodup_reads_iff {entry : String} {pending met : List Pending} {reads : List String}
    {r : Except Error Loaded} (hrun : LoadRun m project .empty pending met reads r)
    (hwf : ∀ p ∈ pending, p.WF m) : (entry ∉ reads ∧ reads.Nodup) ↔ MeetsOnce entry met := by
  have hcount : ∀ p ∈ met, reads.count p.source = readsFor false false (formsOf p.source met) := by
    intro p hp
    have hpwf := hrun.met_wf hwf p hp
    exact hrun.count_reads hwf (by rw [hpwf.key_eq, ← hpwf.source_eq])
  have hmem : ∀ p ∈ met, p.source ∈ reads := by
    intro p hp
    rw [← List.count_pos_iff, hcount p hp, Nat.pos_iff_ne_zero, Ne, readsFor_eq_zero]
    exact List.ne_nil_of_mem (mem_formsOf.2 ⟨p, hp, rfl, rfl⟩)
  rw [List.nodup_iff_count]
  constructor
  · rintro ⟨hentry, honce⟩
    refine ⟨fun p hp heq => hentry (heq ▸ hmem p hp), fun p hp hside => ?_⟩
    have hone := honce p.source
    rw [hcount p hp, readsFor_le_one] at hone
    exact (effectsFirst_iff hp).1 (hone (mem_formsOf.2 ⟨p, hp, rfl, hside⟩))
  · intro hmeets
    refine ⟨fun hentry => ?_, fun path => ?_⟩
    · obtain ⟨p, hp, hpath⟩ := hrun.exists_met_of_mem_reads hentry
      exact hmeets.notEntry p hp hpath
    · by_cases hpath : path ∈ reads
      · obtain ⟨p, hp, rfl⟩ := hrun.exists_met_of_mem_reads hpath
        rw [hcount p hp, readsFor_le_one]
        intro heffects
        obtain ⟨q, hq, hsource, hside⟩ := mem_formsOf.1 heffects
        rw [← hsource]
        exact (effectsFirst_iff hq).2 (hmeets.effectsFirst q hq hside)
      · rw [List.count_eq_zero_of_not_mem hpath]
        exact Nat.zero_le 1

/-! ## The reads around a load -/

variable (m)

/-- The config file that belongs to an entry file. -/
def configFile? (entry : String) : Option String :=
  ((ancestors (Path.directory (Path.combine m.cwd entry))).map (Path.combine · Config.fileName)).find?
    m.exists?

variable {m}

theorem filesRead_configIn (otherwise : Config) (dirs : List String) :
    m.filesRead (m.asked (configIn otherwise dirs)) =
      ((dirs.map (Path.combine · Config.fileName)).find? m.exists?).toList := by
  induction dirs with
  | nil => rfl
  | cons dir rest ih =>
    unfold configIn
    rw [m.asked_bind, m.answer_lift, m.asked_lift, m.run_fileExists, m.filesRead_append,
      List.map_cons, List.find?_cons]
    cases hexists : m.exists? (Path.combine dir Config.fileName) with
    | true =>
      simp only [↓reduceIte]
      rw [m.asked_bind, m.asked_text]
      cases m.answer (Inspection.text (Path.combine dir Config.fileName)) <;>
        simp [MemoryFiles.filesRead, hexists]
    | false => exact ih

theorem filesRead_findConfig (entry : String) :
    m.filesRead (m.asked (findConfig m.cwd entry)) = (configFile? m entry).toList :=
  filesRead_configIn _ _

theorem filesRead_findEntry (cwd path : String) :
    m.filesRead (m.asked (findEntry cwd path)) = [] := by
  unfold findEntry
  rw [m.asked_bind, m.answer_lift, m.asked_lift, m.run_fileExists, m.filesRead_append]
  cases m.exists? (Path.combine cwd path) with
  | true => rfl
  | false =>
    simp only [Bool.false_eq_true, ↓reduceIte]
    rw [m.asked_bind, m.answer_lift, m.asked_lift, m.run_fileExists, m.filesRead_append]
    cases m.exists? (vendored cwd path) <;> rfl

theorem answer_findEntry (cwd path : String) :
    m.answer (findEntry cwd path) =
      if m.exists? (Path.combine cwd path) then .ok (Path.combine cwd path)
      else if m.exists? (vendored cwd path) then .ok (vendored cwd path)
      else .error ⟨.fileNotFound path, .start⟩ := by
  unfold findEntry
  rw [m.answer_bind, m.answer_lift, m.run_fileExists]
  cases m.exists? (Path.combine cwd path) with
  | true => rfl
  | false =>
    simp only [Bool.false_eq_true, ↓reduceIte]
    rw [m.answer_bind, m.answer_lift, m.run_fileExists]
    cases m.exists? (vendored cwd path) <;> rfl

theorem exists_of_findEntry {cwd path entry : String}
    (h : m.answer (findEntry cwd path) = .ok entry) : m.exists? entry = true := by
  rw [answer_findEntry] at h
  split at h
  · cases h
    assumption
  · split at h
    · cases h
      assumption
    · cases h

theorem fileName_isPlain : Path.IsPlain Config.fileName.toList where
  noSlash := by decide
  noBackslash := by decide
  notEmpty := by decide
  notHere := by decide
  notUp := by decide

/-- A config file is no source file. -/
theorem configFile_ne {entry path k : String} (h : configFile? m entry = some path) :
    path ≠ k ++ Path.sourceExtension := by
  rintro rfl
  obtain ⟨dir, -, hdir⟩ := List.mem_map.1 (List.mem_of_find?_eq_some h)
  have hroot : Path.isRooted (String.ofList Config.fileName.toList) = false := by decide
  obtain ⟨before, hbefore⟩ := Path.combine_name fileName_isPlain hroot dir
  rw [String.ofList_toList] at hbefore
  have hends : (before ++ Config.fileName.toList).getLast? =
      (k.toList ++ Path.sourceExtension.toList).getLast? := by
    rw [← hbefore, hdir, String.toList_append]
  rw [List.getLast?_append, List.getLast?_append] at hends
  cases hends

/-- The imports that the load of a file meets. -/
def importsOf (m : MemoryFiles) (project : Project) (file : File) : List Pending :=
  importsMet m project m.loadLimit .empty (pendingOf m project file)

theorem importsOf_run (file : File) :
    LoadRun m project .empty (pendingOf m project file) (importsOf m project file)
      (m.filesRead (m.asked (loadPending project m.loadLimit .empty (pendingOf m project file))))
      (m.answer (loadPending project m.loadLimit .empty (pendingOf m project file))) :=
  loadRun m project m.loadLimit .empty _ (fun _ hp => pendingOf_wf hp)
    (Nat.le_of_eq (unread_empty m))

/-- No file is read twice by a load, and `entry` is not read. -/
theorem nodup_load_iff (entry : String) (file : File) :
    (entry ∉ m.filesRead (m.asked (load project m.loadLimit file)) ∧
        (m.filesRead (m.asked (load project m.loadLimit file))).Nodup) ↔
      (Resolves m project file → MeetsOnce entry (importsOf m project file)) := by
  rw [filesRead_load]
  cases hresolve : m.answer (resolveImports project file) with
  | error e =>
    refine iff_of_true ⟨List.not_mem_nil, .nil⟩ fun hresolves => ?_
    rw [answer_resolveImports hresolves] at hresolve
    cases hresolve
  | ok r =>
    obtain ⟨hresolves, rfl⟩ := answer_resolveImports_ok hresolve
    exact ((importsOf_run file).nodup_reads_iff fun _ hp => pendingOf_wf hp).trans
      ⟨fun h _ => h, fun h => h hresolves⟩

/-- Whatever a load reads ends as source files do. -/
theorem source_of_mem_filesRead_load {file : File} {path : String}
    (h : path ∈ m.filesRead (m.asked (load project m.loadLimit file))) :
    path = key path ++ Path.sourceExtension := by
  rw [filesRead_load] at h
  cases hresolve : m.answer (resolveImports project file) with
  | error e =>
    rw [hresolve] at h
    exact absurd h List.not_mem_nil
  | ok r =>
    rw [hresolve] at h
    obtain ⟨-, rfl⟩ := answer_resolveImports_ok hresolve
    obtain ⟨p, hp, rfl⟩ := (importsOf_run file).exists_met_of_mem_reads h
    have hpwf := (importsOf_run file).met_wf (fun _ hp => pendingOf_wf hp) p hp
    rw [hpwf.key_eq, ← hpwf.source_eq]

/-! ## The reads of a whole run -/

variable (m)

/-- What keeps a run on an entry file from reading a file twice. -/
structure EntryOnce (project : Project) (entry : String) : Prop where
  notConfig : configFile? m entry ≠ some entry
  meetsOnce : ∀ {file}, Parses m project entry file → Resolves m project file →
    MeetsOnce entry (importsOf m project file)

/-- What keeps the run on the entry file at `path` from reading a file twice. -/
def ReadsOnce (path : String) (options : Options) : Prop :=
  ∀ {entry config}, m.answer (findEntry m.cwd path) = .ok entry →
    m.answer (findConfig m.cwd entry) = .ok config → EntryOnce m ⟨m.cwd, config, options⟩ entry

/-- The files that a run on the entry file at `path` reads, from the config file on. -/
theorem filesRead_parse (path : String) (options : Options) :
    m.filesRead (m.parse path options).2 =
      match m.answer (findEntry m.cwd path) with
      | .error _ => []
      | .ok entry => (configFile? m entry).toList ++
        match m.answer (findConfig m.cwd entry) with
        | .error _ => []
        | .ok config => entry ::
          match m.answer (parseFile ⟨m.cwd, config, options⟩ entry) with
          | .error _ => []
          | .ok file =>
            m.filesRead (m.asked (load ⟨m.cwd, config, options⟩ m.loadLimit file)) := by
  show m.filesRead (m.asked (parse m.loadLimit m.cwd path options)) = _
  unfold parse
  rw [m.asked_bind, m.filesRead_append, filesRead_findEntry, List.nil_append]
  cases hentry : m.answer (findEntry m.cwd path) with
  | error e => rfl
  | ok entry =>
    simp only
    rw [m.asked_bind, m.filesRead_append, filesRead_findConfig]
    cases hconfig : m.answer (findConfig m.cwd entry) with
    | error e => rfl
    | ok config =>
      simp only
      rw [m.asked_bind, m.filesRead_append, asked_parseFile]
      have hread : m.filesRead [.read entry] = [entry] := by
        simp [MemoryFiles.filesRead, exists_of_findEntry hentry]
      rw [hread]
      cases m.answer (parseFile ⟨m.cwd, config, options⟩ entry) <;> rfl

variable {m}

theorem nodup_entry_iff (project : Project) (entry : String) :
    ((configFile? m entry).toList ++ entry ::
        match m.answer (parseFile project entry) with
        | .error _ => []
        | .ok file => m.filesRead (m.asked (load project m.loadLimit file))).Nodup ↔
      EntryOnce m project entry := by
  have hconfig : ∀ rest : List String, (∀ s ∈ rest, s = key s ++ Path.sourceExtension) →
      (((configFile? m entry).toList ++ entry :: rest).Nodup ↔
        configFile? m entry ≠ some entry ∧ entry ∉ rest ∧ rest.Nodup) := by
    intro rest hrest
    cases hfile : configFile? m entry with
    | none => simp
    | some path =>
      have hpath : path ∉ rest := fun h => configFile_ne hfile (hrest path h)
      simp [hpath]
  cases hparse : m.answer (parseFile project entry) with
  | error e =>
    rw [hconfig [] fun _ h => absurd h List.not_mem_nil]
    refine ⟨fun h => ⟨h.1, fun hfile => ?_⟩, fun h => ⟨h.notConfig, List.not_mem_nil, .nil⟩⟩
    rw [answer_parseFile_ok.2 hfile] at hparse
    cases hparse
  | ok file =>
    rw [hconfig _ fun _ h => source_of_mem_filesRead_load h, nodup_load_iff]
    have hfile := answer_parseFile_ok.1 hparse
    constructor
    · rintro ⟨hne, hmeets⟩
      refine ⟨hne, fun hother hresolves => ?_⟩
      obtain rfl := parses_unique hfile hother
      exact hmeets hresolves
    · intro honce
      exact ⟨honce.notConfig, honce.meetsOnce hfile⟩

/-- **Reads.** A run reads no file twice exactly when the entry file is not its config file, no import
means the entry file, and every file that is imported for its effects is so where it is met first. -/
theorem nodup_filesRead_iff (m : MemoryFiles) (path : String) (options : Options) :
    (m.filesRead (m.parse path options).2).Nodup ↔ ReadsOnce m path options := by
  rw [filesRead_parse]
  unfold ReadsOnce
  cases hentry : m.answer (findEntry m.cwd path) with
  | error e => exact iff_of_true .nil fun h => by cases h
  | ok entry =>
    simp only [Except.ok.injEq]
    cases hconfig : m.answer (findConfig m.cwd entry) with
    | error e =>
      refine iff_of_true ?_ ?_
      · cases configFile? m entry <;> simp
      · rintro _ _ rfl hc
        cases hconfig.symm.trans hc
    | ok config =>
      refine (nodup_entry_iff _ entry).trans ⟨?_, fun h => h rfl hconfig⟩
      rintro honce _ _ rfl hc
      cases hconfig.symm.trans hc
      exact honce

/-- A file that is imported by name and then for its effects is read for each. -/
theorem filesRead_namedThenEffects :
    let files := (MemoryFiles.ofCwd "/")
      |>.add "a.ts" "import * as b from \"./b\"\nimport \"./b\"".toUTF8
      |>.add "b.ts" "".toUTF8
    files.filesRead (files.parse "a.ts" ⟨false⟩).2 = ["/a.ts", "/b.ts", "/b.ts"] ∧
      ¬ (files.filesRead (files.parse "a.ts" ⟨false⟩).2).Nodup := by
  decide +kernel

end ScriptFront.Module
