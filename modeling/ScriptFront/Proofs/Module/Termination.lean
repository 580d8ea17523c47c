import ScriptFront.Proofs.Module.LoadRun

/-!
# Every load ends

A load goes on in steps: an import that is covered is passed over, and the file of another one is read
and its imports put in front of the rest. No step takes anything out of the two records of what has been
loaded, a step that reads a file puts something new into one of them, and they hold nothing but source
files in memory and their keys. So a load ends on every import graph, however its imports run in circles.
-/

namespace ScriptFront.Module

/-! ## Steps -/

/-- A load on its way. -/
structure Loading where
  loaded : Loaded
  pending : List Pending

variable (m : MemoryFiles) (project : Project)

/-- The beginning of the load of a file whose imports mean something. -/
def Loading.ofEntry (entry : File) : Loading := ⟨.empty, pendingOf m project entry⟩

/-- A step of a load, with the file that it reads if it reads one. -/
inductive LoadStep : Loading → Option String → Loading → Prop
  | pass {l : Loaded} {p : Pending} {rest : List Pending} (hcovers : l.covers p = true) :
      LoadStep ⟨l, p :: rest⟩ none ⟨l, rest⟩
  | take {l : Loaded} {p : Pending} {rest more : List Pending} {file : File}
      (hfresh : l.covers p = false) (hfetch : fetch m project p = .ok (file, more)) :
      LoadStep ⟨l, p :: rest⟩ (some p.source) ⟨l.add p file, more ++ rest⟩

/-- What a load answers where it does not go on, with the file that it reads in vain if it reads one. -/
inductive LoadEnds : Loading → Option String → Except Error Loaded → Prop
  | done {l : Loaded} : LoadEnds ⟨l, []⟩ none (.ok l)
  | failed {l : Loaded} {p : Pending} {rest : List Pending} {e : Error}
      (hfresh : l.covers p = false) (hfetch : fetch m project p = .error e) :
      LoadEnds ⟨l, p :: rest⟩ (some p.source) (.error e)

/-- Any number of steps from one state to another, with the files that they read. -/
inductive LoadTrace : Loading → List String → Loading → Prop
  | stop {s : Loading} : LoadTrace s [] s
  | step {s s' s'' : Loading} {read : Option String} {reads : List String}
      (hstep : LoadStep m project s read s') (hrest : LoadTrace s' reads s'') :
      LoadTrace s (read.toList ++ reads) s''

/-- The source files in memory. -/
def sourceFiles : List String :=
  (m.files.map (·.1)).filter fun path => Path.sourceExtension.toList.isSuffixOf path.toList

/-- Whether only source files in memory have been loaded. -/
structure Loaded.Within (l : Loaded) : Prop where
  effects : ∀ path ∈ l.effects, path ∈ sourceFiles m
  keys : ∀ k, l.HasKey k → ∃ path ∈ sourceFiles m, key path = k

/-- Whether everything that is loaded stays so. -/
structure Loaded.StaysIn (l l' : Loaded) : Prop where
  effects : ∀ path ∈ l.effects, path ∈ l'.effects
  keys : ∀ k, l.HasKey k → l'.HasKey k

/-- Whether a file for its effects or a key is there that was not there before. -/
def Loaded.GrowsTo (l l' : Loaded) : Prop :=
  (∃ path ∈ l'.effects, path ∉ l.effects) ∨ ∃ k, l'.HasKey k ∧ ¬ l.HasKey k

variable {m project}

/-! ## What a step does to the records -/

theorem Loaded.staysIn_add (l : Loaded) (p : Pending) (file : File) : l.StaysIn (l.add p file) where
  effects := fun _ h => mem_effects_add.2 (.inr h)
  keys := fun _ h => hasKey_add.2 (.inr h)

/-- A file is read for an import that one of the records does not know. -/
theorem Loaded.growsTo_add {l : Loaded} {p : Pending} (hfresh : l.covers p = false) (file : File) :
    l.GrowsTo (l.add p file) := by
  have hcovers : ¬ l.covers p = true := by simp [hfresh]
  rw [covers_iff] at hcovers
  by_cases hside : p.declared.isSideEffect = true
  · rw [if_pos hside] at hcovers
    exact .inl ⟨p.source, mem_effects_add.2 (.inl ⟨hside, rfl⟩), hcovers⟩
  · rw [if_neg hside] at hcovers
    exact .inr ⟨p.declared.resolvedPath, hasKey_add.2 (.inl rfl), hcovers⟩

theorem Pending.WF.mem_sourceFiles {p : Pending} (h : p.WF m) : p.source ∈ sourceFiles m := by
  refine List.mem_filter.2 ⟨mem_paths_of_exists h.sourceExists, ?_⟩
  rw [h.source_eq, String.toList_append]
  exact List.isSuffixOf_iff_suffix.2 (List.suffix_append _ _)

theorem Loaded.Within.add {l : Loaded} {p : Pending} (h : l.Within m) (hp : p.WF m) (file : File) :
    (l.add p file).Within m where
  effects := by
    intro path hpath
    rcases mem_effects_add.1 hpath with ⟨-, rfl⟩ | hpath
    · exact hp.mem_sourceFiles
    · exact h.effects path hpath
  keys := by
    intro k hk
    rcases hasKey_add.1 hk with rfl | hk
    · exact ⟨p.source, hp.mem_sourceFiles, hp.key_eq⟩
    · exact h.keys k hk

namespace LoadStep

variable {s s' : Loading} {read : Option String}

theorem staysIn (h : LoadStep m project s read s') : s.loaded.StaysIn s'.loaded := by
  cases h with
  | pass _ => exact ⟨fun _ h => h, fun _ h => h⟩
  | @take l p _ _ file _ _ => exact l.staysIn_add p file

theorem growsTo (h : LoadStep m project s read s') (hread : read.isSome) :
    s.loaded.GrowsTo s'.loaded := by
  cases h with
  | pass _ => cases hread
  | @take _ _ _ _ file hfresh _ => exact Loaded.growsTo_add hfresh file

/-- Every import that waits means a file in memory. -/
theorem wf (h : LoadStep m project s read s') (hwf : ∀ p ∈ s.pending, p.WF m) :
    ∀ p ∈ s'.pending, p.WF m := by
  cases h with
  | pass _ => exact fun p hp => hwf p (List.mem_cons_of_mem _ hp)
  | take _ hfetch =>
    obtain ⟨_, -, -, hr⟩ := fetch_ok hfetch
    cases hr
    exact wf_pendingOf_append fun p hp => hwf p (List.mem_cons_of_mem _ hp)

theorem within (h : LoadStep m project s read s') (hwf : ∀ p ∈ s.pending, p.WF m)
    (hs : s.loaded.Within m) : s'.loaded.Within m := by
  cases h with
  | pass _ => exact hs
  | take _ _ => exact hs.add (hwf _ List.mem_cons_self) _

end LoadStep

/-! ## Runs -/

/-- What holds of a load stays so. -/
theorem LoadTrace.keeps {s s' : Loading} {reads : List String} (h : LoadTrace m project s reads s')
    (hwf : ∀ p ∈ s.pending, p.WF m) (hs : s.loaded.Within m) :
    (∀ p ∈ s'.pending, p.WF m) ∧ s'.loaded.Within m := by
  induction h with
  | stop => exact ⟨hwf, hs⟩
  | step hstep _ ih => exact ih (hstep.wf hwf) (hstep.within hwf hs)

theorem Loaded.within_empty : Loaded.empty.Within m where
  effects := fun _ h => absurd h List.not_mem_nil
  keys := fun _ h => absurd h List.not_mem_nil

/-- No load goes on for ever: a step that reads a file leaves less to read, and any other step leaves
fewer imports that wait. -/
theorem loading_acc (l : Loaded) (pending : List Pending) (hwf : ∀ p ∈ pending, p.WF m) :
    Acc (fun s' s => ∃ read, LoadStep m project s read s') ⟨l, pending⟩ := by
  induction hn : unread m l using Nat.strongRecOn generalizing l pending with
  | ind n ih =>
    induction pending with
    | nil =>
      refine .intro _ fun s' hstep => ?_
      obtain ⟨_, hstep⟩ := hstep
      cases hstep
    | cons p rest ihrest =>
      refine .intro _ fun s' hstep => ?_
      obtain ⟨_, hstep⟩ := hstep
      have hwf' := hstep.wf hwf
      cases hstep with
      | pass _ => exact ihrest hwf'
      | @take _ _ _ _ file hfresh _ =>
        exact ih _ (hn ▸ unread_add (hwf p List.mem_cons_self) hfresh file) _ _ hwf' rfl

/-- A run takes steps up to where it ends. -/
theorem LoadRun.traced {l : Loaded} {pending met : List Pending} {reads : List String}
    {r : Except Error Loaded} (h : LoadRun m project l pending met reads r) :
    ∃ taken s last, LoadTrace m project ⟨l, pending⟩ taken s ∧ LoadEnds m project s last r ∧
      reads = taken ++ last.toList := by
  induction h with
  | done => exact ⟨[], _, none, .stop, .done, rfl⟩
  | covered hcovers _ ih =>
    obtain ⟨taken, s, last, hs, hends, rfl⟩ := ih
    exact ⟨_, s, last, .step (.pass hcovers) hs, hends, rfl⟩
  | loaded hfresh hfetch _ ih =>
    obtain ⟨taken, s, last, hs, hends, rfl⟩ := ih
    exact ⟨_, s, last, .step (.take hfresh hfetch) hs, hends, rfl⟩
  | @failed _ p _ _ hfresh hfetch => exact ⟨[], _, some p.source, .stop, .failed hfresh hfetch, rfl⟩

/-- The files decide what a load reads and how it ends. -/
theorem LoadRun.unique {l : Loaded} {pending met met' : List Pending} {reads reads' : List String}
    {r r' : Except Error Loaded} (h : LoadRun m project l pending met reads r)
    (h' : LoadRun m project l pending met' reads' r') : reads = reads' ∧ r = r' := by
  induction h generalizing met' reads' with
  | done =>
    cases h'
    exact ⟨rfl, rfl⟩
  | covered hcovers _ ih =>
    cases h' with
    | covered _ hrest => exact ih hrest
    | loaded hfresh _ _ => cases hcovers.symm.trans hfresh
    | failed hfresh _ => cases hcovers.symm.trans hfresh
  | loaded hfresh hfetch _ ih =>
    cases h' with
    | covered hcovers _ => cases hcovers.symm.trans hfresh
    | loaded _ hfetch' hrest =>
      cases hfetch.symm.trans hfetch'
      exact (ih hrest).imp_left (congrArg _)
    | failed _ hfetch' => cases hfetch.symm.trans hfetch'
  | failed hfresh hfetch =>
    cases h' with
    | covered hcovers _ => cases hcovers.symm.trans hfresh
    | loaded _ hfetch' _ => cases hfetch.symm.trans hfetch'
    | failed _ hfetch' =>
      cases hfetch.symm.trans hfetch'
      exact ⟨rfl, rfl⟩

/-- **Termination.** There is no endless load of imports from files in memory. On its way the records of
what has been loaded never lose anything, every file that is read puts something new into one of them,
and they hold nothing but source files in memory. The load of an entry file follows such steps to where
they end: it reads what they read and answers what stands there, and a higher limit than `loadLimit`
changes nothing. -/
theorem load_terminates (m : MemoryFiles) (project : Project) (entry : File) :
    Acc (fun s' s => ∃ read, LoadStep m project s read s') (.ofEntry m project entry) ∧
      (∀ reads s, LoadTrace m project (.ofEntry m project entry) reads s →
        s.loaded.Within m ∧ ∀ read s', LoadStep m project s read s' →
          s.loaded.StaysIn s'.loaded ∧ (read.isSome → s.loaded.GrowsTo s'.loaded)) ∧
      ∃ reads s last r, LoadTrace m project (.ofEntry m project entry) reads s ∧
        LoadEnds m project s last r ∧
        ∀ limit, m.loadLimit ≤ limit →
          m.answer (load project limit entry) =
            (m.answer (resolveImports project entry)).bind (fun resolved =>
              r.map fun l => ⟨project.config.basePath, resolved.1, l.files⟩) ∧
          m.filesRead (m.asked (load project limit entry)) =
            match m.answer (resolveImports project entry) with
            | .ok _ => reads ++ last.toList
            | .error _ => [] := by
  have hwf : ∀ p ∈ pendingOf m project entry, p.WF m := fun _ hp => pendingOf_wf hp
  refine ⟨loading_acc _ _ hwf,
    fun reads s hs => ⟨(hs.keeps hwf Loaded.within_empty).2, fun read s' hstep => ?_⟩, ?_⟩
  · exact ⟨hstep.staysIn, hstep.growsTo⟩
  · have hrun (limit : Nat) (hlimit : m.loadLimit ≤ limit) :=
      loadRun m project limit .empty _ hwf (unread_empty m ▸ hlimit)
    have hfirst := hrun m.loadLimit (Nat.le_refl _)
    obtain ⟨reads, s, last, hs, hends, hreads⟩ := hfirst.traced
    refine ⟨reads, s, last, _, hs, hends, fun limit hlimit => ?_⟩
    obtain ⟨hsame, hanswer⟩ := hfirst.unique (hrun limit hlimit)
    rw [filesRead_load, ← hreads, hanswer, hsame]
    unfold load
    rw [m.answer_bind]
    cases hresolve : m.answer (resolveImports project entry) with
    | error e => exact ⟨rfl, rfl⟩
    | ok r =>
      obtain ⟨-, rfl⟩ := answer_resolveImports_ok hresolve
      refine ⟨?_, rfl⟩
      dsimp only
      rw [m.answer_bind]
      cases m.answer (loadPending project limit .empty (pendingOf m project entry)) <;> rfl

end ScriptFront.Module
