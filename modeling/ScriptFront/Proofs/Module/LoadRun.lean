import ScriptFront.Module.InMemory
import ScriptFront.Proofs.Module.ImportGraph

/-!
# The run of a load

A load of pending imports takes them up one after the other. One that is covered is passed over; the
file of another one is fetched, and its imports come before the rest. `LoadRun` is the whole run, with
the imports met on the way and the files read, and `loadRun` says that a load on files in memory is such
a run: the bound on the number of files, `loadLimit`, is never reached. What every step keeps holds at
the end by induction on the run.
-/

namespace ScriptFront.Module

variable (m : MemoryFiles) (project : Project)

/-! ## Runs -/

/-- A run from what is loaded and what is pending: the imports that it meets, the files that it reads
and how it ends. -/
inductive LoadRun :
    Loaded → List Pending → List Pending → List String → Except Error Loaded → Prop
  | done {l : Loaded} : LoadRun l [] [] [] (.ok l)
  | covered {l : Loaded} {p : Pending} {rest met : List Pending} {reads : List String}
      {r : Except Error Loaded} (hcovers : l.covers p = true) (hrest : LoadRun l rest met reads r) :
      LoadRun l (p :: rest) (p :: met) reads r
  | loaded {l : Loaded} {p : Pending} {rest more met : List Pending} {file : File}
      {reads : List String} {r : Except Error Loaded} (hfresh : l.covers p = false)
      (hfetch : fetch m project p = .ok (file, more))
      (hrest : LoadRun (l.add p file) (more ++ rest) met reads r) :
      LoadRun l (p :: rest) (p :: met) (p.source :: reads) r
  | failed {l : Loaded} {p : Pending} {rest : List Pending} {e : Error}
      (hfresh : l.covers p = false) (hfetch : fetch m project p = .error e) :
      LoadRun l (p :: rest) [p] [p.source] (.error e)

/-- The imports that a load meets, in order, those that are passed over included. -/
def importsMet : Nat → Loaded → List Pending → List Pending
  | limit, l, pending =>
    pending.takeWhile l.covers ++
      match pending.dropWhile l.covers with
      | [] => []
      | p :: rest =>
        p :: match limit, fetch m project p with
          | limit + 1, .ok (file, more) => importsMet limit (l.add p file) (more ++ rest)
          | _, _ => []

/-! ## What is loaded -/

namespace Loaded

/-- Whether a file with this key is loaded. -/
def HasKey (l : Loaded) (k : String) : Prop := k ∈ l.files.map (·.1)

instance {l : Loaded} {k : String} : Decidable (l.HasKey k) :=
  inferInstanceAs (Decidable (k ∈ l.files.map (·.1)))

theorem mem_insertFile {k k' : String} {f f' : File} {files : List (String × File)}
    (h : (k', f') ∈ insertFile k f files) : (k' = k ∧ f' = f) ∨ (k', f') ∈ files := by
  induction files with
  | nil =>
    unfold insertFile at h
    simpa using h
  | cons g rest ih =>
    unfold insertFile at h
    split at h
    · rcases List.mem_cons.1 h with h | h
      · exact Or.inl (Prod.mk.inj h)
      · exact Or.inr h
    · split at h
      · rcases List.mem_cons.1 h with h | h
        · exact Or.inl (Prod.mk.inj h)
        · exact Or.inr (List.mem_cons_of_mem _ h)
      · rcases List.mem_cons.1 h with h | h
        · exact Or.inr (h ▸ List.mem_cons_self)
        · exact (ih h).imp_right (List.mem_cons_of_mem _)

theorem keys_insertFile (k : String) (f : File) (files : List (String × File)) (k' : String) :
    k' ∈ (insertFile k f files).map (·.1) ↔ k' = k ∨ k' ∈ files.map (·.1) := by
  induction files with
  | nil => simp [insertFile]
  | cons g rest ih =>
    unfold insertFile
    split
    · simp
    · split
      · next heq =>
        subst heq
        simp
      · simp only [List.map_cons, List.mem_cons, ih]
        exact or_left_comm

theorem hasKey_add {l : Loaded} {p : Pending} {file : File} {k : String} :
    (l.add p file).HasKey k ↔ k = p.declared.resolvedPath ∨ l.HasKey k :=
  keys_insertFile ..

theorem mem_effects_add {l : Loaded} {p : Pending} {file : File} {s : String} :
    s ∈ (l.add p file).effects ↔
      (p.declared.isSideEffect = true ∧ s = p.source) ∨ s ∈ l.effects := by
  unfold add
  cases p.declared.isSideEffect <;> simp

/-- An import for its effects is passed over when such an import of the file has been met, and another
one when the file is loaded. -/
theorem covers_iff {l : Loaded} {p : Pending} :
    l.covers p = true ↔
      if p.declared.isSideEffect = true then p.source ∈ l.effects
      else l.HasKey p.declared.resolvedPath := by
  unfold covers HasKey
  cases p.declared.isSideEffect
  · simp
  · simp

end Loaded

/-! ## The bound on the number of files -/

/-- How many reads are left at most: each file can be read once for its effects and once for its
key. -/
def unread (l : Loaded) : Nat :=
  (m.files.map (·.1)).countP (fun path => decide (path ∉ l.effects))
    + (m.files.map (·.1)).countP (fun path => decide (key path ∉ l.files.map (·.1)))

theorem unread_empty : unread m .empty = m.loadLimit := by
  unfold unread MemoryFiles.loadLimit Loaded.empty
  simp only [List.not_mem_nil, not_false_eq_true, decide_true, List.map_nil, List.countP_true,
    List.length_map]
  omega

/-- A predicate that loses a member of the list counts less. -/
theorem countP_lt {α : Type} {P Q : α → Bool} {xs : List α} (h : ∀ x ∈ xs, P x → Q x) {a : α}
    (ha : a ∈ xs) (hQ : Q a = true) (hP : P a = false) : xs.countP P < xs.countP Q := by
  obtain ⟨before, behind, rfl⟩ := List.append_of_mem ha
  have hbefore : before.countP P ≤ before.countP Q :=
    List.countP_mono_left fun x hx => h x (List.mem_append_left _ hx)
  have hbehind : behind.countP P ≤ behind.countP Q :=
    List.countP_mono_left fun x hx => h x (List.mem_append_right _ (List.mem_cons_of_mem _ hx))
  simp only [List.countP_append, List.countP_cons, hQ, hP, Bool.false_eq_true, ↓reduceIte]
  omega

variable {m project}

theorem mem_paths_of_exists {path : String} (h : m.exists? path = true) :
    path ∈ m.files.map (·.1) := by
  unfold MemoryFiles.exists? MemoryFiles.find? at h
  rw [Option.isSome_map, List.find?_isSome] at h
  obtain ⟨f, hf, hpath⟩ := h
  exact List.mem_map.2 ⟨f, hf, by simpa using hpath⟩

/-- Every file that is read brings the end of the load nearer. -/
theorem unread_add {l : Loaded} {p : Pending} (hp : p.WF m) (hfresh : l.covers p = false)
    (file : File) : unread m (l.add p file) < unread m l := by
  have hmem := mem_paths_of_exists hp.sourceExists
  have heffects : (m.files.map (·.1)).countP (fun path => decide (path ∉ (l.add p file).effects)) ≤
      (m.files.map (·.1)).countP (fun path => decide (path ∉ l.effects)) := by
    refine List.countP_mono_left fun x _ hx => ?_
    simp only [decide_eq_true_eq] at hx ⊢
    exact fun hmem => hx (Loaded.mem_effects_add.2 (Or.inr hmem))
  have hkeys : (m.files.map (·.1)).countP (fun path => decide (key path ∉ (l.add p file).files.map (·.1)))
      ≤ (m.files.map (·.1)).countP (fun path => decide (key path ∉ l.files.map (·.1))) := by
    refine List.countP_mono_left fun x _ hx => ?_
    simp only [decide_eq_true_eq] at hx ⊢
    exact fun hmem => hx (Loaded.hasKey_add.2 (Or.inr hmem))
  have hcovers : ¬ l.covers p = true := by simp [hfresh]
  rw [Loaded.covers_iff] at hcovers
  by_cases hside : p.declared.isSideEffect = true
  · rw [if_pos hside] at hcovers
    have hless : (m.files.map (·.1)).countP (fun path => decide (path ∉ (l.add p file).effects)) <
        (m.files.map (·.1)).countP (fun path => decide (path ∉ l.effects)) := by
      refine countP_lt (fun x _ hx => ?_) hmem (by simpa using hcovers) ?_
      · simp only [decide_eq_true_eq] at hx ⊢
        exact fun hmem => hx (Loaded.mem_effects_add.2 (Or.inr hmem))
      · simpa using Loaded.mem_effects_add.2 (Or.inl ⟨hside, rfl⟩)
    unfold unread
    omega
  · rw [if_neg hside] at hcovers
    have hless : (m.files.map (·.1)).countP
          (fun path => decide (key path ∉ (l.add p file).files.map (·.1))) <
        (m.files.map (·.1)).countP (fun path => decide (key path ∉ l.files.map (·.1))) := by
      refine countP_lt (fun x _ hx => ?_) hmem ?_ ?_
      · simp only [decide_eq_true_eq] at hx ⊢
        exact fun hmem => hx (Loaded.hasKey_add.2 (Or.inr hmem))
      · rw [hp.key_eq]
        exact decide_eq_true hcovers
      · rw [hp.key_eq, decide_eq_false_iff_not, Classical.not_not]
        exact Loaded.hasKey_add.2 (Or.inl rfl)
    unfold unread
    omega

/-! ## The program takes such a run -/

section Steps

variable {limit : Nat} {l : Loaded} {p : Pending} {rest : List Pending}

theorem loadPending_nil : loadPending project limit l [] = pure l := by
  unfold loadPending
  rfl

theorem loadPending_covered (h : l.covers p = true) :
    loadPending project limit l (p :: rest) = loadPending project limit l rest := by
  unfold loadPending
  rw [List.dropWhile_cons, if_pos h]

theorem loadPending_fresh (h : l.covers p = false) :
    loadPending project (limit + 1) l (p :: rest) =
      (do
        let (file, more) ← resolveImports project (← parseImport project p)
        loadPending project limit (l.add p file) (more ++ rest)) := by
  rw [loadPending, List.dropWhile_cons, h]
  rfl

theorem importsMet_covered (h : l.covers p = true) :
    importsMet m project limit l (p :: rest) = p :: importsMet m project limit l rest := by
  rw [importsMet, importsMet, List.takeWhile_cons, List.dropWhile_cons, if_pos h, if_pos h]
  rfl

theorem importsMet_fresh (h : l.covers p = false) :
    importsMet m project (limit + 1) l (p :: rest) =
      p :: match fetch m project p with
        | .ok (file, more) => importsMet m project limit (l.add p file) (more ++ rest)
        | .error _ => [] := by
  rw [importsMet, List.takeWhile_cons, List.dropWhile_cons, h]
  simp only [Bool.false_eq_true, ↓reduceIte, List.nil_append]
  cases fetch m project p <;> rfl

end Steps

variable (m project) in
/-- A load of imports from files in memory is a run, if the limit covers what is unread. -/
theorem loadRun (limit : Nat) (l : Loaded) (pending : List Pending) (hwf : ∀ p ∈ pending, p.WF m)
    (hlimit : unread m l ≤ limit) :
    LoadRun m project l pending (importsMet m project limit l pending)
      (m.filesRead (m.asked (loadPending project limit l pending)))
      (m.answer (loadPending project limit l pending)) := by
  induction limit generalizing l pending with
  | zero =>
    -- Nothing is unread, so everything that is met is covered.
    induction pending with
    | nil =>
      rw [loadPending_nil]
      exact .done
    | cons p rest ih =>
      cases hcovers : l.covers p with
      | true =>
        rw [loadPending_covered hcovers, importsMet_covered hcovers]
        exact .covered hcovers (ih fun q hq => hwf q (List.mem_cons_of_mem _ hq))
      | false =>
        have hless := unread_add (hwf p List.mem_cons_self) hcovers ⟨"", [], [], [], [], []⟩
        omega
  | succ limit ihlimit =>
    induction pending with
    | nil =>
      rw [loadPending_nil]
      exact .done
    | cons p rest ih =>
      have hp := hwf p List.mem_cons_self
      have hrest := fun q hq => hwf q (List.mem_cons_of_mem p hq)
      cases hcovers : l.covers p with
      | true =>
        rw [loadPending_covered hcovers, importsMet_covered hcovers]
        exact .covered hcovers (ih hrest)
      | false =>
        have hreads := filesRead_fetch project hp.sourceExists
        rw [loadPending_fresh hcovers, importsMet_fresh hcovers, ← bind_assoc, m.answer_bind,
          m.asked_bind, m.filesRead_append, hreads]
        cases hfetch : m.answer (parseImport project p >>= resolveImports project) with
        | error e =>
          rw [show fetch m project p = .error e from hfetch]
          exact .failed hcovers hfetch
        | ok r =>
          obtain ⟨file, more⟩ := r
          rw [show fetch m project p = .ok (file, more) from hfetch]
          refine .loaded hcovers hfetch (ihlimit (l.add p file) (more ++ rest) ?_ ?_)
          · obtain ⟨parsed, -, -, hr⟩ := fetch_ok hfetch
            cases hr
            exact wf_pendingOf_append hrest
          · have hless := unread_add hp hcovers file
            omega

/-- The reads of a load are those of its pending imports. -/
theorem filesRead_load (limit : Nat) (file : File) :
    m.filesRead (m.asked (load project limit file)) =
      match m.answer (resolveImports project file) with
      | .ok (_, pending) => m.filesRead (m.asked (loadPending project limit .empty pending))
      | .error _ => [] := by
  unfold load
  rw [m.asked_bind, m.filesRead_append, filesRead_resolveImports]
  cases m.answer (resolveImports project file) with
  | error e => rfl
  | ok r =>
    obtain ⟨resolved, pending⟩ := r
    simp only [List.nil_append]
    rw [m.asked_bind]
    cases m.answer (loadPending project limit .empty pending) <;>
      simp [MemoryFiles.filesRead]

end ScriptFront.Module
