import ScriptFront.Proofs.Files.FileSystem
import ScriptFront.Proofs.Module.Questions

/-!
# What a run looks at

A parse asks which files exist and what they hold, and nothing else decides what it answers. This is so for
every file system, those on which a load never ends included, so the limit of a load has to be out of the
way first: on files in memory it changes neither an answer nor a question (`run_parse_of_le`). A file can
then be added or changed freely where no question of a parse is about it (`parse_add`).
-/

namespace ScriptFront

namespace Module

variable {m : MemoryFiles} {project : Project}

/-! ## The limit -/

/-- Above what is unread, the limit of a load makes no difference. -/
theorem run_loadPending_of_le {l : Loaded} {pending : List Pending} {limit limit' : Nat}
    (hwf : ∀ p ∈ pending, p.WF m) (hlimit : unread m l ≤ limit) (hlimit' : unread m l ≤ limit') :
    m.run (loadPending project limit l pending).run =
      m.run (loadPending project limit' l pending).run := by
  induction hn : unread m l using Nat.strongRecOn generalizing l pending limit limit' with
  | ind n ih =>
    induction pending with
    | nil => rw [loadPending_nil, loadPending_nil]
    | cons p rest ihrest =>
      have hp := hwf p List.mem_cons_self
      have hrest := fun q hq => hwf q (List.mem_cons_of_mem p hq)
      cases hcovers : l.covers p with
      | true =>
        rw [loadPending_covered hcovers, loadPending_covered hcovers]
        exact ihrest hrest
      | false =>
        -- The file of the import is still unread, so neither limit is used up.
        have hless := unread_add hp hcovers
        have hpos := hless ⟨"", [], [], [], [], []⟩
        obtain ⟨limit, rfl⟩ := Nat.exists_eq_add_one.2 (show 0 < limit by omega)
        obtain ⟨limit', rfl⟩ := Nat.exists_eq_add_one.2 (show 0 < limit' by omega)
        rw [loadPending_fresh hcovers, loadPending_fresh hcovers]
        apply MemoryFiles.run_bind_congr rfl
        intro parsed _
        apply MemoryFiles.run_bind_congr rfl
        rintro ⟨file, more⟩ hresolve
        obtain ⟨-, hr⟩ := answer_resolveImports_ok hresolve
        cases hr
        have hfile := hless (resolved m project parsed)
        apply ih _ (hn ▸ hfile) (wf_pendingOf_append hrest) _ _ rfl
        · omega
        · omega

theorem run_load_of_le {limit : Nat} (hlimit : m.loadLimit ≤ limit) (entry : File) :
    m.run (load project limit entry).run = m.run (load project m.loadLimit entry).run := by
  rw [← unread_empty m] at hlimit
  unfold load
  apply MemoryFiles.run_bind_congr rfl
  rintro ⟨resolved, pending⟩ hresolve
  apply MemoryFiles.run_bind_congr
  · apply run_loadPending_of_le
    · obtain ⟨-, hr⟩ := answer_resolveImports_ok hresolve
      cases hr
      exact fun _ hp => pendingOf_wf hp
    · exact hlimit
    · exact (unread_empty m).le
  · exact fun _ _ => rfl

theorem run_parse_of_le {limit : Nat} (hlimit : m.loadLimit ≤ limit) (path : String)
    (options : Options) :
    m.run (parse limit m.cwd path options).run = m.parse path options := by
  unfold MemoryFiles.parse parse
  apply MemoryFiles.run_bind_congr rfl
  intro entry _
  apply MemoryFiles.run_bind_congr rfl
  intro config _
  apply MemoryFiles.run_bind_congr rfl
  intro file _
  exact run_load_of_le hlimit file

theorem run_digest_of_le {limit : Nat} (hlimit : m.loadLimit ≤ limit) (path : String) :
    m.run (digest limit m.cwd path).run = m.digest path := by
  unfold MemoryFiles.digest digest
  apply MemoryFiles.run_bind_congr
  · exact run_parse_of_le hlimit path ⟨false⟩
  · exact fun _ _ => rfl

end Module

/-! ## Results -/

namespace FileSystem

/-- Whether a parse on these files ends with this answer and these questions. -/
def ParsesTo (fs : FileSystem) (path : String) (options : Options)
    (r : Except Error Module × List Question) : Prop :=
  fs.EndsWith (fun limit => Module.parse limit fs.cwd path options) r

/-- Whether a digest on these files ends with this answer and these questions. -/
def DigestsTo (fs : FileSystem) (path : String)
    (r : Except Error (List UInt8) × List Question) : Prop :=
  fs.EndsWith (fun limit => Module.digest limit fs.cwd path) r

end FileSystem

namespace Module

variable {m : MemoryFiles}

theorem parsesTo_iff {path : String} {options : Options} {r : Except Error Module × List Question} :
    m.fileSystem.ParsesTo path options r ↔ m.parse path options = r := by
  have hparse : m.fileSystem.ParsesTo path options (m.parse path options) := by
    refine ⟨m.loadLimit, fun limit hlimit => ?_⟩
    rw [MemoryFiles.run_fileSystem]
    exact run_parse_of_le hlimit path options
  constructor
  · exact fun h => hparse.unique h
  · rintro rfl
    exact hparse

theorem digestsTo_iff {path : String} {r : Except Error (List UInt8) × List Question} :
    m.fileSystem.DigestsTo path r ↔ m.digest path = r := by
  have hdigest : m.fileSystem.DigestsTo path (m.digest path) := by
    refine ⟨m.loadLimit, fun limit hlimit => ?_⟩
    rw [MemoryFiles.run_fileSystem]
    exact run_digest_of_le hlimit path
  constructor
  · exact fun h => hdigest.unique h
  · rintro rfl
    exact hdigest

/-- **What is looked at.** When two file systems with one working directory give the same answers to what
a parse or a digest asks the first one, the run on the second one has the same result and asks the same.
This holds of runs up to any limit too, so it holds of one that never ends. On files in memory every run
ends, and the questions of one that answers are those of `Asks`. -/
theorem results_of_agreesOn (fs fs' : FileSystem) (hcwd : fs.cwd = fs'.cwd) (path : String) :
    (∀ options r, fs.ParsesTo path options r → fs.AgreesOn fs' r.2 → fs'.ParsesTo path options r) ∧
      (∀ r, fs.DigestsTo path r → fs.AgreesOn fs' r.2 → fs'.DigestsTo path r) ∧
      (∀ limit options r, fs.run (parse limit fs.cwd path options).run = r → fs.AgreesOn fs' r.2 →
        fs'.run (parse limit fs'.cwd path options).run = r) ∧
      (∀ limit r, fs.run (digest limit fs.cwd path).run = r → fs.AgreesOn fs' r.2 →
        fs'.run (digest limit fs'.cwd path).run = r) ∧
      ∀ m : MemoryFiles,
        (∀ options, m.fileSystem.ParsesTo path options (m.parse path options) ∧
          ∀ module, (m.parse path options).1 = .ok module →
            ∀ q, q ∈ (m.parse path options).2 ↔ Asks m path options q) ∧
        m.fileSystem.DigestsTo path (m.digest path) ∧
          ∀ module, (m.parse path ⟨false⟩).1 = .ok module →
            ∀ q, q ∈ (m.digest path).2 ↔ Asks m path ⟨false⟩ q := by
  unfold FileSystem.ParsesTo FileSystem.DigestsTo
  rw [← hcwd]
  refine ⟨fun options r => .of_agreesOn, fun r => .of_agreesOn, ?_, ?_, fun m => ⟨?_, ?_, ?_⟩⟩
  · rintro limit options r rfl
    exact FileSystem.run_eq_of_agreesOn _
  · rintro limit r rfl
    exact FileSystem.run_eq_of_agreesOn _
  · intro options
    exact ⟨parsesTo_iff.2 rfl, fun module hparse q => mem_parse_iff hparse⟩
  · exact digestsTo_iff.2 rfl
  · exact fun module hparse q => mem_digest_iff hparse

/-- An entry file that imports one file. -/
def importing : MemoryFiles :=
  ((MemoryFiles.ofCwd "/").add "main.ts" (importLines ["./a"]).toUTF8).add "a.ts" "let a = 1\n".toUTF8

/-- A file that no question is about can be there or not. -/
theorem results_of_agreesOn_unrelated :
    (importing.add "other.ts" "let b = 2\n".toUTF8).digest "main.ts" = importing.digest "main.ts" := by
  have hagrees : importing.fileSystem.AgreesOn
      (importing.add "other.ts" "let b = 2\n".toUTF8).fileSystem (importing.digest "main.ts").2 := by
    decide +kernel
  have hlooks := results_of_agreesOn importing.fileSystem
    (importing.add "other.ts" "let b = 2\n".toUTF8).fileSystem rfl "main.ts"
  exact digestsTo_iff.1 (hlooks.2.1 _ (digestsTo_iff.2 rfl) hagrees)

/-! ## Files that are added -/

theorem find?_add_of_ne {p path : String} (h : path ≠ m.resolve p) (content : ByteArray) :
    (m.add p content).find? path = m.find? path := by
  unfold MemoryFiles.find? MemoryFiles.add
  rw [List.find?_cons_of_neg (by simpa using h.symm), List.find?_filter]
  congr 2
  funext file
  by_cases hfile : file.1 = path
  · simp [hfile, h]
  · simp [hfile]

/-- Adding a file changes the answers to questions about its path only. -/
theorem agreesOn_add {p : String} {content : ByteArray} {asked : List Question}
    (h : ∀ q ∈ asked, q.path ≠ m.resolve p) :
    m.fileSystem.AgreesOn (m.add p content).fileSystem asked := by
  intro q hq
  have hfind := find?_add_of_ne (h q hq) content
  cases q with
  | exists? path =>
    show m.exists? path = (m.add p content).exists? path
    unfold MemoryFiles.exists?
    exact congrArg Option.isSome hfind.symm
  | read path =>
    show m.read path = (m.add p content).read path
    unfold MemoryFiles.read
    rw [show (m.add p content).find? path = m.find? path from hfind]

/-- A file can be added or changed freely where a parse does not look. -/
theorem parse_add {p path : String} {options : Options}
    (h : ∀ q, Asks m path options q → q.path ≠ m.resolve p) (content : ByteArray) :
    (m.add p content).parse path options = m.parse path options := by
  have hagrees : m.fileSystem.AgreesOn (m.add p content).fileSystem (m.parse path options).2 :=
    agreesOn_add fun q hq => h q (asks_of_mem_parse hq)
  have hends : m.fileSystem.ParsesTo path options (m.parse path options) := parsesTo_iff.2 rfl
  exact parsesTo_iff.1 (hends.of_agreesOn hagrees)

theorem digest_add {p path : String} (h : ∀ q, Asks m path ⟨false⟩ q → q.path ≠ m.resolve p)
    (content : ByteArray) : (m.add p content).digest path = m.digest path := by
  have hagrees : m.fileSystem.AgreesOn (m.add p content).fileSystem (m.digest path).2 :=
    agreesOn_add fun q hq => h q (asks_of_mem_digest hq)
  have hends : m.fileSystem.DigestsTo path (m.digest path) := digestsTo_iff.2 rfl
  exact digestsTo_iff.1 (hends.of_agreesOn hagrees)

end Module

end ScriptFront
