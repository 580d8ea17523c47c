import Mathlib.Control.Monad.Basic
import ScriptFront.Proofs.Files.Answer

/-!
# File systems

A `FileSystem` answers every question about every path. It need not hold finitely many files, and what
exists there need not be readable. A program sees no more of it than the answers it gets: two file systems
that answer alike what a program asks the first one are the same to it (`run_eq_of_agreesOn`).
-/

namespace ScriptFront

/-- The path that a question is about. -/
def Question.path : Question → String
  | .exists? path => path
  | .read path => path

/-- What can be asked about files, whoever holds them. -/
structure FileSystem where
  cwd : String
  exists? : String → Bool
  read : String → Except ReadFailure ByteArray

namespace FileSystem

variable {α : Type}

/-- The answer of a program that looks at these files, and the questions it asks. -/
def run (fs : FileSystem) : Inspect α → α × List Question
  | .done a => (a, [])
  | .exists? path next =>
    let (a, asked) := fs.run (next (fs.exists? path))
    (a, .exists? path :: asked)
  | .read path next =>
    let (a, asked) := fs.run (next (fs.read path))
    (a, .read path :: asked)

/-- Whether two file systems give the same answer to a question. -/
def Alike (fs fs' : FileSystem) : Question → Prop
  | .exists? path => fs.exists? path = fs'.exists? path
  | .read path => fs.read path = fs'.read path

instance {fs fs' : FileSystem} : DecidablePred (fs.Alike fs')
  | .exists? path => inferInstanceAs (Decidable (fs.exists? path = fs'.exists? path))
  | .read path => inferInstanceAs (Decidable (fs.read path = fs'.read path))

/-- Whether two file systems give the same answers to all of these questions. -/
def AgreesOn (fs fs' : FileSystem) (asked : List Question) : Prop :=
  ∀ q ∈ asked, fs.Alike fs' q

instance {fs fs' : FileSystem} {asked : List Question} : Decidable (fs.AgreesOn fs' asked) :=
  inferInstanceAs (Decidable (∀ q ∈ asked, fs.Alike fs' q))

variable {fs fs' : FileSystem}

theorem agreesOn_cons {q : Question} {asked : List Question} :
    fs.AgreesOn fs' (q :: asked) ↔ fs.Alike fs' q ∧ fs.AgreesOn fs' asked :=
  List.forall_mem_cons

/-- A program cannot tell file systems apart that answer its questions alike. -/
theorem run_eq_of_agreesOn (x : Inspect α) (h : fs.AgreesOn fs' (fs.run x).2) :
    fs'.run x = fs.run x := by
  induction x with
  | done a => rfl
  | exists? path next ih =>
    obtain ⟨hpath, hrest⟩ := agreesOn_cons.1 h
    have hpath : fs.exists? path = fs'.exists? path := hpath
    have hnext := ih _ hrest
    simp only [run]
    rw [← hpath, hnext]
  | read path next ih =>
    obtain ⟨hpath, hrest⟩ := agreesOn_cons.1 h
    have hpath : fs.read path = fs'.read path := hpath
    have hnext := ih _ hrest
    simp only [run]
    rw [← hpath, hnext]

/-! ## Programs with a limit -/

/-- Whether a program ends with this answer and these questions, once its limit is high enough. -/
def EndsWith (fs : FileSystem) (x : Nat → Inspection α) (r : Except Error α × List Question) : Prop :=
  ∃ n, ∀ limit, n ≤ limit → fs.run (x limit).run = r

namespace EndsWith

variable {x : Nat → Inspection α} {r r' : Except Error α × List Question}

theorem unique (h : fs.EndsWith x r) (h' : fs.EndsWith x r') : r = r' := by
  obtain ⟨n, hn⟩ := h
  obtain ⟨n', hn'⟩ := h'
  exact (hn (max n n') (Nat.le_max_left ..)).symm.trans (hn' _ (Nat.le_max_right ..))

theorem of_agreesOn (h : fs.EndsWith x r) (hagrees : fs.AgreesOn fs' r.2) : fs'.EndsWith x r := by
  obtain ⟨n, hn⟩ := h
  refine ⟨n, fun limit hlimit => ?_⟩
  have hrun := hn limit hlimit
  rw [← hrun] at hagrees
  exact (run_eq_of_agreesOn _ hagrees).trans hrun

end EndsWith

end FileSystem

namespace MemoryFiles

/-- Files in memory as a file system. -/
def fileSystem (m : MemoryFiles) : FileSystem := ⟨m.cwd, m.exists?, m.read⟩

variable {α β : Type} {m : MemoryFiles}

theorem run_fileSystem (x : Inspect α) : m.fileSystem.run x = m.run x := by
  induction x with
  | done a => rfl
  | exists? path next ih =>
    simp only [FileSystem.run, MemoryFiles.run, ih]
    rfl
  | read path next ih =>
    simp only [FileSystem.run, MemoryFiles.run, ih]
    rfl

/-- A run with its steps replaced by others that go alike. -/
theorem run_bind_congr {x x' : Inspection α} {f f' : α → Inspection β}
    (hx : m.run x.run = m.run x'.run)
    (hf : ∀ a, m.answer x = .ok a → m.run (f a).run = m.run (f' a).run) :
    m.run (x >>= f).run = m.run (x' >>= f').run := by
  have hanswer : m.answer x = m.answer x' := congrArg (·.1) hx
  have hasked : m.asked x = m.asked x' := congrArg (·.2) hx
  apply Prod.ext
  · show m.answer (x >>= f) = m.answer (x' >>= f')
    rw [m.answer_bind, m.answer_bind, ← hanswer]
    cases h : m.answer x with
    | error e => rfl
    | ok a => exact congrArg (·.1) (hf a h)
  · show m.asked (x >>= f) = m.asked (x' >>= f')
    rw [m.asked_bind, m.asked_bind, ← hanswer, ← hasked]
    cases h : m.answer x with
    | error e => rfl
    | ok a => exact congrArg (m.asked x ++ ·.2) (hf a h)

end MemoryFiles

end ScriptFront
