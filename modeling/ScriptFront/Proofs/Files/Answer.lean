import ScriptFront.Files.Memory

/-!
# Running a program step by step

What files in memory answer to a program, and which questions it asks them, put together from the steps
of the program: a bind runs its second half only if the first one answers.
-/

namespace ScriptFront

namespace Inspect

variable {α β γ : Type}

theorem bind_done (x : Inspect α) : x.bind done = x := by
  induction x with
  | done a => rfl
  | exists? path next ih => exact congrArg (exists? path) (funext ih)
  | read path next ih => exact congrArg (read path) (funext ih)

theorem bind_bind (x : Inspect α) (f : α → Inspect β) (g : β → Inspect γ) :
    (x.bind f).bind g = x.bind fun a => (f a).bind g := by
  induction x with
  | done a => rfl
  | exists? path next ih => exact congrArg (exists? path) (funext ih)
  | read path next ih => exact congrArg (read path) (funext ih)

instance : LawfulMonad Inspect :=
  LawfulMonad.mk' Inspect bind_done (fun _ _ => rfl) bind_bind

end Inspect

namespace MemoryFiles

variable {α β : Type} (m : MemoryFiles)

/-- What a program answers on these files. -/
def answer (x : Inspection α) : Except Error α := (m.run x.run).1

/-- The questions that a program asks these files. -/
def asked (x : Inspection α) : List Question := (m.run x.run).2

/-! ## Programs that cannot fail -/

theorem run_bind (x : Inspect α) (f : α → Inspect β) :
    m.run (x >>= f) = ((m.run (f (m.run x).1)).1, (m.run x).2 ++ (m.run (f (m.run x).1)).2) := by
  show m.run (x.bind f) = _
  induction x with
  | done a => rfl
  | exists? path next ih =>
    show ((m.run ((next (m.exists? path)).bind f)).1,
      Question.exists? path :: (m.run ((next (m.exists? path)).bind f)).2) = _
    rw [ih]
    rfl
  | read path next ih =>
    show ((m.run ((next (m.read path)).bind f)).1,
      Question.read path :: (m.run ((next (m.read path)).bind f)).2) = _
    rw [ih]
    rfl

@[simp] theorem run_pure (a : α) : m.run (pure a) = (a, []) := rfl

theorem run_fileExists (path : String) :
    m.run (Inspect.fileExists path) = (m.exists? path, [.exists? path]) := rfl

/-- The content of a file as text, with the reason if there is none. -/
def text (path : String) : Except ReadFailure String :=
  match m.read path with
  | .error e => .error e
  | .ok bytes =>
    match Text.Utf8.decode bytes with
    | .ok s => .ok s
    | .error f => .error (.notText f)

theorem run_readText (path : String) :
    m.run (Inspect.readText path) = (m.text path, [.read path]) := rfl

/-! ## Programs that may fail -/

@[simp] theorem answer_pure (a : α) : m.answer (pure a) = .ok a := rfl

@[simp] theorem asked_pure (a : α) : m.asked (pure a : Inspection α) = [] := rfl

@[simp] theorem answer_throw (e : Error) : m.answer (throw e : Inspection α) = .error e := rfl

@[simp] theorem asked_throw (e : Error) : m.asked (throw e : Inspection α) = [] := rfl

@[simp] theorem answer_ofExcept (r : Except Error α) : m.answer (Inspection.ofExcept r) = r := rfl

@[simp] theorem asked_ofExcept (r : Except Error α) : m.asked (Inspection.ofExcept r) = [] := rfl

@[simp] theorem answer_lift (x : Inspect α) :
    m.answer (liftM x : Inspection α) = .ok (m.run x).1 := by
  show (m.run (x >>= fun a => pure (Except.ok a))).1 = _
  rw [run_bind]
  rfl

@[simp] theorem asked_lift (x : Inspect α) : m.asked (liftM x : Inspection α) = (m.run x).2 := by
  show (m.run (x >>= fun a => pure (Except.ok a))).2 = _
  rw [run_bind]
  exact List.append_nil _

theorem answer_bind (x : Inspection α) (f : α → Inspection β) :
    m.answer (x >>= f) =
      match m.answer x with
      | .ok a => m.answer (f a)
      | .error e => .error e := by
  show (m.run (x.run >>= ExceptT.bindCont f)).1 = _
  rw [run_bind]
  unfold answer
  cases (m.run x.run).1 <;> rfl

theorem asked_bind (x : Inspection α) (f : α → Inspection β) :
    m.asked (x >>= f) =
      m.asked x ++
        match m.answer x with
        | .ok a => m.asked (f a)
        | .error _ => [] := by
  show (m.run (x.run >>= ExceptT.bindCont f)).2 = _
  rw [run_bind]
  unfold answer asked
  cases (m.run x.run).1 <;> rfl

variable {m}

/-- A program that answers has answered in every step. -/
theorem answer_bind_ok {x : Inspection α} {f : α → Inspection β} {b : β} :
    m.answer (x >>= f) = .ok b ↔ ∃ a, m.answer x = .ok a ∧ m.answer (f a) = .ok b := by
  rw [answer_bind]
  cases m.answer x with
  | error e => simp
  | ok a => simp

theorem answer_bind_of_ok {x : Inspection α} {a : α} (h : m.answer x = .ok a)
    (f : α → Inspection β) : m.answer (x >>= f) = m.answer (f a) := by
  rw [answer_bind, h]

/-- A question of a bind is one of its first half, or one of the second half if the first one answers. -/
theorem mem_asked_bind {x : Inspection α} {f : α → Inspection β} {q : Question} :
    q ∈ m.asked (x >>= f) ↔ q ∈ m.asked x ∨ ∃ a, m.answer x = .ok a ∧ q ∈ m.asked (f a) := by
  rw [asked_bind, List.mem_append]
  cases m.answer x with
  | error e => simp
  | ok a => simp

variable (m)

/-- An error that is put differently is still an error. -/
theorem mapError_eq_ok {ε ε' : Type} {g : ε → ε'} {r : Except ε α} {a : α} :
    r.mapError g = .ok a ↔ r = .ok a := by
  cases r with
  | error e => exact iff_of_false nofun nofun
  | ok b =>
    show (Except.ok b : Except ε' α) = .ok a ↔ _
    simp only [Except.ok.injEq]

theorem answer_adapt (g : Error → Error) (x : Inspection α) :
    m.answer (ExceptT.adapt g x) = (m.answer x).mapError g := by
  show (m.run (x.run >>= fun r => pure (r.mapError g))).1 = _
  rw [run_bind]
  rfl

theorem asked_adapt (g : Error → Error) (x : Inspection α) :
    m.asked (ExceptT.adapt g x) = m.asked x := by
  show (m.run (x.run >>= fun r => pure (r.mapError g))).2 = _
  rw [run_bind]
  exact List.append_nil _

theorem answer_text (path : String) :
    m.answer (Inspection.text path) =
      (m.text path).mapError fun e => ⟨.unreadableFile path e.message, .start⟩ := by
  unfold Inspection.text
  rw [answer_bind, answer_lift, run_readText]
  cases m.text path <;> rfl

theorem asked_text (path : String) : m.asked (Inspection.text path) = [.read path] := by
  unfold Inspection.text
  rw [asked_bind, answer_lift, asked_lift, run_readText]
  cases m.text path <;> rfl

end MemoryFiles

end ScriptFront
