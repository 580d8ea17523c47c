import ScriptFront.Proofs.Production.Reads

/-!
# What a file can be blamed for

A production fails for something in the tokens: they are out of order, or they say what is not supported,
repeat a case or fall through one. It never fails for a file that is missing or for a config file. The
productions that `Blames` finds by instance search are those that are put together from such.
-/

namespace ScriptFront

/-- Whether an error with this cause is in the text of a file. -/
@[reducible] def Cause.isOfText : Cause → Bool
  | .importsWithoutFiles | .importNotFound _ | .importFailed .. | .fileNotFound _ | .unreadableFile ..
  | .malformedConfig .. | .invalidConfigPaths _ => false
  | _ => true

theorem Cause.isOfText_iff (cause : Cause) :
    cause.isOfText = true ↔
      cause.kind ≠ .importResolution ∧ cause.kind ≠ .fileAccess ∧ cause.kind ≠ .config := by
  cases cause with
  | importsWithoutFiles | importNotFound | importFailed => exact iff_of_false nofun fun h => h.1 rfl
  | fileNotFound | unreadableFile => exact iff_of_false nofun fun h => h.2.1 rfl
  | malformedConfig | invalidConfigPaths => exact iff_of_false nofun fun h => h.2.2 rfl
  | _ => exact iff_of_true rfl ⟨nofun, nofun, nofun⟩

namespace Production

variable {α β σ : Type}

/-- Whether the only errors of `p` are those in the text of a file. -/
class Blames (p : Production α) : Prop where
  ofText : ∀ {ctx : Context} {c : Cursor} {e : Error}, p ctx c = .error e → e.cause.isOfText = true

namespace Blames

/-- What is sure to be in the text of a file is found to be so by evaluating it. -/
class Certain (b : Bool) : Prop where
  eq : b = true

instance : Certain true := ⟨rfl⟩

/-! ## Steps -/

theorem of_ok {p : Production α} (h : ∀ ctx c, ∃ r, p ctx c = .ok r) : Blames p := by
  refine ⟨fun {ctx c _} herror => ?_⟩
  obtain ⟨r, hr⟩ := h ctx c
  cases hr.symm.trans herror

instance pure (a : α) : Blames (Pure.pure a : Production α) := of_ok fun _ _ => ⟨_, rfl⟩

instance fail (cause : Cause) (position : Position) [h : Certain cause.isOfText] :
    Blames (Production.fail cause position : Production α) := by
  refine ⟨fun herror => ?_⟩
  cases herror
  exact h.eq

instance failHere (cause : String → Cause) [h : ∀ found, Certain (cause found).isOfText] :
    Blames (Production.failHere cause : Production α) := by
  refine ⟨fun herror => ?_⟩
  cases herror
  exact (h _).eq

instance peek : Blames Production.peek := of_ok fun _ _ => ⟨_, rfl⟩

instance peekNth (n : Nat) : Blames (Production.peekNth n) := of_ok fun _ _ => ⟨_, rfl⟩

instance peekKind : Blames Production.peekKind := of_ok fun _ _ => ⟨_, rfl⟩

instance isAt (k : Kind) : Blames (Production.isAt k) := of_ok fun _ _ => ⟨_, rfl⟩

instance isAtWord (w : String) : Blames (Production.isAtWord w) := of_ok fun _ _ => ⟨_, rfl⟩

instance asks (f : Cursor → α) : Blames (Production.asks f) := of_ok fun _ _ => ⟨_, rfl⟩

instance optimizes : Blames Production.optimizes := of_ok fun _ _ => ⟨_, rfl⟩

instance next : Blames Production.next := of_ok fun _ _ => ⟨_, rfl⟩

instance advance (n : Nat) : Blames (Production.advance n) := of_ok fun _ _ => ⟨_, rfl⟩

instance optional (k : Kind) : Blames (Production.optional k) := by
  refine of_ok fun ctx c => ?_
  unfold Production.optional
  split <;> exact ⟨_, rfl⟩

instance accept (k : Kind) : Blames (Production.accept k) := by
  refine ⟨fun {_ c _} herror => ?_⟩
  unfold Production.accept Cursor.accept at herror
  split at herror
  · cases herror
  · cases herror
    rfl

/-! ## Productions put together -/

instance bind {p : Production α} {f : α → Production β} [hp : Blames p] [hf : ∀ a, Blames (f a)] :
    Blames (p >>= f) := by
  refine ⟨fun {ctx c _} herror => ?_⟩
  rw [run_bind] at herror
  cases hrun : p ctx c with
  | error e =>
    rw [hrun] at herror
    cases herror
    exact hp.ofText hrun
  | ok r =>
    rw [hrun] at herror
    exact (hf r.1).ofText herror

theorem andThen {p : Production α} {f : α → Production β} (hp : Blames p) (hf : ∀ a, Blames (f a)) :
    Blames (p >>= f) := bind

instance map {p : Production α} (f : α → β) [hp : Blames p] : Blames (f <$> p) :=
  andThen hp fun a => pure (f a)

instance discard {p : Production α} [hp : Blames p] : Blames (Functor.discard p) := map _

instance ite {p q : Production α} {c : Prop} [Decidable c] [hp : Blames p] [hq : Blames q] :
    Blames (if c then p else q) := by
  split
  · exact hp
  · exact hq

instance nested {p : Production α} [hp : Blames p] : Blames (Production.nested p) := by
  refine ⟨fun herror => ?_⟩
  unfold Production.nested at herror
  split at herror
  · cases herror
    rfl
  · exact hp.ofText herror

instance skips (k : Kind) : Blames (Production.skips k) := map Option.isSome

instance semicolon : Blames Production.semicolon := by
  unfold Production.semicolon
  infer_instance

instance identifier : Blames Production.identifier := by
  unfold Production.identifier
  infer_instance

instance name : Blames Production.name := by
  unfold Production.name
  infer_instance

instance word (w : String) : Blames (Production.word w) := by
  unfold Production.word
  infer_instance

/-! ## Repetition -/

instance loop {step : σ → Production (Turn σ β)} [h : ∀ x, Blames (step x)] (x : σ) :
    Blames (Production.loop step x) := by
  have hrounds : ∀ rounds : List Stop, ∀ x, Blames (loopFrom step rounds x) := by
    intro rounds
    induction rounds with
    | nil =>
      intro x
      unfold loopFrom
      infer_instance
    | cons _ rounds ih =>
      intro x
      unfold loopFrom
      refine andThen (h x) fun t => ?_
      cases t with
      | again x' => exact ih x'
      | done b => exact pure b
  exact ⟨fun {_ c _} herror => (hrounds (c.last :: c.ahead) x).ofText herror⟩

instance rounds {p : Production Bool} [Blames p] : Blames (Production.rounds p) := by
  unfold Production.rounds
  infer_instance

instance separated {p : Production α} [Blames p] : Blames (Production.separated p) := by
  unfold Production.separated
  infer_instance

instance listed {p : Production α} (close : Mark) [Blames p] : Blames (Production.listed close p) := by
  unfold Production.listed
  dsimp only
  infer_instance

end Blames

end Production

end ScriptFront
