import ScriptFront.Production.Repetition

/-!
# Two runs

Tail calls are marked while the tree is built, so a run that marks them is compared step by step with
the run that does not. `Follows f p q` says that `q`, with the switch on, fails where `p` fails with the
switch off, and else answers what `f` makes of the answer of `p` and stops at the same place. A production
that builds no function does not look at the switch at all: it is `Unswitched`.
-/

namespace ScriptFront.Production

variable {α β γ σ : Type}

/-- Whether a production does the same with the switch on and off. -/
class Unswitched (p : Production α) : Prop where
  same : ∀ depth c, p ⟨true, depth⟩ c = p ⟨false, depth⟩ c

/-- Whether `q` makes with the switch on what `f` makes of what `p` makes with the switch off. -/
def Follows (f : α → β) (p : Production α) (q : Production β) : Prop :=
  ∀ depth c, q ⟨true, depth⟩ c = (p ⟨false, depth⟩ c).map (Prod.map f id)

namespace Follows

variable {f : α → β} {p : Production α} {q : Production β}

theorem pure {a : α} {b : β} (h : b = f a) : Follows f (Pure.pure a) (Pure.pure b) := by
  intro depth c
  rw [h]
  rfl

theorem fail (cause : Cause) (position : Position) :
    Follows f (Production.fail cause position) (Production.fail cause position) :=
  fun _ _ => rfl

theorem failHere (cause : String → Cause) :
    Follows f (Production.failHere cause) (Production.failHere cause) :=
  fun _ _ => rfl

theorem bind {α' β' : Type} {h : α' → β'} {k : α → Production α'} {k' : β → Production β'}
    (hp : Follows f p q) (hk : ∀ a, Follows h (k a) (k' (f a))) : Follows h (p >>= k) (q >>= k') := by
  intro depth c
  rw [run_bind, run_bind, hp depth c]
  cases p ⟨false, depth⟩ c with
  | error e => rfl
  | ok r => exact hk r.1 depth r.2

/-- What is read first takes no part in the comparison if it does not look at the switch. -/
theorem read {h : β → γ} {r : Production α} [hr : Unswitched r] {k : α → Production β}
    {k' : α → Production γ} (hk : ∀ a, Follows h (k a) (k' a)) : Follows h (r >>= k) (r >>= k') := by
  intro depth c
  rw [run_bind, run_bind, hr.same depth c]
  cases r ⟨false, depth⟩ c with
  | error e => rfl
  | ok x => exact hk x.1 depth x.2

/-- Where the switch is looked at, it is on in one run and off in the other. -/
theorem optimizes {k : Bool → Production α} {k' : Bool → Production β}
    (hk : Follows f (k false) (k' true)) :
    Follows f (Production.optimizes >>= k) (Production.optimizes >>= k') :=
  hk

theorem nested (hp : Follows f p q) : Follows f (Production.nested p) (Production.nested q) := by
  intro depth c
  unfold Production.nested
  simp only
  split
  · rfl
  · exact hp (depth + 1) c

theorem ite {b : Prop} [Decidable b] {p' : Production α} {q' : Production β} (hp : Follows f p q)
    (hp' : Follows f p' q') : Follows f (if b then p else p') (if b then q else q') := by
  split
  · exact hp
  · exact hp'

theorem map {α' β' : Type} {h : α' → β'} {k : α → α'} {k' : β → β'} (hp : Follows f p q)
    (hk : ∀ a, k' (f a) = h (k a)) : Follows h (k <$> p) (k' <$> q) :=
  hp.bind fun a => .pure (hk a)

theorem some (hp : Follows f p q) : Follows (Option.map f) (Option.some <$> p) (Option.some <$> q) :=
  hp.map fun _ => rfl

end Follows

/-! ## Repetition -/

/-- What becomes of a round, when `h` changes its state and `f` its answer. -/
def Turn.map {σ' β' : Type} (h : σ → σ') (f : β → β') : Turn σ β → Turn σ' β'
  | .again s => .again (h s)
  | .done b => .done (f b)

theorem Follows.loop {σ' α' : Type} {h : σ → σ'} {f : α → α'} {step : σ → Production (Turn σ α)}
    {step' : σ' → Production (Turn σ' α')}
    (hstep : ∀ s, Follows (Turn.map h f) (step s) (step' (h s))) (s : σ) :
    Follows f (loop step s) (loop step' (h s)) := by
  have hrounds : ∀ rounds s, Follows f (loopFrom step rounds s) (loopFrom step' rounds (h s)) := by
    intro rounds
    induction rounds with
    | nil => exact fun s depth c => rfl
    | cons r rounds ih =>
      intro s
      unfold loopFrom
      refine (hstep s).bind fun t => ?_
      cases t with
      | again s => exact ih s
      | done b => exact .pure rfl
  exact fun depth c => hrounds (c.last :: c.ahead) s depth c


/-! ## Productions that do not look at the switch -/

namespace Unswitched

variable {p q : Production α}

theorem of_look {p : Production α} {f : Cursor → Except Error (α × Cursor)}
    (h : ∀ ctx c, p ctx c = f c) : Unswitched p := by
  refine ⟨fun depth c => ?_⟩
  rw [h, h]

instance peek : Unswitched Production.peek := of_look fun _ _ => rfl

instance peekNth (n : Nat) : Unswitched (Production.peekNth n) := of_look fun _ _ => rfl

instance peekKind : Unswitched Production.peekKind := of_look fun _ _ => rfl

instance isAt (kind : Kind) : Unswitched (Production.isAt kind) := of_look fun _ _ => rfl

instance isAtWord (word : String) : Unswitched (Production.isAtWord word) := of_look fun _ _ => rfl

instance asks (f : Cursor → α) : Unswitched (Production.asks f) := of_look fun _ _ => rfl

instance next : Unswitched Production.next := of_look fun _ _ => rfl

instance advance (n : Nat) : Unswitched (Production.advance n) := of_look fun _ _ => rfl

instance optional (kind : Kind) : Unswitched (Production.optional kind) := of_look fun _ _ => rfl

instance accept (kind : Kind) : Unswitched (Production.accept kind) := of_look fun _ _ => rfl

instance pure (a : α) : Unswitched (Pure.pure a : Production α) := of_look fun _ _ => rfl

instance fail (cause : Cause) (position : Position) :
    Unswitched (Production.fail cause position : Production α) := of_look fun _ _ => rfl

instance failHere (cause : String → Cause) :
    Unswitched (Production.failHere cause : Production α) := of_look fun _ _ => rfl

instance bind {f : α → Production β} [hp : Unswitched p] [hf : ∀ a, Unswitched (f a)] :
    Unswitched (p >>= f) := by
  refine ⟨fun depth c => ?_⟩
  rw [run_bind, run_bind, hp.same depth c]
  cases p ⟨false, depth⟩ c with
  | error e => rfl
  | ok x => exact (hf x.1).same depth x.2

instance map (f : α → β) [hp : Unswitched p] : Unswitched (f <$> p) :=
  bind (f := fun a => Pure.pure (f a))

instance discard [hp : Unswitched p] : Unswitched (Functor.discard p) := map _

instance nested [hp : Unswitched p] : Unswitched (Production.nested p) := by
  refine ⟨fun depth c => ?_⟩
  unfold Production.nested
  simp only
  split
  · rfl
  · exact hp.same (depth + 1) c

instance ite {c : Prop} [Decidable c] [hp : Unswitched p] [hq : Unswitched q] :
    Unswitched (if c then p else q) := by
  split
  · exact hp
  · exact hq

instance loop {step : σ → Production (Turn σ β)} [hstep : ∀ s, Unswitched (step s)] (s : σ) :
    Unswitched (Production.loop step s) := by
  have hrounds : ∀ rounds s, Unswitched (loopFrom step rounds s) := by
    intro rounds
    induction rounds with
    | nil => exact fun s => of_look fun _ _ => rfl
    | cons r rounds ih =>
      intro s
      unfold loopFrom
      refine @bind _ _ _ _ (hstep s) fun t => ?_
      cases t with
      | again s => exact ih s
      | done b => exact pure b
  exact ⟨fun depth c => (hrounds (c.last :: c.ahead) s).same depth c⟩

instance skips (kind : Kind) : Unswitched (Production.skips kind) := by
  unfold Production.skips
  infer_instance

instance semicolon : Unswitched Production.semicolon := by
  unfold Production.semicolon
  infer_instance

instance identifier : Unswitched Production.identifier := by
  unfold Production.identifier
  infer_instance

instance name : Unswitched Production.name := by
  unfold Production.name
  infer_instance

instance word (w : String) : Unswitched (Production.word w) := by
  unfold Production.word
  infer_instance

instance rounds {p : Production Bool} [Unswitched p] : Unswitched (Production.rounds p) := by
  unfold Production.rounds
  infer_instance

instance separated [Unswitched p] : Unswitched (Production.separated p) := by
  unfold Production.separated
  dsimp only
  infer_instance

instance listed (close : Mark) [Unswitched p] : Unswitched (Production.listed close p) := by
  unfold Production.listed
  dsimp only
  infer_instance

end Unswitched

theorem Follows.listed {f : α → β} {item : Production α} {item' : Production β} {close : Mark}
    (h : Follows f item item') : Follows (List.map f) (listed close item) (listed close item') := by
  unfold Production.listed
  refine Follows.bind (f := List.map f) (.loop (h := List.map f) (fun items => ?_) [])
    fun items => .read fun _ => .pure rfl
  refine .read fun closed => .ite (.pure ?_) (h.bind fun a => .read fun comma => ?_)
  · simp [Turn.map]
  · exact .ite (.pure rfl) (.pure (by simp [Turn.map]))

end ScriptFront.Production
