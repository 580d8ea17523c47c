import ScriptFront.Production.Repetition

/-!
# What a production reads

A production that succeeds has read some of the tokens ahead, in order, and leaves the rest. `Reads k p`
says that, and that the production has read `k` of them at least, where `k` may depend on what it answers.
There is one lemma for each way in which productions are put together.

What holds of the parts of a production is a class, here and in the modules about brackets, depth, progress
and the others that go through the grammar, and instance search takes a `do` block apart. It counts the
instance of a premise twice where a variable bound in front of it does not occur in it, so the count doubles
at every statement whose result is not used further down. The modules with the longest blocks therefore
raise `synthInstance.maxSize`; the instances themselves are no larger than the blocks.
-/

namespace ScriptFront

namespace Cursor

/-- Whether a cursor ends with the end of the file. -/
def Closed (c : Cursor) : Prop := c.last.token.kind = .endOfFile

/-- Whether `d` is reached from `c` by reading `n` tokens at least, none of which ends the file. -/
def Reaches (c : Cursor) (n : Nat) (d : Cursor) : Prop :=
  d.last = c.last ∧ ∃ taken, c.ahead = taken ++ d.ahead ∧ n ≤ taken.length ∧
    ∀ s ∈ taken, s.token.kind ≠ .endOfFile

namespace Reaches

variable {c d e : Cursor} {m n : Nat}

theorem refl (c : Cursor) : c.Reaches 0 c :=
  ⟨rfl, [], rfl, Nat.zero_le _, fun _ h => absurd h List.not_mem_nil⟩

theorem trans (h : c.Reaches m d) (h' : d.Reaches n e) : c.Reaches (m + n) e := by
  obtain ⟨hlast, taken, htaken, hm, hopen⟩ := h
  obtain ⟨hlast', taken', htaken', hn, hopen'⟩ := h'
  refine ⟨hlast'.trans hlast, taken ++ taken', ?_, ?_, ?_⟩
  · rw [htaken, htaken', List.append_assoc]
  · rw [List.length_append]
    omega
  · exact List.forall_mem_append.2 ⟨hopen, hopen'⟩

theorem weaken (h : c.Reaches m d) (hn : n ≤ m) : c.Reaches n d := by
  obtain ⟨hlast, taken, htaken, hm, hopen⟩ := h
  exact ⟨hlast, taken, htaken, Nat.le_trans hn hm, hopen⟩

theorem closed (h : c.Reaches n d) (hc : c.Closed) : d.Closed := by
  unfold Closed
  rw [h.1]
  exact hc

theorem remaining_le (h : c.Reaches n d) : d.remaining + n ≤ c.remaining := by
  obtain ⟨-, taken, htaken, hn, -⟩ := h
  unfold remaining
  rw [htaken, List.length_append]
  omega

end Reaches

theorem next_reaches (c : Cursor) : c.Reaches 0 c.next := by
  unfold next
  split
  · exact .refl c
  · next s rest hahead =>
    split
    · exact .refl c
    · next hs => exact ⟨rfl, [s], hahead, Nat.zero_le _, List.forall_mem_singleton.2 hs⟩

/-- A token that is not the end of the file is read. -/
theorem next_reaches_one {c : Cursor} (hc : c.Closed) (h : c.peekKind ≠ .endOfFile) :
    c.Reaches 1 c.next := by
  unfold peekKind peek peekNth at h
  unfold next
  split
  · next hahead =>
    rw [hahead] at h
    exact absurd hc h
  · next s rest hahead =>
    rw [hahead] at h
    have hs : s.token.kind ≠ .endOfFile := h
    rw [if_neg hs]
    exact ⟨rfl, [s], hahead, Nat.le_refl _, List.forall_mem_singleton.2 hs⟩

/-- Behind a token that is read stands the one after it. -/
theorem peekNth_next (c : Cursor) (h : c.peekKind ≠ .endOfFile) (n : Nat) :
    c.next.peekNth n = c.peekNth (n + 1) := by
  unfold peekKind peek peekNth at h
  unfold next peekNth
  cases hahead : c.ahead with
  | nil => simp [hahead]
  | cons s rest =>
    rw [hahead] at h
    have hs : s.token.kind ≠ .endOfFile := h
    simp only
    rw [if_neg hs, List.getElem?_cons_succ]

theorem advance_reaches (c : Cursor) (n : Nat) : c.Reaches 0 (c.advance n) := by
  induction n generalizing c with
  | zero => exact .refl c
  | succ n ih => exact c.next_reaches.trans (ih c.next)

end Cursor

namespace Production

variable {α β σ : Type}

/-- Whether `p` reads `k a` tokens at least when it answers `a`. -/
structure Reads (k : α → Nat) (p : Production α) : Prop where
  reaches : ∀ {ctx : Context} {c : Cursor} {a : α} {d : Cursor}, c.Closed → p ctx c = .ok (a, d) →
    c.Reaches (k a) d

/-- Whether `p` reads what it reads in order, and never goes back. Productions that are put together
from such are found to be such by instance search. -/
class Advances (p : Production α) : Prop where
  reads : Reads (fun _ => 0) p

/-- Whether `p` reads a token at least. -/
class Consumes (p : Production α) : Prop where
  reads : Reads (fun _ => 1) p

/-- A bind that succeeds has succeeded in both halves. -/
theorem bind_ok {p : Production α} {f : α → Production β} {ctx : Context} {c : Cursor}
    {r : β × Cursor} :
    (p >>= f) ctx c = .ok r ↔ ∃ a d, p ctx c = .ok (a, d) ∧ f a ctx d = .ok r := by
  rw [run_bind]
  cases p ctx c with
  | error e => simp
  | ok x => exact ⟨fun h => ⟨x.1, x.2, rfl, h⟩, fun ⟨_, _, hx, h⟩ => by cases hx; exact h⟩

namespace Reads

variable {p : Production α}

theorem weaken {k k' : α → Nat} (hp : Reads k p) (h : ∀ a, k' a ≤ k a) : Reads k' p :=
  ⟨fun hc hok => (hp.reaches hc hok).weaken (h _)⟩

theorem pure {k : α → Nat} {a : α} (h : k a = 0) : Reads k (Pure.pure a) := by
  refine ⟨fun {_ c _ _} _ hok => ?_⟩
  cases hok
  rw [h]
  exact .refl c

theorem bind {n : α → Nat} {k : β → Nat} {f : α → Production β} (hp : Reads n p)
    (hf : ∀ a, Reads (fun b => k b - n a) (f a)) : Reads k (p >>= f) := by
  refine ⟨fun {_ _ b _} hc hok => ?_⟩
  obtain ⟨a, d, hp', hf'⟩ := bind_ok.1 hok
  have hcd := hp.reaches hc hp'
  have hsum : k b ≤ n a + (k b - n a) := by omega
  exact (hcd.trans ((hf a).reaches (hcd.closed hc) hf')).weaken hsum

theorem fail {k : α → Nat} (cause : Cause) (position : Position) :
    Reads k (Production.fail cause position) :=
  ⟨fun _ hok => nomatch hok⟩

theorem failHere {k : α → Nat} (cause : String → Cause) : Reads k (Production.failHere cause) :=
  ⟨fun _ hok => nomatch hok⟩

theorem bind_pure {n : α → Nat} {k : β → Nat} {f : α → β} (hp : Reads n p)
    (h : ∀ a, k (f a) ≤ n a) : Reads k (p >>= fun a => Pure.pure (f a)) := by
  refine ⟨fun hc hok => ?_⟩
  obtain ⟨a, e, hp', hpure⟩ := bind_ok.1 hok
  cases hpure
  exact (hp.reaches hc hp').weaken (h a)

theorem map {n : α → Nat} {k : β → Nat} (f : α → β) (hp : Reads n p) (h : ∀ a, k (f a) ≤ n a) :
    Reads k (f <$> p) :=
  hp.bind_pure h

theorem discard {n : Nat} (hp : Reads (fun _ => n) p) :
    Reads (fun _ => n) (Functor.discard p) :=
  hp.map (fun _ => PUnit.unit) fun _ => Nat.le_refl n

theorem nested {k : α → Nat} (hp : Reads k p) : Reads k (Production.nested p) := by
  refine ⟨fun {ctx c _ _} hc hok => ?_⟩
  unfold Production.nested at hok
  split at hok
  · cases hok
  · exact hp.reaches hc hok

theorem advances {k : α → Nat} (hp : Reads k p) : Advances p := ⟨hp.weaken fun _ => Nat.zero_le _⟩

/-- What is read behind a production that reads enough does not count. -/
theorem bind_left {n : Nat} {f : α → Production β} (hp : Reads (fun _ => n) p)
    [hf : ∀ a, Advances (f a)] : Reads (fun _ => n) (p >>= f) :=
  hp.bind fun a => (hf a).reads.weaken fun _ => by omega

end Reads

/-- What is read before a production that reads enough does not count. -/
theorem Reads.bind_right {p : Production α} [hp : Advances p] {k : β → Nat} {f : α → Production β}
    (hf : ∀ a, Reads k (f a)) : Reads k (p >>= f) :=
  hp.reads.bind fun a => (hf a).weaken fun b => Nat.sub_le (k b) 0

/-! ## Steps -/

namespace Advances

theorem of_look {p : Production α} (h : ∀ ctx c, ∃ a, p ctx c = .ok (a, c)) : Advances p := by
  refine ⟨⟨fun {ctx c _ _} _ hok => ?_⟩⟩
  obtain ⟨b, hb⟩ := h ctx c
  cases hb.symm.trans hok
  exact .refl c

instance peek : Advances Production.peek := of_look fun _ _ => ⟨_, rfl⟩

instance peekNth (n : Nat) : Advances (Production.peekNth n) := of_look fun _ _ => ⟨_, rfl⟩

instance peekKind : Advances Production.peekKind := of_look fun _ _ => ⟨_, rfl⟩

instance isAt (kind : Kind) : Advances (Production.isAt kind) := of_look fun _ _ => ⟨_, rfl⟩

instance isAtWord (word : String) : Advances (Production.isAtWord word) :=
  of_look fun _ _ => ⟨_, rfl⟩

instance asks (f : Cursor → α) : Advances (Production.asks f) := of_look fun _ _ => ⟨_, rfl⟩

instance optimizes : Advances Production.optimizes := of_look fun _ _ => ⟨_, rfl⟩

instance next : Advances Production.next := by
  refine ⟨⟨fun {_ c _ _} _ hok => ?_⟩⟩
  cases hok
  exact c.next_reaches

instance advance (n : Nat) : Advances (Production.advance n) := by
  refine ⟨⟨fun {_ c _ _} _ hok => ?_⟩⟩
  cases hok
  exact c.advance_reaches n

instance optional (kind : Kind) : Advances (Production.optional kind) := by
  refine ⟨⟨fun {_ c _ _} _ hok => ?_⟩⟩
  unfold Production.optional Cursor.optional at hok
  by_cases h : c.isAt kind = true
  · rw [if_pos h] at hok
    cases hok
    exact c.next_reaches
  · rw [if_neg h] at hok
    cases hok
    exact .refl c

instance accept (kind : Kind) : Advances (Production.accept kind) := by
  refine ⟨⟨fun {_ c _ _} _ hok => ?_⟩⟩
  unfold Production.accept Cursor.accept Cursor.optional at hok
  by_cases h : c.isAt kind = true
  · rw [if_pos h] at hok
    cases hok
    exact c.next_reaches
  · rw [if_neg h] at hok
    cases hok

end Advances

/-- A token that a test has let through is read. -/
theorem nextIf_reads {test : Cursor → Bool} {cause : String → Cause}
    (h : ∀ c, test c = true → c.peekKind ≠ .endOfFile) :
    Reads (fun _ => 1) (do if ← asks test then next else failHere cause) := by
  refine ⟨fun {ctx c _ _} hc hok => ?_⟩
  obtain ⟨b, d, hb, hok⟩ := bind_ok.1 hok
  cases hb
  by_cases htest : test c = true
  · rw [if_pos htest] at hok
    cases hok
    exact Cursor.next_reaches_one hc (h c htest)
  · rw [if_neg htest] at hok
    cases hok

namespace Consumes

theorem accept_of_ne {kind : Kind} (hkind : kind ≠ .endOfFile) : Consumes (accept kind) := by
  refine ⟨⟨fun {_ c _ _} hc hok => ?_⟩⟩
  unfold Production.accept Cursor.accept Cursor.optional at hok
  by_cases h : c.isAt kind = true
  · rw [if_pos h] at hok
    cases hok
    refine Cursor.next_reaches_one hc ?_
    rw [show c.peekKind = kind from eq_of_beq h]
    exact hkind
  · rw [if_neg h] at hok
    cases hok

instance mark (m : Mark) : Consumes (accept (.mark m)) := accept_of_ne (by simp)

instance keyword (k : Keyword) : Consumes (accept (.keyword k)) := accept_of_ne (by simp)

instance string : Consumes (accept .string) := accept_of_ne (by simp)

instance identifier : Consumes Production.identifier := by
  refine ⟨nextIf_reads fun c h => ?_⟩
  rw [show c.peekKind = .identifier from eq_of_beq h]
  decide

instance name : Consumes Production.name := by
  refine ⟨@nextIf_reads (fun c => c.peekKind.isName) _ fun c h hkind => ?_⟩
  rw [hkind] at h
  cases h

instance word (w : String) : Consumes (Production.word w) := by
  refine ⟨nextIf_reads fun c h => ?_⟩
  unfold Token.isWord at h
  rw [Bool.and_eq_true] at h
  rw [show c.peekKind = .identifier from eq_of_beq h.1]
  decide

end Consumes

/-! ## Productions put together -/

namespace Advances

variable {p q : Production α}

instance pure (a : α) : Advances (Pure.pure a : Production α) := ⟨.pure rfl⟩

instance fail (cause : Cause) (position : Position) :
    Advances (Production.fail cause position : Production α) := ⟨.fail ..⟩

instance failHere (cause : String → Cause) :
    Advances (Production.failHere cause : Production α) := ⟨.failHere ..⟩

instance bind {f : α → Production β} [hp : Advances p] [hf : ∀ a, Advances (f a)] :
    Advances (p >>= f) :=
  ⟨.bind_right fun a => (hf a).reads⟩

instance map (f : α → β) [hp : Advances p] : Advances (f <$> p) :=
  ⟨hp.reads.map f fun _ => Nat.le_refl _⟩

instance discard [hp : Advances p] : Advances (Functor.discard p) := ⟨hp.reads.discard⟩

instance nested [hp : Advances p] : Advances (Production.nested p) := ⟨hp.reads.nested⟩

instance ite {c : Prop} [Decidable c] [hp : Advances p] [hq : Advances q] :
    Advances (if c then p else q) := by
  split
  · exact hp
  · exact hq

instance skips (kind : Kind) : Advances (Production.skips kind) := by
  unfold Production.skips
  infer_instance

instance semicolon : Advances Production.semicolon := by
  unfold Production.semicolon
  infer_instance

instance (priority := low) of_consumes [hp : Consumes p] : Advances p := hp.reads.advances

end Advances

namespace Consumes

variable {p q : Production α}

instance fail (cause : Cause) (position : Position) :
    Consumes (Production.fail cause position : Production α) := ⟨.fail ..⟩

instance failHere (cause : String → Cause) :
    Consumes (Production.failHere cause : Production α) := ⟨.failHere ..⟩

instance bind_left {f : α → Production β} [hp : Consumes p] [∀ a, Advances (f a)] :
    Consumes (p >>= f) :=
  ⟨hp.reads.bind_left⟩

instance bind_right {f : α → Production β} [Advances p] [hf : ∀ a, Consumes (f a)] :
    Consumes (p >>= f) :=
  ⟨.bind_right fun a => (hf a).reads⟩

instance map (f : α → β) [hp : Consumes p] : Consumes (f <$> p) :=
  ⟨hp.reads.map f fun _ => Nat.le_refl _⟩

instance discard [hp : Consumes p] : Consumes (Functor.discard p) := ⟨hp.reads.discard⟩

instance nested [hp : Consumes p] : Consumes (Production.nested p) := ⟨hp.reads.nested⟩

instance ite {c : Prop} [Decidable c] [hp : Consumes p] [hq : Consumes q] :
    Consumes (if c then p else q) := by
  split
  · exact hp
  · exact hq

end Consumes

/-! ## Repetition -/

/-- What a round is worth: its state or its answer. -/
def turn (φ : σ → Nat) (k : β → Nat) : Turn σ β → Nat
  | .again s => φ s
  | .done b => k b

/-- A repetition reads as much as its answer is worth more than its first state, if every round reads as
much as it gains in worth. -/
theorem loopFrom_reads {φ : σ → Nat} {k : β → Nat} {step : σ → Production (Turn σ β)}
    (hstep : ∀ s, Reads (fun t => turn φ k t - φ s) (step s)) (rounds : List Stop) (s : σ) :
    Reads (fun b => k b - φ s) (loopFrom step rounds s) := by
  induction rounds generalizing s with
  | nil => exact .bind_right fun _ => .fail _ _
  | cons _ rounds ih =>
    have hrest : ∀ t : Turn σ β, Reads (fun b => k b - turn φ k t)
        (match t with
          | .again s => loopFrom step rounds s
          | .done b => Pure.pure b) := by
      rintro (s | b)
      · exact ih s
      · exact .pure (Nat.sub_self _)
    refine (hstep s).bind fun t => (hrest t).weaken fun b => ?_
    omega

theorem loop_reads {φ : σ → Nat} {k : β → Nat} {step : σ → Production (Turn σ β)}
    (hstep : ∀ s, Reads (fun t => turn φ k t - φ s) (step s)) (s : σ) :
    Reads (fun b => k b - φ s) (loop step s) :=
  ⟨fun {_ c _ _} hc hok => (loopFrom_reads hstep (c.last :: c.ahead) s).reaches hc hok⟩

instance Advances.loopFrom {step : σ → Production (Turn σ β)} [hstep : ∀ s, Advances (step s)]
    (rounds : List Stop) (s : σ) : Advances (Production.loopFrom step rounds s) := by
  refine (@loopFrom_reads _ _ (fun _ => 0) (fun _ => 0) _ (fun s => (hstep s).reads.weaken ?_)
    rounds s).advances
  rintro (_ | _) <;> exact Nat.le_refl 0

instance Advances.loop {step : σ → Production (Turn σ β)} [∀ s, Advances (step s)] (s : σ) :
    Advances (Production.loop step s) :=
  ⟨⟨fun {_ c _ _} hc hok => (Advances.loopFrom (c.last :: c.ahead) s).reads.reaches hc hok⟩⟩

/-- A repetition whose first round is sure to read a token reads one. -/
theorem Consumes.loop {step : σ → Production (Turn σ β)} {s : σ} [Consumes (step s)]
    [hstep : ∀ s, Advances (step s)] : Consumes (Production.loop step s) := by
  have hrest : ∀ rounds, ∀ t : Turn σ β, Advances
      (match t with
        | .again s => loopFrom step rounds s
        | .done b => Pure.pure b) := by
    intro rounds
    induction rounds with
    | nil =>
      rintro (s | b)
      · exact .bind
      · exact .pure b
    | cons _ rounds ih =>
      rintro (s | b)
      · exact .bind
      · exact .pure b
  refine ⟨⟨fun {_ c _ _} hc hok => ?_⟩⟩
  have := hrest c.ahead
  exact (@bind_left _ _ (step s) _ _ _).reads.reaches hc hok

section Repetition

variable {p : Production α}

instance Advances.rounds {p : Production Bool} [Advances p] : Advances (Production.rounds p) := by
  unfold Production.rounds
  infer_instance

instance Consumes.rounds {p : Production Bool} [Consumes p] : Consumes (Production.rounds p) :=
  .loop

instance Advances.separated [Advances p] : Advances (Production.separated p) := by
  unfold Production.separated
  infer_instance

instance Consumes.listed (close : Mark) [Advances p] : Consumes (Production.listed close p) := by
  unfold Production.listed
  infer_instance

end Repetition

/-! ## Reading where the file goes on -/

/-- Whether `p` only looks at the tokens ahead. -/
class Looks (p : Production α) : Prop where
  stays : ∀ {ctx : Context} {c : Cursor} {a : α} {d : Cursor}, p ctx c = .ok (a, d) → d = c

/-- Whether `p` reads `k a` tokens at least where there is one to read. -/
structure ReadsInside (k : α → Nat) (p : Production α) : Prop where
  reaches : ∀ {ctx : Context} {c : Cursor} {a : α} {d : Cursor}, c.Closed →
    c.peekKind ≠ .endOfFile → p ctx c = .ok (a, d) → c.Reaches (k a) d

/-- Whether `p` reads a token at least where there is one to read. -/
class ConsumesInside (p : Production α) : Prop where
  reads : ReadsInside (fun _ => 1) p

namespace Looks

instance peekNth (n : Nat) : Looks (Production.peekNth n) := ⟨fun h => by cases h; rfl⟩

instance asks (f : Cursor → α) : Looks (Production.asks f) := ⟨fun h => by cases h; rfl⟩

instance peek : Looks Production.peek := ⟨fun h => by cases h; rfl⟩

instance peekKind : Looks Production.peekKind := ⟨fun h => by cases h; rfl⟩

instance isAt (k : Kind) : Looks (Production.isAt k) := ⟨fun h => by cases h; rfl⟩

instance isAtWord (w : String) : Looks (Production.isAtWord w) := ⟨fun h => by cases h; rfl⟩

instance optimizes : Looks Production.optimizes := ⟨fun h => by cases h; rfl⟩

instance pure (a : α) : Looks (Pure.pure a : Production α) := ⟨fun h => by cases h; rfl⟩

end Looks

theorem Reads.inside {p : Production α} {k : α → Nat} (hp : Reads k p) : ReadsInside k p :=
  ⟨fun hc _ hok => hp.reaches hc hok⟩

theorem ReadsInside.bind {p : Production α} {n : α → Nat} {k : β → Nat} {f : α → Production β}
    (hp : ReadsInside n p) (hf : ∀ a, Reads (fun b => k b - n a) (f a)) :
    ReadsInside k (p >>= f) := by
  refine ⟨fun {_ _ b _} hc hpeek hok => ?_⟩
  obtain ⟨a, d, hp', hf'⟩ := bind_ok.1 hok
  have hcd := hp.reaches hc hpeek hp'
  have hsum : k b ≤ n a + (k b - n a) := by omega
  exact (hcd.trans ((hf a).reaches (hcd.closed hc) hf')).weaken hsum

namespace ConsumesInside

variable {p q : Production α}

instance next : ConsumesInside Production.next := by
  refine ⟨⟨fun {_ c _ _} hc hpeek hok => ?_⟩⟩
  cases hok
  exact c.next_reaches_one hc hpeek

instance advance (n : Nat) : ConsumesInside (Production.advance (n + 1)) := by
  refine ⟨⟨fun {_ c _ _} hc hpeek hok => ?_⟩⟩
  cases hok
  exact (c.next_reaches_one hc hpeek).trans (c.next.advance_reaches n)

instance bind_left {f : α → Production β} [hp : ConsumesInside p] [hf : ∀ a, Advances (f a)] :
    ConsumesInside (p >>= f) :=
  ⟨hp.reads.bind fun a => (hf a).reads.weaken fun _ => Nat.le_refl 0⟩

instance bind_right {f : α → Production β} [hp : Looks p] [hf : ∀ a, ConsumesInside (f a)] :
    ConsumesInside (p >>= f) := by
  refine ⟨⟨fun hc hpeek hok => ?_⟩⟩
  obtain ⟨a, d, hp', hf'⟩ := bind_ok.1 hok
  cases hp.stays hp'
  exact (hf a).reads.reaches hc hpeek hf'

instance discard [ConsumesInside p] : ConsumesInside (Functor.discard p) :=
  bind_left (f := fun _ => Pure.pure ())

instance ite {c : Prop} [Decidable c] [hp : ConsumesInside p] [hq : ConsumesInside q] :
    ConsumesInside (if c then p else q) := by
  split
  · exact hp
  · exact hq

instance (priority := low) of_consumes [hp : Consumes p] : ConsumesInside p := ⟨hp.reads.inside⟩

end ConsumesInside

/-- A case split on the current token reads what its cases read, if it treats the end of the file
apart. -/
theorem Reads.peekThen {k : α → Nat} {f : Token → Production α}
    (hend : ∀ t : Token, t.kind = .endOfFile → Reads k (f t)) (hf : ∀ t, ReadsInside k (f t)) :
    Reads k (peek >>= f) := by
  refine ⟨fun {_ c _ _} hc hok => ?_⟩
  by_cases hpeek : c.peekKind = .endOfFile
  · exact (hend c.peek hpeek).reaches hc hok
  · exact (hf c.peek).reaches hc hpeek hok

theorem Reads.peekKindThen {k : α → Nat} {f : Kind → Production α} (hend : Reads k (f .endOfFile))
    (hf : ∀ kind, ReadsInside k (f kind)) : Reads k (peekKind >>= f) :=
  @Reads.peekThen _ _ (fun t => f t.kind) (fun t ht => by rw [ht]; exact hend) fun t => hf t.kind

theorem Consumes.peekKindThen {f : Kind → Production α} (hend : Consumes (f .endOfFile))
    (hf : ∀ kind, ConsumesInside (f kind)) : Consumes (peekKind >>= f) :=
  ⟨.peekKindThen hend.reads fun kind => (hf kind).reads⟩

end Production

end ScriptFront
