import ScriptFront.Proofs.Cursor.Kept
import ScriptFront.Proofs.Production.FilesRead

/-!
# Steady productions

A production is `Steady` over a grammar if it is put together in the ways in which productions are, goes
back to the grammar only when a token has been read, and repeats only what reads a token in every round
that goes on. Steady productions never go back (`Steady.advances`) and never stall (`Steady.ends`). Those
that the grammar is made of are found to be steady by instance search.
-/

namespace ScriptFront

/-- Whether the cause is the one that no input leads to. -/
@[reducible] def Cause.isStall : Cause → Bool
  | .stalled => true
  | _ => false

namespace Production

variable {α β σ : Type}

/-- Where there is a token, what reads one reads enough if no more is asked for. -/
theorem ConsumesInside.inside {p : Production α} [hp : ConsumesInside p] {k : α → Nat}
    (h : ∀ a, k a ≤ 1) : ReadsInside k p :=
  ⟨fun hc hpeek hok => (hp.reads.reaches hc hpeek hok).weaken (h _)⟩

/-! ## Rounds that read -/

/-- Whether `p` reads a token at least when it answers true. -/
class Pays (p : Production Bool) : Prop where
  reads : Reads Bool.toNat p

/-- Whether a round of a repetition reads a token at least unless it is the last one. -/
class Spends (p : Production (Turn σ β)) : Prop where
  reads : Reads (turn (fun _ => 1) fun _ => 0) p

namespace Pays

variable {p q : Production Bool}

instance (priority := low) of_consumes [hp : Consumes p] : Pays p := ⟨hp.reads.weaken Bool.toNat_le⟩

instance no : Pays (Pure.pure false) := ⟨.pure rfl⟩

instance bind {p : Production α} {f : α → Production Bool} [Advances p] [hf : ∀ a, Pays (f a)] :
    Pays (p >>= f) :=
  ⟨.bind_right fun a => (hf a).reads⟩

instance ite {c : Prop} [Decidable c] [hp : Pays p] [hq : Pays q] : Pays (if c then p else q) := by
  split
  · exact hp
  · exact hq

/-- What goes on behind a question that only a token answers with yes. -/
theorem asksIf {f : Cursor → Bool} (h : ∀ c, f c = true → c.peekKind ≠ .endOfFile)
    [hp : ConsumesInside p] [hq : Pays q] :
    Pays (Production.asks f >>= fun b => if b = true then p else q) := by
  refine ⟨⟨fun {ctx c b _} hc hok => ?_⟩⟩
  rw [run_asks_bind] at hok
  cases hf : f c with
  | true =>
    rw [hf, if_pos rfl] at hok
    exact (hp.reads.reaches hc (h c hf) hok).weaken (Bool.toNat_le b)
  | false =>
    rw [hf, if_neg Bool.false_ne_true] at hok
    exact hq.reads.reaches hc hok

theorem skips {k : Kind} (hk : k ≠ .endOfFile) : Pays (Production.skips k) := by
  refine ⟨⟨fun {ctx c b _} hc hok => ?_⟩⟩
  cases h : c.isAt k with
  | true =>
    rw [run_skips_of_isAt ctx h] at hok
    cases hok
    exact Cursor.next_reaches_one hc (by rw [show c.peekKind = k from eq_of_beq h]; exact hk)
  | false =>
    rw [run_skips_of_not ctx h] at hok
    cases hok
    exact .refl c

instance skips_mark (m : Mark) : Pays (Production.skips (.mark m)) := skips (by simp)

instance skips_keyword (k : Keyword) : Pays (Production.skips (.keyword k)) := skips (by simp)

end Pays

namespace Spends

variable {p q : Production (Turn σ β)}

theorem turn_le (t : Turn σ β) : turn (fun _ => 1) (fun _ => 0) t ≤ 1 := by
  cases t with
  | again s => exact Nat.le_refl 1
  | done b => exact Nat.zero_le 1

instance (priority := low) of_consumes [hp : Consumes p] : Spends p := ⟨hp.reads.weaken turn_le⟩

instance done (b : β) : Spends (Pure.pure (.done b) : Production (Turn σ β)) := ⟨.pure rfl⟩

instance bind {p : Production α} {f : α → Production (Turn σ β)} [Advances p]
    [hf : ∀ a, Spends (f a)] : Spends (p >>= f) :=
  ⟨.bind_right fun a => (hf a).reads⟩

instance ite {c : Prop} [Decidable c] [hp : Spends p] [hq : Spends q] :
    Spends (if c then p else q) := by
  split
  · exact hp
  · exact hq

/-- What goes on when a token has been read, and ends otherwise. -/
instance (priority := high) of_pays {p : Production Bool} {q r : Production (Turn σ β)} [hp : Pays p]
    [hq : Advances q] [hr : Spends r] : Spends (p >>= fun b => if b = true then q else r) := by
  refine ⟨hp.reads.bind fun b => ?_⟩
  cases b with
  | true =>
    refine hq.reads.weaken fun t => ?_
    cases t <;> exact Nat.le_refl 0
  | false => exact hr.reads.weaken fun t => Nat.sub_le _ _

end Spends

/-! ## Stages -/

/-- What is known where a production is run. -/
inductive Stage where
  | start
  /-- It is not the end of the file. -/
  | inside
  /-- A token has been read. -/
  | read
deriving DecidableEq

/-- Whether a cursor is at the stage if there were `n` tokens at first. -/
def Stage.Holds (n : Nat) (c : Cursor) : Stage → Prop
  | start => c.remaining ≤ n
  | inside => c.remaining ≤ n ∧ c.peekKind ≠ .endOfFile
  | read => c.remaining < n

theorem Stage.Holds.remaining_le {n : Nat} {c : Cursor} {s : Stage} (h : s.Holds n c) :
    c.remaining ≤ n := by
  cases s with
  | start => exact h
  | inside => exact h.1
  | read => exact Nat.le_of_lt h

/-- Whether `p`, run at stage `s`, leads to stage `after a` when it answers `a`. -/
structure Leads (s : Stage) (p : Production α) (after : α → Stage) : Prop where
  holds : ∀ {n : Nat} {ctx : Context} {c : Cursor} {a : α} {d : Cursor}, c.Closed → s.Holds n c →
    p ctx c = .ok (a, d) → (after a).Holds n d

/-- Whether `p` is put together from what reads tokens in order and asks only about tokens and about those
comments and attributes that are kept. It goes back to the grammar only at a stage where a token has been
read, and every round of a repetition reads a token, is the last one, or fails. -/
class inductive Steady (g : Grammar) (keep : Token → Bool) :
    {α : Type} → Stage → Production α → Prop
  | value : Steady g keep .read g.value
  | expression : Steady g keep .read g.expression
  | binary (least : Level) : Steady g keep .read (g.binary least)
  | unary : Steady g keep .read g.unary
  | block : Steady g keep .read g.block
  | item : Steady g keep .read g.item
  | type : Steady g keep .read g.type
  | ascription : Steady g keep .read g.ascription
  | casts : Steady g keep .read g.casts
  | pure {α : Type} (s : Stage) (a : α) : Steady g keep s (Pure.pure a)
  | fail {α : Type} (s : Stage) (cause : Cause) (position : Position) (h : cause.isStall = false) :
      Steady g keep s (Production.fail cause position : Production α)
  | failHere {α : Type} (s : Stage) (cause : String → Cause) (h : ∀ found, (cause found).isStall = false) :
      Steady g keep s (Production.failHere cause : Production α)
  | asks {α : Type} (s : Stage) (f : Cursor → α) (h : Cursor.Sees keep f) :
      Steady g keep s (Production.asks f)
  | optimizes (s : Stage) : Steady g keep s Production.optimizes
  | next (s : Stage) : Steady g keep s Production.next
  | advance (s : Stage) (n : Nat) : Steady g keep s (Production.advance n)
  | accept (s : Stage) (k : Kind) : Steady g keep s (Production.accept k)
  | optional (s : Stage) (k : Kind) : Steady g keep s (Production.optional k)
  | genericArguments (s : Stage) : Steady g keep s Production.genericArguments
  | settled (s : Stage) (d : Draft) (p : Position) : Steady g keep s (Grammar.settled d p)
  | nested {α : Type} {s : Stage} {p : Production α} (h : Steady g keep s p) :
      Steady g keep s (Production.nested p)
  | bind {α β : Type} {s : Stage} {p : Production α} {f : α → Production β} (after : α → Stage)
      (h : Steady g keep s p) (hafter : Leads s p after) (hf : ∀ a, Steady g keep (after a) (f a)) :
      Steady g keep s (p >>= f)
  | loop {σ β : Type} {s : Stage} {step : σ → Production (Turn σ β)} (hs : s ≠ .inside)
      (h : ∀ x, Steady g keep s (step x)) (hstep : ∀ x, Spends (step x)) (x : σ) :
      Steady g keep s (Production.loop step x)
  | anywhere {α : Type} {s : Stage} {p : Production α} (h : Steady g keep .start p) : Steady g keep s p

/-! ## Steps -/

namespace Steady

attribute [instance] value expression binary unary block item type ascription casts pure optimizes next
  advance accept optional genericArguments settled

variable {g : Grammar} {keep : Token → Bool} {s : Stage}

/-- What is sure to be no stall is found to be none by evaluating it. -/
class Genuine (stalls : Bool) : Prop where
  eq : stalls = false

instance : Genuine false := ⟨rfl⟩

instance fail_instance (cause : Cause) (position : Position) [h : Genuine cause.isStall] :
    Steady g keep s (Production.fail cause position : Production α) := .fail s cause position h.eq

instance failHere_instance (cause : String → Cause) [h : ∀ found, Genuine (cause found).isStall] :
    Steady g keep s (Production.failHere cause : Production α) :=
  .failHere s cause fun found => (h found).eq

instance asks_instance (f : Cursor → α) [h : Cursor.Sees keep f] :
    Steady g keep s (Production.asks f) := .asks s f h

instance peek : Steady g keep s Production.peek :=
  .asks s Cursor.peek ⟨Cursor.peek_keeping keep⟩

instance peekNth (n : Nat) : Steady g keep s (Production.peekNth n) :=
  .asks s (·.peekNth n) ⟨fun c => Cursor.peekNth_keeping keep c n⟩

instance peekKind : Steady g keep s Production.peekKind :=
  .asks s Cursor.peekKind ⟨Cursor.peekKind_keeping keep⟩

instance isAt (k : Kind) : Steady g keep s (Production.isAt k) :=
  .asks s (·.isAt k) ⟨fun c => Cursor.isAt_keeping keep c k⟩

instance isAtWord (w : String) : Steady g keep s (Production.isAtWord w) :=
  .asks s (·.peek.isWord w) ⟨fun c => congrArg (Token.isWord · w) (Cursor.peek_keeping keep c)⟩

end Steady

/-! ## Stages one after the other -/

namespace Leads

variable {p : Production α} {s : Stage}

theorem start (hp : Advances p) : Leads s p fun _ => .start := by
  refine ⟨fun {n _ _ a d} hc hs hok => ?_⟩
  have := (hp.reads.reaches hc hok).remaining_le
  exact Nat.le_trans (by omega) hs.remaining_le

theorem read (hp : Advances p) : Leads .read p fun _ => .read := by
  refine ⟨fun {n _ _ a d} hc hs hok => ?_⟩
  have := (hp.reads.reaches hc hok).remaining_le
  exact Nat.lt_of_le_of_lt (by omega) hs

theorem of_consumes [hp : Consumes p] : Leads s p fun _ => .read := by
  refine ⟨fun {n _ _ a d} hc hs hok => ?_⟩
  have := (hp.reads.reaches hc hok).remaining_le
  exact Nat.lt_of_lt_of_le (by omega) hs.remaining_le

theorem of_consumesInside [hp : ConsumesInside p] : Leads .inside p fun _ => .read := by
  refine ⟨fun {n _ _ a d} hc hs hok => ?_⟩
  have := (hp.reads.reaches hc hs.2 hok).remaining_le
  exact Nat.lt_of_lt_of_le (by omega) hs.1

theorem of_looks [hp : Looks p] : Leads s p fun _ => s := by
  refine ⟨fun {n _ _ a d} hc hs hok => ?_⟩
  rw [hp.stays hok]
  exact hs

/-- The stage behind a production that pays for an answer. -/
theorem of_pays {p : Production Bool} [hp : Pays p] :
    Leads s p fun b => if b = true then .read else .start := by
  refine ⟨fun {n _ _ b d} hc hs hok => ?_⟩
  have hle := (hp.reads.reaches hc hok).remaining_le
  have := hs.remaining_le
  cases b with
  | true => exact Nat.lt_of_lt_of_le hle this
  | false => exact Nat.le_trans (by omega) this

/-- The stage behind a question that tells whether there is a token. -/
theorem of_asks {f : Cursor → α} {after : α → Stage}
    (h : ∀ c, after (f c) = .start ∨ after (f c) = .inside ∧ c.peekKind ≠ .endOfFile) :
    Leads .start (Production.asks f) after := by
  refine ⟨fun {_ _ c _ _} hc hs hok => ?_⟩
  cases hok
  obtain hstart | ⟨hinside, hpeek⟩ := h c
  · rw [hstart]
    exact hs
  · rw [hinside]
    exact ⟨hs, hpeek⟩

end Leads

namespace Steady

variable {g : Grammar} [hg : g.Progress] {keep : Token → Bool} {s : Stage} {p q : Production α}
  {f : α → Production β}

/-- A steady production reads what it reads in order, and never goes back. -/
theorem advances (h : Steady g keep s p) : Advances p := by
  induction h with
  | nested h ih => infer_instance
  | bind after h hafter hf ih ihf => infer_instance
  | loop hs h hstep x ih => infer_instance
  | anywhere h ih => exact ih
  | _ => infer_instance

instance (priority := low) inside_of_start [h : Steady g keep .start p] : Steady g keep .inside p :=
  .anywhere h

instance (priority := low) read_of_start [h : Steady g keep .start p] : Steady g keep .read p :=
  .anywhere h

instance bind_start [hp : Steady g keep .start p] [hf : ∀ a, Steady g keep .start (f a)] :
    Steady g keep .start (p >>= f) := .bind _ hp (.start hp.advances) hf

instance bind_read [hp : Steady g keep .read p] [hf : ∀ a, Steady g keep .read (f a)] :
    Steady g keep .read (p >>= f) := .bind _ hp (.read hp.advances) hf

instance (priority := high) bind_consumes [Consumes p] [hp : Steady g keep .start p]
    [hf : ∀ a, Steady g keep .read (f a)] : Steady g keep .start (p >>= f) := .bind _ hp .of_consumes hf

instance (priority := high) bind_consumesInside [ConsumesInside p] [hp : Steady g keep .inside p]
    [hf : ∀ a, Steady g keep .read (f a)] : Steady g keep .inside (p >>= f) :=
  .bind _ hp .of_consumesInside hf

instance bind_looks [Looks p] [hp : Steady g keep .inside p] [hf : ∀ a, Steady g keep .inside (f a)] :
    Steady g keep .inside (p >>= f) := .bind _ hp .of_looks hf

instance (priority := high) bind_pays {p : Production Bool} {q r : Production α} [Pays p]
    [hp : Steady g keep .start p] [hq : Steady g keep .read q] [hr : Steady g keep .start r] :
    Steady g keep .start (p >>= fun b => if b = true then q else r) := by
  refine .bind _ hp .of_pays fun b => ?_
  cases b with
  | true => exact hq
  | false => exact hr

instance (priority := high) bind_isAtWord {w : String} {q r : Production α}
    [hq : Steady g keep .inside q] [hr : Steady g keep .start r] :
    Steady g keep .start (Production.isAtWord w >>= fun b => if b = true then q else r) := by
  refine .bind (fun b => if b = true then .inside else .start) (isAtWord w) (.of_asks fun c => ?_) fun b => ?_
  · cases hword : c.peek.isWord w with
    | false => exact .inl rfl
    | true =>
      refine .inr ⟨rfl, ?_⟩
      unfold Token.isWord at hword
      rw [Bool.and_eq_true] at hword
      rw [show c.peekKind = .identifier from eq_of_beq hword.1]
      decide
  · cases b with
    | true => exact hq
    | false => exact hr

omit hg in
/-- A case split on the current token that treats the end of the file apart. -/
theorem peekThen {f : Token → Production α} (hend : ∀ t : Token, t.kind = .endOfFile →
      Steady g keep .start (f t)) (hf : ∀ t, Steady g keep .inside (f t)) :
    Steady g keep .start (Production.peek >>= f) := by
  refine .bind (fun t => if t.kind = .endOfFile then .start else .inside) peek
    (.of_asks fun c => ?_) fun t => ?_
  · by_cases hc : c.peek.kind = .endOfFile
    · exact .inl (if_pos hc)
    · exact .inr ⟨if_neg hc, hc⟩
  · by_cases ht : t.kind = .endOfFile
    · rw [if_pos ht]
      exact hend t ht
    · rw [if_neg ht]
      exact hf t

omit hg in
theorem peekKindThen {f : Kind → Production α} (hend : Steady g keep .start (f .endOfFile))
    (hf : ∀ k, Steady g keep .inside (f k)) : Steady g keep .start (Production.peekKind >>= f) :=
  @peekThen _ g keep (fun t => f t.kind) (fun t ht => by rw [ht]; exact hend) fun t => hf t.kind

/-! For what instance search does not see through, the parts are given by hand. -/

theorem startThen (hp : Steady g keep .start p) (hf : ∀ a, Steady g keep .start (f a)) :
    Steady g keep .start (p >>= f) := bind_start

theorem readThen (hp : Steady g keep .read p) (hf : ∀ a, Steady g keep .read (f a)) :
    Steady g keep .read (p >>= f) := bind_read

omit hg in
theorem consumesThen [Consumes p] (hp : Steady g keep .start p) (hf : ∀ a, Steady g keep .read (f a)) :
    Steady g keep .start (p >>= f) := bind_consumes

omit hg in
theorem insideThen [Looks p] (hp : Steady g keep .inside p)
    (hf : ∀ a, Steady g keep .inside (f a)) : Steady g keep .inside (p >>= f) := bind_looks

/-! ## Productions put together -/

instance map (f : α → β) [hp : Steady g keep s p] : Steady g keep s (f <$> p) :=
  .bind (fun _ => .start) hp (.start hp.advances) fun a => .pure _ (f a)

instance discard [hp : Steady g keep s p] : Steady g keep s (Functor.discard p) :=
  map _

instance nested_instance [hp : Steady g keep s p] : Steady g keep s (Production.nested p) := .nested hp

instance ite {c : Prop} [Decidable c] [hp : Steady g keep s p] [hq : Steady g keep s q] :
    Steady g keep s (if c then p else q) := by
  split
  · exact hp
  · exact hq

instance skips (k : Kind) : Steady g keep s (Production.skips k) := map Option.isSome

instance semicolon : Steady g keep s Production.semicolon := by
  unfold Production.semicolon
  infer_instance

instance identifier : Steady g keep .start Production.identifier := by
  unfold Production.identifier
  infer_instance

instance name : Steady g keep .start Production.name := by
  unfold Production.name
  infer_instance

instance word (w : String) : Steady g keep .start (Production.word w) := by
  unfold Production.word
  infer_instance

section Repetition

instance loop_start {step : σ → Production (Turn σ β)} [h : ∀ x, Steady g keep .start (step x)]
    [hstep : ∀ x, Spends (step x)] (x : σ) : Steady g keep .start (Production.loop step x) :=
  .loop (by decide) h hstep x

instance loop_read {step : σ → Production (Turn σ β)} [h : ∀ x, Steady g keep .read (step x)]
    [hstep : ∀ x, Spends (step x)] (x : σ) : Steady g keep .read (Production.loop step x) :=
  .loop (by decide) h hstep x

variable {p : Production α}

instance rounds_start {p : Production Bool} [Steady g keep .start p] [Pays p] :
    Steady g keep .start (Production.rounds p) := by
  unfold Production.rounds
  infer_instance

instance rounds_read {p : Production Bool} [Steady g keep .read p] [Pays p] :
    Steady g keep .read (Production.rounds p) := by
  unfold Production.rounds
  infer_instance

instance separated_read [Steady g keep .read p] [Consumes p] :
    Steady g keep .read (Production.separated p) := by
  unfold Production.separated
  infer_instance

instance listed [Steady g keep .read p] [Consumes p] (close : Mark) :
    Steady g keep .read (Production.listed close p) := by
  unfold Production.listed
  dsimp only
  infer_instance

end Repetition

end Steady

/-! ## Productions that end -/

/-- Whether `p`, run at stage `s` with at most `n` tokens at first, does not stall. -/
structure Ends (n : Nat) (s : Stage) (p : Production α) : Prop where
  cause : ∀ {ctx : Context} {c : Cursor} {e : Error}, c.Closed → s.Holds n c →
    p ctx c = .error e → e.cause.isStall = false

namespace Ends

variable {n : Nat} {s : Stage} {p : Production α}

theorem of_ok (h : ∀ ctx c, ∃ r, p ctx c = .ok r) : Ends n s p := by
  refine ⟨fun {ctx c _} _ _ herror => ?_⟩
  obtain ⟨r, hr⟩ := h ctx c
  cases hr.symm.trans herror

theorem fail {cause : Cause} (h : cause.isStall = false) (position : Position) :
    Ends n s (Production.fail cause position : Production α) := by
  refine ⟨fun {_ _ _} _ _ herror => ?_⟩
  cases herror
  exact h

theorem failHere {cause : String → Cause} (h : ∀ found, (cause found).isStall = false) :
    Ends n s (Production.failHere cause : Production α) := by
  refine ⟨fun {_ _ _} _ _ herror => ?_⟩
  cases herror
  exact h _

theorem accept (k : Kind) : Ends n s (Production.accept k) := by
  refine ⟨fun {_ _ _} _ _ herror => ?_⟩
  unfold Production.accept Cursor.accept at herror
  split at herror
  · cases herror
  · cases herror
    rfl

theorem optional (k : Kind) : Ends n s (Production.optional k) := by
  refine .of_ok fun ctx c => ?_
  unfold Production.optional
  split <;> exact ⟨_, rfl⟩

theorem genericArguments : Ends n s Production.genericArguments := by
  refine .of_ok fun ctx c => ?_
  unfold Production.genericArguments
  rw [run_asks_bind]
  cases (Lookahead.ofCursor c).typeArguments Lookahead.typeArgumentDepth <;> exact ⟨_, rfl⟩

theorem settled (d : Draft) (position : Position) : Ends n s (Grammar.settled d position) := by
  refine ⟨fun {_ _ _} _ _ herror => ?_⟩
  unfold Grammar.settled at herror
  split at herror
  · cases herror
  · next hsettle =>
    cases herror
    unfold AttributeRun.settle at hsettle
    split at hsettle
    · split at hsettle
      · cases hsettle
        rfl
      · cases hsettle
    · cases hsettle

theorem nested (hp : Ends n s p) : Ends n s (Production.nested p) := by
  refine ⟨fun {_ _ _} hc hs herror => ?_⟩
  unfold Production.nested at herror
  split at herror
  · cases herror
    rfl
  · exact hp.cause hc hs herror

/-- What ends wherever it starts does so at every stage. -/
theorem anywhere (hp : Ends n .start p) : Ends n s p :=
  ⟨fun hc hs herror => hp.cause hc hs.remaining_le herror⟩

theorem bind {after : α → Stage} {f : α → Production β} (hp : Ends n s p) (h : Leads s p after)
    (hf : ∀ a, Ends n (after a) (f a)) [hadvance : Advances p] : Ends n s (p >>= f) := by
  refine ⟨fun {ctx c _} hc hs herror => ?_⟩
  rw [run_bind] at herror
  cases hrun : p ctx c with
  | error e' =>
    rw [hrun] at herror
    cases herror
    exact hp.cause hc hs hrun
  | ok r =>
    obtain ⟨a, d⟩ := r
    rw [hrun] at herror
    exact (hf a).cause ((hadvance.reads.reaches hc hrun).closed hc) (h.holds hc hs hrun) herror

/-- There are as many rounds as tokens and one more, and every round but the last reads a token. -/
theorem loopFrom {step : σ → Production (Turn σ β)} (hs : s ≠ .inside) (h : ∀ x, Ends n s (step x))
    (hstep : ∀ x, Spends (step x)) (rounds : List Stop) (x : σ) {ctx : Context} {c : Cursor} {e : Error}
    (hc : c.Closed) (hholds : s.Holds n c) (hrounds : c.remaining < rounds.length)
    (herror : Production.loopFrom step rounds x ctx c = .error e) : e.cause.isStall = false := by
  induction rounds generalizing x c with
  | nil => exact absurd hrounds (Nat.not_lt_zero _)
  | cons _ rounds ih =>
    unfold Production.loopFrom at herror
    rw [run_bind] at herror
    cases hrun : step x ctx c with
    | error e' =>
      rw [hrun] at herror
      cases herror
      exact (h x).cause hc hholds hrun
    | ok r =>
      obtain ⟨t, d⟩ := r
      rw [hrun] at herror
      cases t with
      | done b => cases herror
      | again x' =>
        have hreaches : c.Reaches 1 d := (hstep x).reads.reaches hc hrun
        have hle := hreaches.remaining_le
        have hholds' : s.Holds n d := by
          cases s with
          | start => exact Nat.le_trans (by omega) hholds
          | inside => exact absurd rfl hs
          | read => exact Nat.lt_of_le_of_lt (by omega) hholds
        refine ih x' (hreaches.closed hc) hholds' ?_ herror
        rw [List.length_cons] at hrounds
        omega

theorem loop {step : σ → Production (Turn σ β)} (hs : s ≠ .inside) (h : ∀ x, Ends n s (step x))
    (hstep : ∀ x, Spends (step x)) (x : σ) : Ends n s (Production.loop step x) :=
  ⟨fun {_ c _} hc hholds => loopFrom hs h hstep (c.last :: c.ahead) x hc hholds (Nat.lt_succ_self _)⟩

end Ends

/-- Whether every construct of the grammar ends where fewer than `n` tokens are left. -/
structure EndsWithin (g : Grammar) (n : Nat) : Prop where
  value : Ends n .read g.value
  expression : Ends n .read g.expression
  binary : ∀ least, Ends n .read (g.binary least)
  unary : Ends n .read g.unary
  block : Ends n .read g.block
  item : Ends n .read g.item
  type : Ends n .read g.type
  ascription : Ends n .read g.ascription
  casts : Ends n .read g.casts

/-- A steady production ends, if the constructs of the grammar do when they have fewer tokens. -/
theorem Steady.ends {g : Grammar} [g.Progress] {keep : Token → Bool} {s : Stage} {p : Production α}
    {n : Nat} (hg : EndsWithin g n) (h : Steady g keep s p) : Ends n s p := by
  induction h with
  | value => exact hg.value
  | expression => exact hg.expression
  | binary least => exact hg.binary least
  | unary => exact hg.unary
  | block => exact hg.block
  | item => exact hg.item
  | type => exact hg.type
  | ascription => exact hg.ascription
  | casts => exact hg.casts
  | fail s cause position hcause => exact .fail hcause position
  | failHere s cause hcause => exact .failHere hcause
  | accept s k => exact .accept k
  | optional s k => exact .optional k
  | genericArguments s => exact .genericArguments
  | settled s d p => exact .settled d p
  | nested _ ih => exact ih.nested
  | bind after h hafter hf ih ihf =>
    have := h.advances
    exact ih.bind hafter ihf
  | loop hs h hstep x ih => exact .loop hs ih hstep x
  | anywhere _ ih => exact ih.anywhere
  | _ => exact .of_ok fun ctx c => ⟨_, rfl⟩

end Production

end ScriptFront
