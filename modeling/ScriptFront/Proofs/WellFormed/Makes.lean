import ScriptFront.Proofs.Parsed.Answers
import ScriptFront.Proofs.WellFormed.Nodes

/-!
# What productions make

`Makes r Q p` says that whatever `p` answers is as `Q` says, wherever in the file of `r` it starts and with
tail calls marked as `r` has it. It is `Answers` of the production with that setting fixed, so there is a
lemma for each way in which productions are put together.
-/

namespace ScriptFront.Production

variable {α β σ : Type} {p : Production α}

/-- The production with tail calls marked or not, whatever the context says. -/
def marking (optimize : Bool) (p : Production α) : Production α := fun ctx c =>
  p { ctx with optimize := optimize } c

theorem marking_loopFrom (optimize : Bool) (step : σ → Production (Turn σ β)) (rounds : List Stop) (s : σ) :
    marking optimize (loopFrom step rounds s) =
      loopFrom (fun s => marking optimize (step s)) rounds s := by
  induction rounds generalizing s with
  | nil => rfl
  | cons stop rounds ih =>
    funext ctx c
    unfold loopFrom
    show (step s >>= _) _ c = _
    rw [run_bind, run_bind]
    unfold marking
    cases hstep : step s { ctx with optimize := optimize } c with
    | error e => rfl
    | ok t =>
      obtain ⟨t, d⟩ := t
      cases t with
      | again s => exact congrFun (congrFun (ih s) ctx) d
      | done b => rfl

theorem marking_loop (optimize : Bool) (step : σ → Production (Turn σ β)) (s : σ) :
    marking optimize (loop step s) = loop (fun s => marking optimize (step s)) s := by
  funext ctx c
  exact congrFun (congrFun (marking_loopFrom optimize step (c.last :: c.ahead) s) ctx) c

theorem marking_nested (optimize : Bool) (p : Production α) :
    marking optimize (nested p) = nested (marking optimize p) := rfl

/-- Whether what `p` answers is as `Q` says, in a file and with tail calls marked as `r` has it. -/
def Makes (r : Reading) (Q : α → Prop) (p : Production α) : Prop :=
  Answers r.file Q (marking r.optimize p)

namespace Makes

variable {r : Reading} {Q : α → Prop} {R : β → Prop}

theorem intro (h : ∀ {ctx : Context} {c : Cursor} {a : α} {d : Cursor}, r.file.Closed →
    ctx.optimize = r.optimize → r.file.Reaches 0 c → p ctx c = .ok (a, d) → Q a ∧ r.file.Reaches 0 d) :
    Makes r Q p :=
  ⟨fun hfile _ _ _ _ hc hok => h hfile rfl hc hok⟩

theorem holds (hp : Makes r Q p) (hfile : r.file.Closed) {ctx : Context} {c : Cursor} {a : α}
    {d : Cursor} (hctx : ctx.optimize = r.optimize) (hc : r.file.Reaches 0 c)
    (hok : p ctx c = .ok (a, d)) : Q a ∧ r.file.Reaches 0 d := by
  have hmarked : marking r.optimize p ctx c = .ok (a, d) := by
    unfold marking
    rw [← hctx]
    exact hok
  exact Answers.holds hp hfile hc hmarked

theorem weaken {Q' : α → Prop} (hp : Makes r Q p) (h : ∀ a, Q a → Q' a) : Makes r Q' p :=
  Answers.weaken hp h

theorem of_advances [hp : Advances p] : Makes r (fun _ => True) p :=
  .intro fun hfile _ hc hok => ⟨trivial, hc.trans (hp.reads.reaches (hc.closed hfile) hok)⟩

theorem pure {a : α} (h : Q a) : Makes r Q (Pure.pure a) := Answers.pure h

theorem fail (cause : Cause) (position : Position) : Makes r Q (Production.fail cause position) :=
  Answers.fail cause position

theorem failHere (cause : String → Cause) : Makes r Q (Production.failHere cause) :=
  ⟨fun _ _ _ _ _ _ hok => nomatch hok⟩

theorem bind {f : α → Production β} (hp : Makes r Q p) (hf : ∀ a, Q a → Makes r R (f a)) :
    Makes r R (p >>= f) :=
  Answers.bind hp hf

/-- What is read first takes no part in the answer. -/
theorem read {f : α → Production β} [Advances p] (hf : ∀ a, Makes r R (f a)) : Makes r R (p >>= f) :=
  of_advances.bind fun a _ => hf a

theorem optimizes {f : Bool → Production β} (hf : Makes r R (f r.optimize)) :
    Makes r R (Production.optimizes >>= f) :=
  bind (Q := (· = r.optimize)) (.intro fun _ hctx hc hok => by cases hok; exact ⟨hctx, hc⟩)
    fun _ h => h ▸ hf

/-- What a choice makes, where the first half relies on what has been seen. -/
theorem asked {f : Cursor → Bool} {q : Production α}
    (hp : ∀ {ctx : Context} {c : Cursor} {a : α} {d : Cursor}, r.file.Closed →
      ctx.optimize = r.optimize → r.file.Reaches 0 c → f c = true → p ctx c = .ok (a, d) →
      Q a ∧ r.file.Reaches 0 d)
    (hq : Makes r Q q) : Makes r Q (do if ← asks f then p else q) := by
  refine .intro fun {ctx c a d} hfile hctx hc hok => ?_
  rw [run_asks_bind] at hok
  cases hf : f c with
  | true =>
    rw [hf] at hok
    exact hp hfile hctx hc hf hok
  | false =>
    rw [hf] at hok
    exact hq.holds hfile hctx hc hok

theorem map {f : α → β} (hp : Makes r Q p) (h : ∀ a, Q a → R (f a)) : Makes r R (f <$> p) :=
  hp.bind fun a ha => .pure (h a ha)

theorem some (hp : Makes r Q p) : Makes r (fun a => ∀ x ∈ a, Q x) (Option.some <$> p) :=
  Answers.some hp

theorem ite {b : Prop} [Decidable b] {q : Production α} (hp : Makes r Q p) (hq : Makes r Q q) :
    Makes r Q (if b then p else q) := by
  split
  · exact hp
  · exact hq

theorem nested (hp : Makes r Q p) : Makes r Q (Production.nested p) := by
  unfold Makes
  rw [marking_nested]
  exact Answers.nested hp

/-- A repetition keeps what each of its rounds keeps. -/
theorem loop {I : σ → Prop} {Q : β → Prop} {step : σ → Production (Turn σ β)}
    (hstep : ∀ s, I s → Makes r (Turn.Is I Q) (step s)) {s : σ} (hs : I s) :
    Makes r Q (Production.loop step s) := by
  unfold Makes
  rw [marking_loop]
  exact Answers.loop hstep hs

theorem forall_mem_reverse_cons {P : α → Prop} {a : α} {items : List α} (ha : P a)
    (h : ∀ b ∈ items, P b) : ∀ b ∈ (a :: items).reverse, P b := fun b hb =>
  List.forall_mem_cons.2 ⟨ha, h⟩ b (List.mem_reverse.1 hb)

theorem listed {close : Mark} (hp : Makes r Q p) :
    Makes r (fun items => ∀ a ∈ items, Q a) (Production.listed close p) := by
  unfold Production.listed
  apply bind (Q := fun items => ∀ a ∈ items, Q a)
  · apply loop (I := fun items => ∀ a ∈ items, Q a) _ (List.forall_mem_nil _)
    intro items h
    apply read
    intro closed
    apply ite
    · exact .pure fun a ha => h a (List.mem_reverse.1 ha)
    · refine hp.bind fun a ha => .read fun comma => .ite (.pure ?_) (.pure ?_)
      · exact List.forall_mem_cons.2 ⟨ha, h⟩
      · exact forall_mem_reverse_cons ha h
  · exact fun items h => .read fun _ => .pure h

end Makes

end ScriptFront.Production
