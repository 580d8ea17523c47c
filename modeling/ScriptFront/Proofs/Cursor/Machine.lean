import ScriptFront.Token.Lookahead

/-!
# Token machines

There is more than one way to keep the unread part of a token list. A `Machine` is one: it can look at a
token ahead, read one and take an attribute in front of it, and whatever else is done with a cursor is
done by these three. `Cursor.machine` is the cursor itself, with its own operations (`perform_machine`).
Two machines that agree on the three agree on every sequence of operations (`Simulation.run`).
-/

namespace ScriptFront

/-! ## Operations -/

/-- What can be done with the unread part of a token list. -/
inductive Operation where
  | peekNth (n : Nat)
  | next
  | nextAttribute
  | accept (k : Kind)
  | optional (k : Kind)
  | ignoreOptional (k : Kind) (n : Nat)
  | advance (n : Nat)
  /-- Tries to step over a token of each of the kinds, in order, and reads what has been stepped over if
  `commit` says so. -/
  | lookahead (kinds : List Kind) (commit : Bool)

/-- What an operation tells. -/
inductive Observation where
  | token (t : Token)
  | found (t : Option Token)
  | accepted (r : Except Error Token)
  | moved
  /-- Which kinds were there, how many tokens that makes, and the token behind them. -/
  | scanned (eaten : List Bool) (consumed : Nat) (peek : Token)

/-- A way to keep the unread part of a token list. There is no answer where something would be looked up
out of range. -/
structure Machine (σ : Type) where
  peekNth : σ → Nat → Option Token
  next : σ → Option (Token × σ)
  nextAttribute : σ → Option (Option Token × σ)

namespace Machine

variable {σ : Type} (m : Machine σ)

def optional (k : Kind) (s : σ) : Option (Option Token × σ) := do
  if (← m.peekNth s 0).kind = k then
    let (t, s) ← m.next s
    return (some t, s)
  else return (none, s)

def accept (k : Kind) (s : σ) : Option (Except Error Token × σ) := do
  let t ← m.peekNth s 0
  if t.kind = k then
    let (t, s) ← m.next s
    return (.ok t, s)
  else return (.error ⟨.expecting k.text t.describe, t.position⟩, s)

def ignoreOptional (k : Kind) : Nat → σ → Option (Unit × σ)
  | 0, s => return ((), s)
  | n + 1, s => do
    let (t, s) ← m.optional k s
    if t.isSome then ignoreOptional k n s else return ((), s)

def advance : Nat → σ → Option (Unit × σ)
  | 0, s => return ((), s)
  | n + 1, s => do
    let (_, s) ← m.next s
    advance n s

/-- Tries to step over a token of each of the kinds, `offset` tokens from here on, and tells which were
there and how far that leads. -/
def eatEach (s : σ) : List Kind → Nat → Option (List Bool × Nat)
  | [], offset => return ([], offset)
  | k :: ks, offset => do
    let t ← m.peekNth s offset
    let (eaten, consumed) ← eatEach s ks (if t.kind = k then offset + 1 else offset)
    return (decide (t.kind = k) :: eaten, consumed)

def perform (s : σ) : Operation → Option (Observation × σ)
  | .peekNth n => do return (.token (← m.peekNth s n), s)
  | .next => do
    let (t, s) ← m.next s
    return (.token t, s)
  | .nextAttribute => do
    let (t, s) ← m.nextAttribute s
    return (.found t, s)
  | .accept k => do
    let (r, s) ← m.accept k s
    return (.accepted r, s)
  | .optional k => do
    let (t, s) ← m.optional k s
    return (.found t, s)
  | .ignoreOptional k n => do
    let (_, s) ← m.ignoreOptional k n s
    return (.moved, s)
  | .advance n => do
    let (_, s) ← m.advance n s
    return (.moved, s)
  | .lookahead ks commit => do
    let (eaten, consumed) ← m.eatEach s ks 0
    let t ← m.peekNth s consumed
    let (_, s) ← if commit then m.advance consumed s else some ((), s)
    return (.scanned eaten consumed t, s)

def run (s : σ) : List Operation → Option (List Observation × σ)
  | [] => return ([], s)
  | op :: ops => do
    let (o, s) ← m.perform s op
    let (os, s) ← run s ops
    return (o :: os, s)

/-- The same machine with a record of the tokens that it has read and the attributes that it has taken.
Looking at the end of the file is not reading it. -/
def recording : Machine (σ × List Token) where
  peekNth s n := m.peekNth s.1 n
  next s := do
    let (t, d) ← m.next s.1
    return (t, d, if t.kind = .endOfFile then s.2 else s.2 ++ [t])
  nextAttribute s := do
    let (t, d) ← m.nextAttribute s.1
    return (t, d, s.2 ++ t.toList)

end Machine

/-! ## The cursor as a machine -/

namespace Lookahead

/-- Tries to step over a token of each of the kinds, and tells which were there. -/
def eatEach (l : Lookahead) : List Kind → List Bool × Lookahead
  | [] => ([], l)
  | k :: ks =>
    let r := ((l.eat k).getD l).eatEach ks
    ((l.eat k).isSome :: r.1, r.2)

/-- Whether the lookahead has stepped over `n` tokens from the cursor on. -/
def Over (l : Lookahead) (c : Cursor) (n : Nat) : Prop := l = ⟨c.ahead.drop n, c.last, n⟩

variable {l : Lookahead} {c : Cursor} {n : Nat}

theorem over_ofCursor (c : Cursor) : (ofCursor c).Over c 0 := rfl

theorem Over.peek (h : l.Over c n) : l.peek = c.peekNth n := by
  unfold Over at h
  subst h
  unfold Lookahead.peek Cursor.peekNth
  rw [List.head?_drop]

theorem Over.eat (h : l.Over c n) (k : Kind) :
    (l.eat k).isSome = decide ((c.peekNth n).kind = k) ∧
      ((l.eat k).getD l).Over c (if (c.peekNth n).kind = k then n + 1 else n) := by
  have hpeek := h.peek
  unfold Over at h
  unfold Lookahead.eat
  rw [hpeek]
  by_cases hk : (c.peekNth n).kind = k
  · simp only [hk, if_true, Option.isSome_some, decide_true, Option.getD_some, true_and]
    unfold Over
    rw [h, List.tail_drop]
  · simp only [hk, if_false, Option.isSome_none, decide_false, Option.getD_none, true_and]
    exact h

/-- A cursor that follows a lookahead which has stepped over no end of a file. -/
theorem eatEach_followed (hc : c.last.token.kind = .endOfFile) (hahead : l.ahead = c.ahead)
    (hlast : l.last = c.last) (ks : List Kind)
    (h : (.endOfFile, true) ∉ ks.zip (l.eatEach ks).1) :
    ∃ m, (l.eatEach ks).2.consumed = l.consumed + m ∧ (c.advance m).peek = (l.eatEach ks).2.peek := by
  induction ks generalizing l c with
  | nil =>
    refine ⟨0, rfl, ?_⟩
    show (c.ahead[0]?.getD c.last).token = (l.ahead.head?.getD l.last).token
    rw [hahead, hlast, List.head?_eq_getElem?]
  | cons k ks ih =>
    unfold eatEach at h ⊢
    rw [List.zip_cons_cons, List.mem_cons, not_or] at h
    obtain ⟨hk, hks⟩ := h
    unfold eat at hk hks ⊢
    by_cases hpeek : l.peek.kind = k
    · rw [if_pos hpeek] at hk hks ⊢
      have hinside : l.peek.kind ≠ .endOfFile := by
        intro hkind
        exact hk (by rw [← hpeek, hkind]; rfl)
      have hnext : c.next.last = c.last ∧ c.next.ahead = l.ahead.tail := by
        unfold peek at hinside
        rw [hahead, hlast] at hinside
        unfold Cursor.next
        rw [hahead]
        cases hcons : c.ahead with
        | nil =>
          rw [hcons] at hinside
          exact absurd hc hinside
        | cons s rest =>
          rw [hcons] at hinside
          have hs : s.token.kind ≠ .endOfFile := hinside
          dsimp only
          rw [if_neg hs]
          exact ⟨rfl, rfl⟩
      obtain ⟨m, hm, hadvance⟩ :=
        ih (l := { l with ahead := l.ahead.tail, consumed := l.consumed + 1 }) (c := c.next)
          (by rw [hnext.1]; exact hc) hnext.2.symm (hlast.trans hnext.1.symm) hks
      refine ⟨m + 1, ?_, hadvance⟩
      rw [Option.getD_some, hm]
      exact Nat.add_right_comm ..
    · rw [if_neg hpeek] at hks ⊢
      exact ih hc hahead hlast hks

end Lookahead

namespace Cursor

/-- The cursor with its own ways to look and to read. -/
def machine : Machine Cursor where
  peekNth c n := some (c.peekNth n)
  next c := some (c.peek, c.next)
  nextAttribute c := some ((c.nextAttribute.map (·.1)), (c.nextAttribute.map (·.2)).getD c)

/-- What the operations of a cursor tell, and the cursor behind them. An operation that fails leaves the
cursor where it is. -/
def perform (c : Cursor) : Operation → Observation × Cursor
  | .peekNth n => (.token (c.peekNth n), c)
  | .next => (.token c.peek, c.next)
  | .nextAttribute =>
    match c.nextAttribute with
    | some (t, d) => (.found (some t), d)
    | none => (.found none, c)
  | .accept k =>
    match c.accept k with
    | .ok (t, d) => (.accepted (.ok t), d)
    | .error e => (.accepted (.error e), c)
  | .optional k =>
    match c.optional k with
    | some (t, d) => (.found (some t), d)
    | none => (.found none, c)
  | .ignoreOptional k n => (.moved, c.ignoreOptional k n)
  | .advance n => (.moved, c.advance n)
  | .lookahead ks commit =>
    let (eaten, l) := (Lookahead.ofCursor c).eatEach ks
    (.scanned eaten l.consumed l.peek, if commit then c.advance l.consumed else c)

def run (c : Cursor) : List Operation → List Observation × Cursor
  | [] => ([], c)
  | op :: ops =>
    let (o, c) := c.perform op
    let (os, c) := c.run ops
    (o :: os, c)

section Machine

variable (c : Cursor) (k : Kind)

theorem isAt_eq : c.isAt k = decide (c.peek.kind = k) := by
  unfold isAt peekKind
  by_cases h : c.peek.kind = k <;> simp [h]

theorem machine_optional :
    machine.optional k c = some ((c.optional k).map (·.1), ((c.optional k).map (·.2)).getD c) := by
  unfold Machine.optional optional
  rw [isAt_eq]
  by_cases h : c.peek.kind = k
  · simp only [h, decide_true, if_true]
    exact if_pos h
  · simp only [h, decide_false, Bool.false_eq_true, if_false]
    exact if_neg h

theorem machine_accept :
    machine.accept k c =
      match c.accept k with
      | .ok (t, d) => some (.ok t, d)
      | .error e => some (.error e, c) := by
  unfold Machine.accept accept optional
  rw [isAt_eq]
  by_cases h : c.peek.kind = k
  · simp only [h, decide_true, if_true]
    exact if_pos h
  · simp only [h, decide_false, Bool.false_eq_true, if_false]
    exact if_neg h

theorem machine_ignoreOptional (n : Nat) :
    machine.ignoreOptional k n c = some ((), c.ignoreOptional k n) := by
  induction n generalizing c with
  | zero => rfl
  | succ n ih =>
    unfold Machine.ignoreOptional ignoreOptional
    rw [machine_optional]
    cases c.optional k with
    | none => rfl
    | some r => exact ih r.2

theorem machine_advance (n : Nat) : machine.advance n c = some ((), c.advance n) := by
  induction n generalizing c with
  | zero => rfl
  | succ n ih => exact ih c.next

theorem machine_eatEach {l : Lookahead} {n : Nat} (h : l.Over c n) (ks : List Kind) :
    machine.eatEach c ks n = some ((l.eatEach ks).1, (l.eatEach ks).2.consumed) ∧
      (l.eatEach ks).2.Over c (l.eatEach ks).2.consumed := by
  induction ks generalizing l n with
  | nil =>
    unfold Lookahead.Over at h
    subst h
    exact ⟨rfl, rfl⟩
  | cons k ks ih =>
    obtain ⟨hsome, hover⟩ := h.eat k
    obtain ⟨heach, hover'⟩ := ih hover
    unfold Machine.eatEach Lookahead.eatEach
    refine ⟨?_, hover'⟩
    show (do
      let (eaten, consumed) ← machine.eatEach c ks _
      return (decide ((c.peekNth n).kind = k) :: eaten, consumed)) = _
    rw [heach, hsome]
    rfl

/-- The machine of a cursor does what the operations of the cursor do. -/
theorem perform_machine (op : Operation) : machine.perform c op = some (c.perform op) := by
  cases op with
  | peekNth n => rfl
  | next => rfl
  | nextAttribute =>
    show (machine.nextAttribute c >>= fun r => some (Observation.found r.1, r.2)) = _
    simp only [machine, perform]
    cases c.nextAttribute <;> rfl
  | accept k =>
    simp only [Machine.perform, perform]
    rw [machine_accept]
    cases c.accept k <;> rfl
  | optional k =>
    simp only [Machine.perform, perform]
    rw [machine_optional]
    cases c.optional k <;> rfl
  | ignoreOptional k n =>
    simp only [Machine.perform, perform]
    rw [machine_ignoreOptional]
    rfl
  | advance n =>
    simp only [Machine.perform, perform]
    rw [machine_advance]
    rfl
  | lookahead ks commit =>
    obtain ⟨heach, hover⟩ := machine_eatEach c (Lookahead.over_ofCursor c) ks
    have hpeek : machine.peekNth c ((Lookahead.ofCursor c).eatEach ks).2.consumed =
        some ((Lookahead.ofCursor c).eatEach ks).2.peek := congrArg some hover.peek.symm
    simp only [Machine.perform, perform, heach, hpeek, Option.bind_eq_bind, Option.bind_some]
    cases commit with
    | false => rfl
    | true =>
      simp only [if_true, machine_advance, Option.bind_some]
      rfl

theorem run_machine (ops : List Operation) : machine.run c ops = some (c.run ops) := by
  induction ops generalizing c with
  | nil => rfl
  | cons op ops ih =>
    unfold Machine.run run
    rw [perform_machine]
    show (do
      let (os, d) ← machine.run (c.perform op).2 ops
      return ((c.perform op).1 :: os, d)) = _
    rw [ih]
    rfl

end Machine

end Cursor

/-! ## Machines that agree -/

namespace Machine

variable {σ τ α β : Type}

/-- Whether two machines both go on, with the same answer and in related states. -/
def Agree (R : σ → τ → Prop) (x : Option (α × σ)) (y : Option (α × τ)) : Prop :=
  ∃ a s s', x = some (a, s) ∧ y = some (a, s') ∧ R s s'

/-- Whether related states of two machines agree on how to look and to read. -/
structure Simulation (m : Machine σ) (m' : Machine τ) (R : σ → τ → Prop) : Prop where
  peekNth : ∀ {s s'}, R s s' → ∀ n, ∃ t, m.peekNth s n = some t ∧ m'.peekNth s' n = some t
  next : ∀ {s s'}, R s s' → Agree R (m.next s) (m'.next s')
  nextAttribute : ∀ {s s'}, R s s' → Agree R (m.nextAttribute s) (m'.nextAttribute s')

variable {R : σ → τ → Prop} {x : Option (α × σ)} {y : Option (α × τ)} {s : σ} {s' : τ}

theorem Agree.pure (a : α) (h : R s s') : Agree R (Pure.pure (a, s)) (Pure.pure (a, s')) :=
  ⟨a, s, s', rfl, rfl, h⟩

theorem Agree.bind {f : α × σ → Option (β × σ)} {f' : α × τ → Option (β × τ)} (h : Agree R x y)
    (hf : ∀ a s s', R s s' → Agree R (f (a, s)) (f' (a, s'))) : Agree R (x >>= f) (y >>= f') := by
  obtain ⟨a, s, s', rfl, rfl, hR⟩ := h
  exact hf a s s' hR

/-- An answer that is changed on the way out. -/
theorem Agree.map (h : Agree R x y) (f : α → β) :
    Agree R (do let (a, s) ← x; return (f a, s)) (do let (a, s') ← y; return (f a, s')) :=
  h.bind fun a _ _ hR => .pure (f a) hR

namespace Simulation

variable {m : Machine σ} {m' : Machine τ} (h : Simulation m m' R) (hR : R s s')
include h hR

theorem peekThen {f : Token → Option (β × σ)} {f' : Token → Option (β × τ)} (n : Nat)
    (hf : ∀ t, Agree R (f t) (f' t)) : Agree R (m.peekNth s n >>= f) (m'.peekNth s' n >>= f') := by
  obtain ⟨t, ht, ht'⟩ := h.peekNth hR n
  rw [ht, ht']
  exact hf t

theorem optional (k : Kind) : Agree R (m.optional k s) (m'.optional k s') := by
  refine h.peekThen hR 0 fun t => ?_
  by_cases hk : t.kind = k
  · simp only [hk, if_true]
    exact (h.next hR).map some
  · simp only [hk, if_false]
    exact .pure none hR

theorem accept (k : Kind) : Agree R (m.accept k s) (m'.accept k s') := by
  refine h.peekThen hR 0 fun t => ?_
  by_cases hk : t.kind = k
  · simp only [hk, if_true]
    exact (h.next hR).map Except.ok
  · simp only [hk, if_false]
    exact .pure _ hR

theorem ignoreOptional (k : Kind) (n : Nat) :
    Agree R (m.ignoreOptional k n s) (m'.ignoreOptional k n s') := by
  induction n generalizing s s' with
  | zero => exact .pure () hR
  | succ n ih =>
    refine (h.optional hR k).bind fun t s s' hR => ?_
    cases t with
    | none => exact .pure () hR
    | some t => exact ih hR

theorem advance (n : Nat) : Agree R (m.advance n s) (m'.advance n s') := by
  induction n generalizing s s' with
  | zero => exact .pure () hR
  | succ n ih => exact (h.next hR).bind fun _ _ _ hR => ih hR

theorem eatEach (ks : List Kind) (offset : Nat) :
    ∃ r, m.eatEach s ks offset = some r ∧ m'.eatEach s' ks offset = some r := by
  induction ks generalizing offset with
  | nil => exact ⟨_, rfl, rfl⟩
  | cons k ks ih =>
    obtain ⟨t, ht, ht'⟩ := h.peekNth hR offset
    obtain ⟨r, hr, hr'⟩ := ih (if t.kind = k then offset + 1 else offset)
    unfold Machine.eatEach
    refine ⟨(decide (t.kind = k) :: r.1, r.2), ?_, ?_⟩
    · rw [ht]
      show (do let (eaten, consumed) ← m.eatEach s ks _; return (_ :: eaten, consumed)) = _
      rw [hr]
      rfl
    · rw [ht']
      show (do let (eaten, consumed) ← m'.eatEach s' ks _; return (_ :: eaten, consumed)) = _
      rw [hr']
      rfl

theorem perform (op : Operation) : Agree R (m.perform s op) (m'.perform s' op) := by
  cases op with
  | peekNth n => exact h.peekThen hR n fun t => .pure (Observation.token t) hR
  | next => exact (h.next hR).map Observation.token
  | nextAttribute => exact (h.nextAttribute hR).map Observation.found
  | accept k => exact (h.accept hR k).map Observation.accepted
  | optional k => exact (h.optional hR k).map Observation.found
  | ignoreOptional k n => exact (h.ignoreOptional hR k n).map fun _ => Observation.moved
  | advance n => exact (h.advance hR n).map fun _ => Observation.moved
  | lookahead ks commit =>
    obtain ⟨r, hr, hr'⟩ := h.eatEach hR ks 0
    simp only [Machine.perform]
    rw [hr, hr']
    refine h.peekThen hR r.2 fun t => ?_
    cases commit with
    | false => exact .pure _ hR
    | true => exact (h.advance hR r.2).map fun _ => Observation.scanned r.1 r.2 t

/-- Machines that agree on how to look and to read agree on every sequence of operations. -/
theorem run (ops : List Operation) : Agree R (m.run s ops) (m'.run s' ops) := by
  induction ops generalizing s s' with
  | nil => exact .pure [] hR
  | cons op ops ih =>
    refine (h.perform hR op).bind fun o s s' hR => ?_
    exact (ih hR).map (o :: ·)

end Simulation

end Machine

end ScriptFront
