import Mathlib.Data.List.Chain
import ScriptFront.Proofs.Expression.Spelled
import ScriptFront.Proofs.Production.StatementsRead
import ScriptFront.Proofs.Token.Ahead

/-!
# Reading what is spelled

`Yields ctx p s P r` says that on tokens spelled as `s` a production succeeds with an answer that has
`P`, and stops in front of tokens spelled as `r`. There is one lemma for each way to look, to read and
to repeat; a production is then followed token by token, and cursors do not appear any more.
-/

namespace ScriptFront

namespace Spelling

/-- The kind of the `n`th token. Behind the last one is the end of the file. -/
def kindAt (s : Spelling) (n : Nat) : Kind := (s[n]?.map (·.1)).getD .endOfFile

@[simp] theorem kindAt_nil (n : Nat) : kindAt [] n = .endOfFile := rfl

@[simp] theorem kindAt_cons_zero (x : Kind × String) (s : Spelling) : kindAt (x :: s) 0 = x.1 := rfl

@[simp] theorem kindAt_cons_succ (x : Kind × String) (s : Spelling) (n : Nat) :
    kindAt (x :: s) (n + 1) = kindAt s n := rfl

end Spelling

@[simp] theorem Mark.shape_fst (m : Mark) : m.shape.1 = .mark m := rfl

@[simp] theorem Keyword.shape_fst (k : Keyword) : k.shape.1 = .keyword k := rfl

/-! ## Cursors -/

namespace Cursor

open Spelling

/-- Whether the tokens ahead are spelled as `s`, up to the end of the file, with shifts written
together. -/
def Spells (c : Cursor) (s : Spelling) : Prop :=
  ∃ ts, c.At ts ∧ ts.map Token.shape = s ∧ ts.IsChain Token.ShiftsTogether

namespace Spells

variable {c : Cursor} {x : Kind × String} {s : Spelling}

theorem peekNth_kind (h : c.Spells s) (n : Nat) : (c.peekNth n).kind = kindAt s n := by
  obtain ⟨ts, hat, rfl, -⟩ := h
  rw [hat.peekNth, kindAt, List.getElem?_map]
  cases ts[n]? with
  | none => exact hat.last
  | some t => rfl

theorem peekKind (h : c.Spells s) : c.peekKind = kindAt s 0 := h.peekNth_kind 0

theorem isAt (h : c.Spells s) (k : Kind) : c.isAt k = (kindAt s 0 == k) := by
  rw [Cursor.isAt, h.peekKind]

theorem shape_peek (h : c.Spells (x :: s)) : c.peek.shape = x := by
  obtain ⟨ts, hat, hts, -⟩ := h
  obtain ⟨t, ts, rfl, rfl, -⟩ := List.map_eq_cons_iff.1 hts
  rw [hat.peek_cons]

theorem next (h : c.Spells (x :: s)) (hx : x.1 ≠ .endOfFile) : c.next.Spells s := by
  obtain ⟨ts, hat, hts, hchain⟩ := h
  obtain ⟨t, ts, rfl, rfl, rfl⟩ := List.map_eq_cons_iff.1 hts
  exact ⟨ts, hat.next hx, rfl, hchain.tail⟩

theorem advance {xs : Spelling} (h : c.Spells (xs ++ s)) (hxs : ∀ x ∈ xs, x.1 ≠ .endOfFile) :
    (c.advance xs.length).Spells s := by
  induction xs generalizing c with
  | nil => exact h
  | cons x xs ih =>
    rw [List.forall_mem_cons] at hxs
    exact ih (h.next hxs.1) hxs.2

theorem length_ahead (h : c.Spells s) : c.ahead.length = s.length := by
  obtain ⟨ts, hat, rfl, -⟩ := h
  rw [List.length_map, ← hat.remaining_eq, remaining]

/-- Two `>` ahead are adjacent. -/
theorem isAdjacentTo_of_greater (h : c.Spells s) (h₀ : kindAt s 0 = .mark .greater)
    (h₁ : kindAt s 1 = .mark .greater) :
    c.peek.position.isAdjacentTo (c.peekNth 1).position = true := by
  have hsecond := (h.peekNth_kind 1).trans h₁
  have hfirst := h.peekKind.trans h₀
  obtain ⟨ts, hat, -, hchain⟩ := h
  match ts with
  | [] => cases hfirst.symm.trans hat.peekKind_nil
  | [t] =>
    rw [hat.peekNth_one_cons] at hsecond
    cases hsecond.symm.trans hat.last
  | t :: u :: ts =>
    rw [Cursor.peekKind] at hfirst
    rw [hat.peekNth_one_cons] at hsecond ⊢
    rw [hat.peek_cons] at hfirst ⊢
    exact (List.isChain_cons_cons.1 hchain).1 hfirst hsecond

end Spells

end Cursor

/-! ## Productions -/

namespace Production

open Spelling

variable {α β σ : Type} {ctx : Context} {p : Production α} {f : α → Production β}
  {P P' : α → Prop} {Q : β → Prop} {x : Kind × String} {s r u : Spelling} {k : Kind}

/-- Whether, on tokens spelled as `s`, a production answers something with `P` and leaves tokens
spelled as `r`. -/
def Yields (ctx : Context) (p : Production α) (s : Spelling) (P : α → Prop) (r : Spelling) : Prop :=
  ∀ c : Cursor, c.Spells s → ∃ a d, p ctx c = .ok (a, d) ∧ P a ∧ d.Spells r

namespace Yields

theorem mono (hp : Yields ctx p s P r) (h : ∀ a, P a → P' a) : Yields ctx p s P' r := by
  intro c hc
  obtain ⟨a, d, hok, ha, hd⟩ := hp c hc
  exact ⟨a, d, hok, h a ha, hd⟩

theorem pure {a : α} (h : P a) : Yields ctx (Pure.pure a) s P s := fun c hc => ⟨a, c, rfl, h, hc⟩

theorem bind (hp : Yields ctx p s P r) (hf : ∀ a, P a → Yields ctx (f a) r Q u) :
    Yields ctx (p >>= f) s Q u := by
  intro c hc
  obtain ⟨a, d, hok, ha, hd⟩ := hp c hc
  rw [run_bind_of_ok hok]
  exact hf a ha d hd

/-- An answer that is changed on the way out. -/
theorem bind_pure {g : α → β} (hp : Yields ctx p s P r) (h : ∀ a, P a → Q (g a)) :
    Yields ctx (do return g (← p)) s Q r :=
  hp.bind fun a ha => .pure (h a ha)

theorem discard (hp : Yields ctx p s P r) : Yields ctx (Functor.discard p) s (fun _ => True) r :=
  hp.bind_pure fun _ _ => trivial

theorem nested (h : ctx.depth < depthLimit)
    (hp : Yields { ctx with depth := ctx.depth + 1 } p s P r) :
    Yields ctx (Production.nested p) s P r := by
  intro c hc
  rw [run_nested p c h]
  exact hp c hc

/-! ### Looking -/

theorem asksThen {test : Cursor → α} {a : α} (htest : ∀ c : Cursor, c.Spells s → test c = a)
    (hf : Yields ctx (f a) s Q r) : Yields ctx (asks test >>= f) s Q r := by
  intro c hc
  rw [run_asks_bind, htest c hc]
  exact hf c hc

theorem peekKindThen {f : Kind → Production β} (hf : Yields ctx (f (kindAt s 0)) s Q r) :
    Yields ctx (peekKind >>= f) s Q r := by
  intro c hc
  rw [run_peekKind_bind, hc.peekKind]
  exact hf c hc

theorem isAtThen_true {f : Bool → Production β} (h : kindAt s 0 = k)
    (hf : Yields ctx (f true) s Q r) : Yields ctx (isAt k >>= f) s Q r := by
  intro c hc
  rw [run_isAt_bind, hc.isAt, beq_iff_eq.2 h]
  exact hf c hc

theorem isAtThen_false {f : Bool → Production β} (h : kindAt s 0 ≠ k)
    (hf : Yields ctx (f false) s Q r) : Yields ctx (isAt k >>= f) s Q r := by
  intro c hc
  rw [run_isAt_bind, hc.isAt, beq_eq_false_iff_ne.2 h]
  exact hf c hc

theorem isAtWordThen_false {f : Bool → Production β} {word : String} (h : kindAt s 0 ≠ .identifier)
    (hf : Yields ctx (f false) s Q r) : Yields ctx (isAtWord word >>= f) s Q r := by
  intro c hc
  have hword : c.peek.isWord word = false := by
    have hkind : c.peek.kind ≠ .identifier := by rwa [show c.peek.kind = kindAt s 0 from hc.peekKind]
    rw [Token.isWord, beq_eq_false_iff_ne.2 hkind, Bool.false_and]
  rw [run_isAtWord_bind, hword]
  exact hf c hc

theorem peekThen {f : Token → Production β}
    (hf : ∀ t : Token, t.shape = x → Yields ctx (f t) (x :: s) Q r) :
    Yields ctx (peek >>= f) (x :: s) Q r := by
  intro c hc
  rw [run_peek_bind]
  exact hf c.peek hc.shape_peek c hc

/-! ### Reading -/

theorem next (hx : x.1 ≠ .endOfFile) :
    Yields ctx Production.next (x :: s) (fun t => t.shape = x) s :=
  fun c hc => ⟨c.peek, c.next, rfl, hc.shape_peek, hc.next hx⟩

theorem advance {xs : Spelling} (hxs : ∀ x ∈ xs, x.1 ≠ .endOfFile) :
    Yields ctx (Production.advance xs.length) (xs ++ s) (fun _ => True) s :=
  fun c hc => ⟨(), c.advance xs.length, rfl, trivial, hc.advance hxs⟩

theorem accept (hx : x.1 = k) (hk : k ≠ .endOfFile) :
    Yields ctx (Production.accept k) (x :: s) (fun t => t.shape = x) s := by
  intro c hc
  have hat : c.isAt k = true := by
    rw [hc.isAt, kindAt_cons_zero, hx, beq_self_eq_true]
  exact ⟨c.peek, c.next, run_accept_of_isAt ctx hat, hc.shape_peek, hc.next (hx ▸ hk)⟩

theorem optional_some (hx : x.1 = k) (hk : k ≠ .endOfFile) :
    Yields ctx (Production.optional k) (x :: s) (fun o => ∃ t, o = some t) s := by
  intro c hc
  have hat : c.isAt k = true := by
    rw [hc.isAt, kindAt_cons_zero, hx, beq_self_eq_true]
  exact ⟨some c.peek, c.next, run_optional_of_isAt ctx hat, ⟨_, rfl⟩, hc.next (hx ▸ hk)⟩

theorem optional_none (h : kindAt s 0 ≠ k) :
    Yields ctx (Production.optional k) s (fun o => o = none) s := by
  intro c hc
  have hat : c.isAt k = false := by
    rw [hc.isAt, beq_eq_false_iff_ne]
    exact h
  exact ⟨none, c, run_optional_of_not ctx hat, rfl, hc⟩

theorem skips_true (hx : x.1 = k) (hk : k ≠ .endOfFile) :
    Yields ctx (skips k) (x :: s) (fun b => b = true) s := by
  refine (optional_some hx hk).bind_pure ?_
  rintro _ ⟨t, rfl⟩
  rfl

theorem skips_false (h : kindAt s 0 ≠ k) : Yields ctx (skips k) s (fun b => b = false) s := by
  refine (optional_none h).bind_pure ?_
  rintro _ rfl
  rfl

theorem name (hx : x.1.isName = true) :
    Yields ctx Production.name (x :: s) (fun t => t.shape = x) s := by
  unfold Production.name
  refine peekKindThen ?_
  rw [kindAt_cons_zero, if_pos hx]
  exact next fun h => by rw [h] at hx; cases hx

/-- No type arguments are found unless a `<` stands here. -/
theorem genericArguments (h : kindAt s 0 ≠ .mark .less) :
    Yields ctx Production.genericArguments s (fun _ => True) s := by
  unfold Production.genericArguments
  refine asksThen (a := none) (fun c hc => ?_) (pure trivial)
  have hpeek : (Lookahead.ofCursor c).peek = c.peek := by
    unfold Lookahead.ofCursor Lookahead.peek Cursor.peek Cursor.peekNth
    rw [List.head?_eq_getElem?]
  have hkind : (Lookahead.ofCursor c).peek.kind ≠ .mark .less := by
    rwa [hpeek, show c.peek.kind = kindAt s 0 from hc.peekKind]
  have heat : (Lookahead.ofCursor c).eat (.mark .less) = none := if_neg hkind
  unfold Lookahead.typeArgumentDepth Lookahead.typeArguments
  rw [heat]
  rfl

/-! ### Repetition -/

theorem loop {step : σ → Production (Turn σ β)} {a : σ}
    (h : ∀ rounds : List Stop, s.length < rounds.length →
      Yields ctx (loopFrom step rounds a) s Q r) :
    Yields ctx (Production.loop step a) s Q r := by
  intro c hc
  refine h (c.last :: c.ahead) ?_ c hc
  rw [List.length_cons, hc.length_ahead]
  exact Nat.lt_succ_self _

/-- A round after which there is another one. -/
theorem loopFrom_again {step : σ → Production (Turn σ β)} {P : σ → Prop} {a : σ}
    {rounds : List Stop} {stop : Stop}
    (hstep : Yields ctx (step a) s (fun t => ∃ b, t = .again b ∧ P b) r)
    (hrest : ∀ b, P b → Yields ctx (loopFrom step rounds b) r Q u) :
    Yields ctx (loopFrom step (stop :: rounds) a) s Q u := by
  refine hstep.bind ?_
  rintro _ ⟨b, rfl, hb⟩
  exact hrest b hb

theorem loopFrom_done {step : σ → Production (Turn σ β)} {a : σ} {rounds : List Stop} {stop : Stop}
    (hstep : Yields ctx (step a) s (fun t => ∃ b, t = .done b ∧ Q b) r) :
    Yields ctx (loopFrom step (stop :: rounds) a) s Q r := by
  refine hstep.bind ?_
  rintro _ ⟨b, rfl, hb⟩
  exact pure hb

/-- A repetition with an invariant `I`, every round of which reads something or is the last one. -/
theorem loop_of_invariant {step : σ → Production (Turn σ β)} (I : σ → Spelling → Prop)
    (hstep : ∀ a s, I a s →
      (∃ s', s'.length < s.length ∧
        Yields ctx (step a) s (fun t => ∃ b, t = .again b ∧ I b s') s') ∨
      Yields ctx (step a) s (fun t => ∃ b, t = .done b ∧ Q b) r)
    {a : σ} (h : I a s) : Yields ctx (Production.loop step a) s Q r := by
  refine loop fun rounds hrounds => ?_
  induction rounds generalizing a s with
  | nil => exact absurd hrounds (Nat.not_lt_zero _)
  | cons stop rounds ih =>
    rw [List.length_cons] at hrounds
    rcases hstep a s h with ⟨s', hs', hagain⟩ | hdone
    · exact loopFrom_again hagain fun b hb => ih hb (by omega)
    · exact loopFrom_done hdone

end Yields

end Production

end ScriptFront
