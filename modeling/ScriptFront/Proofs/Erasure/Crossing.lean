import ScriptFront.Proofs.Erasure.Pace

/-!
# Reading up to a place

`Crosses p c a d` says that a production gets from `c` to `d` with answer `a`, unless the nesting is too
deep for it. There is one lemma for each way to look, to read and to repeat, for tokens that stand in front
of a cursor.
-/

namespace ScriptFront

namespace Cursor

/-- A cursor with tokens put in front of it. -/
def prepend (d : Cursor) (w : List Token) : Cursor := ⟨w.map (Stop.mk []) ++ d.ahead, d.last⟩

variable {d : Cursor} {t : Token} {w : List Token}

@[simp] theorem prepend_nil : d.prepend [] = d := rfl

theorem prepend_append {v : List Token} : d.prepend (v ++ w) = (d.prepend w).prepend v := by
  unfold prepend
  rw [List.map_append, List.append_assoc]

@[simp] theorem peek_prepend : (d.prepend (t :: w)).peek = t := rfl

@[simp] theorem peekKind_prepend : (d.prepend (t :: w)).peekKind = t.kind := rfl

theorem isAt_prepend {k : Kind} : (d.prepend (t :: w)).isAt k = (t.kind == k) := rfl

@[simp] theorem peekNth_prepend {n : Nat} :
    (d.prepend (t :: w)).peekNth (n + 1) = (d.prepend w).peekNth n := rfl

theorem next_prepend (h : t.kind ≠ .endOfFile) : (d.prepend (t :: w)).next = d.prepend w := if_neg h

theorem remaining_prepend : (d.prepend w).remaining = w.length + d.remaining := by
  unfold prepend remaining
  rw [List.length_append, List.length_map]

theorem remaining_prepend_lt {v : List Token} (h : w.length < v.length) :
    (d.prepend w).remaining < (d.prepend v).remaining := by
  rw [remaining_prepend, remaining_prepend]
  exact Nat.add_lt_add_right h _

end Cursor

namespace Production

variable {α β σ : Type} {p : Production α} {f : α → Production β} {c d e : Cursor} {a : α} {b : β}

/-- Whether a production gets from `c` to `d` with answer `a`, unless it is nested too deep. -/
def Crosses (p : Production α) (c : Cursor) (a : α) (d : Cursor) : Prop :=
  ∀ ctx, p ctx c = .ok (a, d) ∨ TooDeep (p ctx c)

namespace Crosses

theorem pure : Crosses (Pure.pure a) c a c := fun _ => .inl rfl

theorem bind (hp : Crosses p c a d) (hf : Crosses (f a) d b e) : Crosses (p >>= f) c b e := by
  intro ctx
  rcases hp ctx with hok | hdeep
  · rw [run_bind_of_ok hok]
    exact hf ctx
  · exact .inr hdeep.bind

theorem discard (hp : Crosses p c a d) : Crosses (Functor.discard p) c () d := hp.bind pure

theorem nested (hp : Crosses p c a d) : Crosses (Production.nested p) c a d := by
  intro ctx
  by_cases hdepth : ctx.depth < depthLimit
  · rw [run_nested p c hdepth]
    exact hp _
  · exact .inr ⟨_, run_nested_of_le p c (Nat.not_lt.1 hdepth)⟩

/-! ### Looking -/

theorem asks_bind {h : Cursor → α} (hf : Crosses (f (h c)) c b e) : Crosses (asks h >>= f) c b e := hf

theorem peekKind_bind {f : Kind → Production β} (hf : Crosses (f c.peekKind) c b e) :
    Crosses (peekKind >>= f) c b e := hf

theorem peekNth_bind {n : Nat} {f : Token → Production β} (hf : Crosses (f (c.peekNth n)) c b e) :
    Crosses (peekNth n >>= f) c b e := hf

theorem isAt_bind {k : Kind} {f : Bool → Production β} (hf : Crosses (f (c.isAt k)) c b e) :
    Crosses (isAt k >>= f) c b e := hf

theorem isAtWord_bind {w : String} {f : Bool → Production β} (hf : Crosses (f (c.peek.isWord w)) c b e) :
    Crosses (isAtWord w >>= f) c b e := hf

/-! ### Reading -/

section Reading

variable {t : Token} {w : List Token} {k : Kind}

theorem next (h : t.kind ≠ .endOfFile) : Crosses Production.next (d.prepend (t :: w)) t (d.prepend w) := by
  intro ctx
  unfold Production.next
  rw [Cursor.next_prepend h]
  exact .inl rfl

theorem optional_some (h : t.kind = k) (hk : k ≠ .endOfFile) :
    Crosses (optional k) (d.prepend (t :: w)) (some t) (d.prepend w) := by
  intro ctx
  rw [run_optional_of_isAt ctx (beq_iff_eq.2 h : (d.prepend (t :: w)).isAt k = true),
    Cursor.next_prepend (h ▸ hk)]
  exact .inl rfl

theorem optional_none (h : c.peekKind ≠ k) : Crosses (optional k) c none c :=
  fun ctx => .inl (run_optional_of_not ctx (beq_eq_false_iff_ne.2 h))

theorem skips_true (h : t.kind = k) (hk : k ≠ .endOfFile) :
    Crosses (skips k) (d.prepend (t :: w)) true (d.prepend w) := (optional_some h hk).bind pure

theorem skips_false (h : c.peekKind ≠ k) : Crosses (skips k) c false c := (optional_none h).bind pure

theorem accept (h : t.kind = k) (hk : k ≠ .endOfFile) :
    Crosses (accept k) (d.prepend (t :: w)) t (d.prepend w) := by
  intro ctx
  rw [run_accept_of_isAt ctx (beq_iff_eq.2 h : (d.prepend (t :: w)).isAt k = true),
    Cursor.next_prepend (h ▸ hk)]
  exact .inl rfl

theorem name (h : t.kind.isName = true) : Crosses name (d.prepend (t :: w)) t (d.prepend w) := by
  unfold Production.name
  refine peekKind_bind ?_
  rw [Cursor.peekKind_prepend, if_pos h]
  exact next fun hend => by rw [hend] at h; cases h

theorem advance {v : List Token} (h : ∀ t ∈ v, t.kind ≠ .endOfFile) :
    Crosses (advance v.length) (d.prepend (v ++ w)) () (d.prepend w) := by
  intro ctx
  refine .inl (congrArg (fun c => Except.ok ((), c)) ?_)
  induction v with
  | nil => rfl
  | cons t v ih =>
    rw [List.forall_mem_cons] at h
    show ((d.prepend (t :: (v ++ w))).next).advance v.length = d.prepend w
    rw [Cursor.next_prepend h.1]
    exact ih h.2

end Reading

/-! ### Repetition -/

section Loop

variable {step : σ → Production (Turn σ β)} {s s' : σ}

/-- More rounds do not change what comes of a repetition, unless there were too few. -/
theorem run_loopFrom_mono {rounds rounds' : List Stop} {ctx : Context} {r : Except Error (β × Cursor)}
    (h : loopFrom step rounds s ctx c = r) (hr : ∀ position, r ≠ .error ⟨.stalled, position⟩)
    (hlength : rounds.length ≤ rounds'.length) : loopFrom step rounds' s ctx c = r := by
  induction rounds generalizing rounds' s c with
  | nil => exact absurd h.symm (hr _)
  | cons _ rounds ih =>
    cases rounds' with
    | nil => exact absurd hlength (Nat.not_succ_le_zero _)
    | cons _ rounds' =>
      unfold loopFrom at h ⊢
      rw [run_bind] at h ⊢
      cases hstep : step s ctx c with
      | error e => rwa [hstep] at h
      | ok r =>
        obtain ⟨t, c'⟩ := r
        rw [hstep] at h
        cases t with
        | again s' => exact ih h (Nat.le_of_succ_le_succ hlength)
        | done b' => exact h

/-- A round after which there is another one. -/
theorem run_loop_again {ctx : Context} (hstep : step s ctx c = .ok (.again s', d))
    (hlt : d.remaining < c.remaining) (hr : ∀ position, loop step s' ctx d ≠ .error ⟨.stalled, position⟩) :
    loop step s ctx c = loop step s' ctx d := by
  rw [run_loop_of_again hstep]
  exact run_loopFrom_mono rfl hr hlt

theorem loop_again (hstep : Crosses (step s) c (.again s') d) (hlt : d.remaining < c.remaining)
    (hrest : Crosses (loop step s') d b e) : Crosses (loop step s) c b e := by
  intro ctx
  rcases hstep ctx with hok | ⟨position, herror⟩
  · have hctx := hrest ctx
    rw [run_loop_again hok hlt]
    · exact hctx
    · intro position h
      rw [h] at hctx
      rcases hctx with h | ⟨_, h⟩ <;> cases h
  · exact .inr ⟨position, run_bind_of_error herror⟩

theorem loop_done (hstep : Crosses (step s) c (.done b) d) : Crosses (loop step s) c b d := by
  have hfrom : Crosses (loopFrom step (c.last :: c.ahead) s) c b d := hstep.bind pure
  exact hfrom

end Loop

theorem rounds_again {p : Production Bool} (hp : Crosses p c true d) (hlt : d.remaining < c.remaining)
    (hrest : Crosses (rounds p) d () e) : Crosses (rounds p) c () e :=
  loop_again (hp.bind (b := Turn.again ()) pure) hlt hrest

theorem rounds_done {p : Production Bool} (hp : Crosses p c false d) : Crosses (rounds p) c () d :=
  loop_done (hp.bind (b := Turn.done ()) pure)

/-! ### Lists

What has been read of a list does not matter for how far the reading gets. -/

/-- Whether two rounds of a repetition end in the same way. -/
def SameTurn (p p' : Production (Turn σ β)) : Prop := ∀ ctx c,
  (∃ e, p ctx c = .error e ∧ p' ctx c = .error e) ∨
  (∃ s s' d, p ctx c = .ok (.again s, d) ∧ p' ctx c = .ok (.again s', d)) ∨
  ∃ b b' d, p ctx c = .ok (.done b, d) ∧ p' ctx c = .ok (.done b', d)

namespace SameTurn

theorem again (s s' : σ) : SameTurn (Pure.pure (.again s) : Production (Turn σ β)) (Pure.pure (.again s')) :=
  fun _ c => .inr (.inl ⟨s, s', c, rfl, rfl⟩)

theorem done (b b' : β) : SameTurn (Pure.pure (.done b) : Production (Turn σ β)) (Pure.pure (.done b')) :=
  fun _ c => .inr (.inr ⟨b, b', c, rfl, rfl⟩)

theorem ite {c : Prop} [Decidable c] {p p' q q' : Production (Turn σ β)} (hp : SameTurn p p')
    (hq : SameTurn q q') : SameTurn (if c then p else q) (if c then p' else q') := by
  split
  · exact hp
  · exact hq

theorem bind {f f' : α → Production (Turn σ β)} (hf : ∀ a, SameTurn (f a) (f' a)) :
    SameTurn (p >>= f) (p >>= f') := by
  intro ctx c
  rw [run_bind, run_bind]
  cases p ctx c with
  | error e => exact .inl ⟨e, rfl, rfl⟩
  | ok r => exact hf r.1 ctx r.2

/-- What comes behind a repetition does not see how often it went round before. -/
theorem loop_bind {γ : Type} {step : σ → Production (Turn σ β)} (h : ∀ s s', SameTurn (step s) (step s'))
    (q : Production γ) (s s' : σ) (ctx : Context) (c : Cursor) :
    (loop step s >>= fun _ => q) ctx c = (loop step s' >>= fun _ => q) ctx c := by
  have hfrom (rounds : List Stop) (s s' : σ) (c : Cursor) :
      (loopFrom step rounds s >>= fun _ => q) ctx c = (loopFrom step rounds s' >>= fun _ => q) ctx c := by
    induction rounds generalizing s s' c with
    | nil => rfl
    | cons _ rounds ih =>
      have hrest := fun u u' d => ih u u' d
      unfold loopFrom
      simp only [run_bind] at hrest ⊢
      rcases h s s' ctx c with ⟨e, hs, hs'⟩ | ⟨u, u', d, hs, hs'⟩ | ⟨b, b', d, hs, hs'⟩
      · rw [hs, hs']
      · rw [hs, hs']
        exact hrest u u' d
      · rw [hs, hs']
        rfl
  exact hfrom _ s s' c

end SameTurn

/-- A round after which there is another one, with what comes behind the repetition. -/
theorem loop_again_bind {γ : Type} {step : σ → Production (Turn σ β)} {q : Production γ} {s s' : σ} {a : γ}
    (hsame : ∀ s s', SameTurn (step s) (step s')) (hstep : Crosses (step s) c (.again s') d)
    (hlt : d.remaining < c.remaining) (hrest : Crosses (loop step s >>= fun _ => q) d a e) :
    Crosses (loop step s >>= fun _ => q) c a e := by
  intro ctx
  have hctx := hrest ctx
  rw [SameTurn.loop_bind hsame q s s'] at hctx
  rcases hstep ctx with hok | ⟨position, herror⟩
  · rw [run_bind, run_loop_again hok hlt]
    · exact hctx
    · intro position h
      rw [run_bind_of_error h] at hctx
      rcases hctx with h | ⟨_, h⟩ <;> cases h
  · exact .inr ⟨position, run_bind_of_error (run_bind_of_error herror)⟩

section Lists

variable {item : Production Unit} {items : List Unit} {close : Mark} {t : Token} {w : List Token}

/-- A round that reads an item. -/
def itemTurn (item : Production Unit) (items : List Unit) : Production (Turn (List Unit) (List Unit)) := do
  let items := (← item) :: items
  if ← skips (.mark .comma) then return .again items else return .done items.reverse

/-- A round that reads an item, unless the list ends. -/
def closingTurn (close : Mark) (item : Production Unit) (items : List Unit) :
    Production (Turn (List Unit) (List Unit)) := do
  if ← isAt (.mark close) then return .done items.reverse else itemTurn item items

theorem itemTurn_last (hitem : Crosses item c () d) (hd : d.peekKind ≠ .mark .comma) :
    Crosses (itemTurn item items) c (.done (() :: items).reverse) d :=
  hitem.bind ((skips_false hd).bind (b := Turn.done (() :: items).reverse) pure)

theorem itemTurn_more (hitem : Crosses item c () (d.prepend (t :: w))) (ht : t.kind = .mark .comma) :
    Crosses (itemTurn item items) c (.again (() :: items)) (d.prepend w) :=
  hitem.bind ((skips_true ht (by simp)).bind (b := Turn.again (() :: items)) pure)

theorem sameTurn_item (items items' : List Unit) : SameTurn (itemTurn item items) (itemTurn item items') :=
  .bind fun _ => .bind fun _ => .ite (.again _ _) (.done _ _)

theorem separated_eq : Functor.discard (separated item) = loop (itemTurn item) [] >>= fun _ => Pure.pure () :=
  rfl

/-- The last item. -/
theorem separated_last (hitem : Crosses item c () d) (hd : d.peekKind ≠ .mark .comma) :
    Crosses (Functor.discard (separated item)) c () d :=
  (loop_done (itemTurn_last hitem hd)).discard

/-- An item with a comma behind it, and the items behind that. -/
theorem separated_more (hitem : Crosses item c () (d.prepend (t :: w))) (ht : t.kind = .mark .comma)
    (hlt : (d.prepend w).remaining < c.remaining)
    (hrest : Crosses (Functor.discard (separated item)) (d.prepend w) () e) :
    Crosses (Functor.discard (separated item)) c () e := by
  rw [separated_eq] at hrest ⊢
  exact loop_again_bind sameTurn_item (itemTurn_more hitem ht) hlt hrest

theorem listed_eq : Functor.discard (listed close item) = loop (closingTurn close item) [] >>= fun _ =>
    Functor.discard (Production.accept (.mark close)) := by
  funext ctx c
  show ((loop (closingTurn close item) [] >>= fun items =>
    Functor.discard (Production.accept (.mark close)) >>= fun _ => Pure.pure items) >>= fun _ =>
      Pure.pure ()) ctx c = _
  simp only [run_bind]
  cases loop (closingTurn close item) [] ctx c with
  | error e => rfl
  | ok r =>
    dsimp only
    cases Functor.discard (Production.accept (.mark close)) ctx r.2 <;> rfl

/-- The end of a list. -/
theorem listed_close (ht : t.kind = .mark close) :
    Crosses (Functor.discard (listed close item)) (d.prepend (t :: w)) () (d.prepend w) := by
  rw [listed_eq]
  refine (loop_done (b := []) ?_).bind (accept ht (by simp)).discard
  refine isAt_bind ?_
  rw [Cursor.isAt_prepend, beq_iff_eq.2 ht]
  exact pure

/-- The last item before the end of a list. -/
theorem listed_last (hc : c.peekKind ≠ .mark close) (hitem : Crosses item c () (d.prepend (t :: w)))
    (ht : t.kind = .mark close) (hclose : close ≠ .comma) :
    Crosses (Functor.discard (listed close item)) c () (d.prepend w) := by
  rw [listed_eq]
  refine (loop_done (b := [()]) (d := d.prepend (t :: w)) ?_).bind (accept ht (by simp)).discard
  refine isAt_bind ?_
  rw [Cursor.isAt, beq_eq_false_iff_ne.2 hc]
  refine itemTurn_last hitem ?_
  rw [Cursor.peekKind_prepend, ht]
  simpa using hclose

/-- An item with a comma behind it, and the rest of the list. -/
theorem listed_more (hc : c.peekKind ≠ .mark close) (hitem : Crosses item c () (d.prepend (t :: w)))
    (ht : t.kind = .mark .comma) (hlt : (d.prepend w).remaining < c.remaining)
    (hrest : Crosses (Functor.discard (listed close item)) (d.prepend w) () e) :
    Crosses (Functor.discard (listed close item)) c () e := by
  have hstep : Crosses (closingTurn close item []) c (.again [()]) (d.prepend w) := by
    refine isAt_bind ?_
    rw [Cursor.isAt, beq_eq_false_iff_ne.2 hc]
    exact itemTurn_more hitem ht
  rw [listed_eq] at hrest ⊢
  exact loop_again_bind (fun _ _ => .bind fun _ => .ite (.done _ _) (sameTurn_item _ _)) hstep hlt hrest

end Lists

end Crosses

end Production

end ScriptFront
