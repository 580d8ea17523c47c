import ScriptFront.Proofs.Shift.Tokens

/-!
# Runs on tokens in different places

Two productions match if they end alike wherever they run on related cursors: with the same complaint at
related places, or with related answers before related cursors. There is one lemma for each way to put
productions together. A production whose answer holds no place is `Uniform`: it matches itself with equal
answers.
-/

namespace ScriptFront

open Production

namespace Shift

variable {α β α' β' σ τ : Type} {r : Shift}

/-- Two ends of a run, up to places: the same complaint, or answers that `A` relates. -/
inductive Alike (r : Shift) (A : α → β → Prop) : Except Error α → Except Error β → Prop where
  | ok {a : α} {b : β} (answer : A a b) : Alike r A (.ok a) (.ok b)
  | error (cause : Cause) {p q : Position} (place : r.moves p q) :
    Alike r A (.error ⟨cause, p⟩) (.error ⟨cause, q⟩)

/-- Ends that are alike stay alike when related answers are made of their answers. -/
theorem Alike.map {A : α → β → Prop} {B : α' → β' → Prop} {x : Except Error α} {y : Except Error β}
    (h : r.Alike A x y) {f : α → α'} {g : β → β'} (hf : ∀ {a b}, A a b → B (f a) (g b)) :
    r.Alike B (x.map f) (y.map g) := by
  cases h with
  | ok ha => exact .ok (hf ha)
  | error cause h => exact .error cause h

/-- Pairs of things that are related one by one. -/
inductive Both (A : α → β → Prop) (B : α' → β' → Prop) : α × α' → β × β' → Prop where
  | intro {a : α} {b : β} {a' : α'} {b' : β'} (first : A a b) (second : B a' b') :
    Both A B (a, a') (b, b')

/-- Whether two productions end alike on related cursors: before related cursors, with answers that `A`
relates. -/
def Matches (r : Shift) (A : α → β → Prop) (p : Production α) (q : Production β) : Prop :=
  ∀ ctx {c c' : Cursor}, r.cursor c c' → r.Alike (Both A r.cursor) (p ctx c) (q ctx c')

/-- Whether a production answers the same on related cursors. -/
class Uniform (r : Shift) (p : Production α) : Prop where
  same : r.Matches Eq p p

/-- Whether a production answers with a token that it finds at its cursor. -/
class ReadsToken (r : Shift) (p : Production Token) : Prop where
  same : r.Matches r.token p p

namespace Matches

variable {A : α → β → Prop} {B : α' → β' → Prop} {p : Production α} {q : Production β}

protected theorem pure {a : α} {b : β} (h : A a b) : r.Matches A (Pure.pure a) (Pure.pure b) :=
  fun _ _ _ hc => .ok (.intro h hc)

protected theorem fail (cause : Cause) {x y : Position} (h : r.moves x y) :
    r.Matches A (Production.fail cause x) (Production.fail cause y) :=
  fun _ _ _ _ => .error cause h

/-- What would come behind an error takes no part in the comparison. -/
theorem stops (cause : Cause) {x y : Position} (h : r.moves x y) {f : σ → Production α}
    {g : σ → Production β} :
    r.Matches A (Production.fail cause x >>= f) (Production.fail cause y >>= g) :=
  fun _ _ _ _ => .error cause h

protected theorem failHere (cause : String → Cause) :
    r.Matches A (Production.failHere cause) (Production.failHere cause) := by
  intro ctx c c' hc
  unfold Production.failHere
  rw [hc.peek.describe]
  exact .error _ hc.peek.place

protected theorem bind (hp : r.Matches A p q) {f : α → Production α'} {g : β → Production β'}
    (hf : ∀ {a b}, A a b → r.Matches B (f a) (g b)) : r.Matches B (p >>= f) (q >>= g) := by
  intro ctx c c' hc
  rw [run_bind, run_bind]
  have halike := hp ctx hc
  generalize p ctx c = x at halike ⊢
  generalize q ctx c' = y at halike ⊢
  cases halike with
  | ok hends =>
    obtain ⟨ha, hd⟩ := hends
    exact hf ha ctx hd
  | error cause h => exact .error cause h

/-- Answers may be related more loosely. -/
theorem imp {B : α → β → Prop} (hp : r.Matches A p q) (h : ∀ {a b}, A a b → B a b) :
    r.Matches B p q := by
  intro ctx c c' hc
  have halike := hp ctx hc
  generalize p ctx c = x at halike ⊢
  generalize q ctx c' = y at halike ⊢
  cases halike with
  | ok hends =>
    obtain ⟨ha, hd⟩ := hends
    exact .ok (.intro (h ha) hd)
  | error cause h => exact .error cause h

protected theorem map (hp : r.Matches A p q) {f : α → α'} {g : β → β'} (hf : ∀ {a b}, A a b → B (f a) (g b)) :
    r.Matches B (f <$> p) (g <$> q) :=
  hp.bind fun h => .pure (hf h)

protected theorem asks {f : Cursor → α} {g : Cursor → β} (h : ∀ {c c'}, r.cursor c c' → A (f c) (g c')) :
    r.Matches A (Production.asks f) (Production.asks g) :=
  fun _ _ _ hc => .ok (.intro (h hc) hc)

/-- What is read first has the same answer in both runs. -/
theorem read {p : Production σ} [hp : r.Uniform p] {f : σ → Production α} {g : σ → Production β}
    (hf : ∀ a, r.Matches A (f a) (g a)) : r.Matches A (p >>= f) (p >>= g) :=
  hp.same.bind fun {a _} h => h ▸ hf a

/-- A token that is read first is the same in both runs, at related places. -/
theorem token {p : Production Token} [hp : r.ReadsToken p] {f : Token → Production α}
    {g : Token → Production β}
    (hf : ∀ kind text {x y}, r.moves x y → r.Matches A (f ⟨kind, text, x⟩) (g ⟨kind, text, y⟩)) :
    r.Matches A (p >>= f) (p >>= g) := by
  refine hp.same.bind fun {t u} h => ?_
  obtain ⟨kind, text, x⟩ := t
  obtain ⟨kind', text', y⟩ := u
  obtain ⟨rfl, rfl, hplace⟩ := h
  exact hf kind text hplace

protected theorem optional (k : Kind) :
    r.Matches (Option.Rel r.token) (Production.optional k) (Production.optional k) := by
  intro ctx c c' hc
  unfold Production.optional Cursor.optional
  rw [hc.isAt k]
  by_cases h : c'.isAt k
  · simp only [h, if_true]
    exact .ok (.intro (.some hc.peek) hc.next)
  · simp only [h]
    exact .ok (.intro .none hc)

protected theorem ite {b : Prop} [Decidable b] {p' : Production α} {q' : Production β} (hp : r.Matches A p q)
    (hp' : r.Matches A p' q') : r.Matches A (if b then p else p') (if b then q else q') := by
  split
  · exact hp
  · exact hp'

protected theorem nested (hp : r.Matches A p q) :
    r.Matches A (Production.nested p) (Production.nested q) := by
  intro ctx c c' hc
  unfold Production.nested
  split
  · exact .error _ hc.peek.place
  · exact hp _ hc

protected theorem some (hp : r.Matches A p q) :
    r.Matches (Option.Rel A) (Option.some <$> p) (Option.some <$> q) :=
  hp.map .some

/-- How two rounds of a repetition end alike. -/
inductive Turns {S : σ → τ → Prop} {A : α → β → Prop} : Turn σ α → Turn τ β → Prop where
  | again {s : σ} {t : τ} (state : S s t) : Turns (.again s) (.again t)
  | done {a : α} {b : β} (answer : A a b) : Turns (.done a) (.done b)

/-- Related rounds make related repetitions, as related cursors have the same number of rounds before
them. -/
protected theorem loop {S : σ → τ → Prop} {step : σ → Production (Turn σ α)} {step' : τ → Production (Turn τ β)}
    (hstep : ∀ {s t}, S s t → r.Matches (Turns (S := S) (A := A)) (step s) (step' t)) {s : σ} {t : τ}
    (h : S s t) : r.Matches A (Production.loop step s) (Production.loop step' t) := by
  have hrounds : ∀ {rounds rounds' : List Stop}, List.Forall₂ r.stop rounds rounds' → ∀ {s t}, S s t →
      r.Matches A (loopFrom step rounds s) (loopFrom step' rounds' t) := by
    intro rounds rounds' hrounds
    induction hrounds with
    | nil => exact fun _ _ _ _ hc => .error _ hc.peek.place
    | cons _ _ ih =>
      intro s t h
      unfold loopFrom
      refine (hstep h).bind fun hturn => ?_
      cases hturn with
      | again hstate => exact ih hstate
      | done hanswer => exact .pure hanswer
  intro ctx c c' hc
  exact hrounds (.cons hc.last hc.ahead) h ctx hc

protected theorem rounds {p q : Production Bool} (h : r.Matches Eq p q) :
    r.Matches Eq (Production.rounds p) (Production.rounds q) := by
  unfold Production.rounds
  refine .loop (S := Eq) (fun _ => h.bind fun hagain => ?_) rfl
  rw [hagain]
  exact .ite (.pure (.again rfl)) (.pure (.done rfl))

end Matches

/-! ## Productions that answer with a token -/

namespace ReadsToken

instance peek : r.ReadsToken Production.peek := ⟨fun _ _ _ hc => .ok (.intro hc.peek hc)⟩

instance peekNth (n : Nat) : r.ReadsToken (Production.peekNth n) :=
  ⟨fun _ _ _ hc => .ok (.intro (hc.peekNth n) hc)⟩

instance next : r.ReadsToken Production.next := ⟨fun _ _ _ hc => .ok (.intro hc.peek hc.next)⟩

instance accept (k : Kind) : r.ReadsToken (Production.accept k) := by
  constructor
  intro ctx c c' hc
  unfold Production.accept Cursor.accept Cursor.optional
  rw [hc.isAt k, hc.peek.describe]
  by_cases h : c'.isAt k
  · simp only [h, if_true]
    exact .ok (.intro hc.peek hc.next)
  · simp only [h]
    exact .error _ hc.peek.place

end ReadsToken

/-! ## Productions whose answer holds no place -/

namespace Uniform

variable {p q : Production α}

theorem of_asks {f : Cursor → α} (h : ∀ {c c'}, r.cursor c c' → f c = f c') : r.Uniform (asks f) :=
  ⟨.asks h⟩

instance peekKind : r.Uniform Production.peekKind := of_asks fun hc => hc.peekKind

instance isAt (k : Kind) : r.Uniform (Production.isAt k) := of_asks fun hc => hc.isAt k

instance isAtWord (word : String) : r.Uniform (Production.isAtWord word) :=
  of_asks fun hc => hc.peek.isWord word

instance advance (n : Nat) : r.Uniform (Production.advance n) :=
  ⟨fun _ _ _ hc => .ok (.intro rfl (hc.advance n))⟩

instance optimizes : r.Uniform Production.optimizes := ⟨fun _ _ _ hc => .ok (.intro rfl hc)⟩

instance pure (a : α) : r.Uniform (Pure.pure a : Production α) := ⟨.pure rfl⟩

instance failHere (cause : String → Cause) : r.Uniform (Production.failHere cause : Production α) :=
  ⟨.failHere cause⟩

instance bind {f : α → Production β} [hp : r.Uniform p] [hf : ∀ a, r.Uniform (f a)] :
    r.Uniform (p >>= f) :=
  ⟨.read fun a => (hf a).same⟩

instance map (f : α → β) [hp : r.Uniform p] : r.Uniform (f <$> p) := ⟨hp.same.map (congrArg f)⟩

instance discard [hp : r.Uniform p] : r.Uniform (Functor.discard p) := map _

instance discard_token {p : Production Token} [hp : r.ReadsToken p] :
    r.Uniform (Functor.discard p) :=
  ⟨hp.same.map fun _ => rfl⟩

instance discard_optional (k : Kind) : r.Uniform (Functor.discard (Production.optional k)) :=
  ⟨(Matches.optional k).map fun _ => rfl⟩

instance nested [hp : r.Uniform p] : r.Uniform (Production.nested p) := ⟨hp.same.nested⟩

instance ite {b : Prop} [Decidable b] [hp : r.Uniform p] [hq : r.Uniform q] :
    r.Uniform (if b then p else q) :=
  ⟨hp.same.ite hq.same⟩

instance loop {step : σ → Production (Turn σ β)} [hstep : ∀ s, r.Uniform (step s)] (s : σ) :
    r.Uniform (Production.loop step s) := by
  refine ⟨Matches.loop (S := Eq) (fun {s t} h => ?_) rfl⟩
  rw [h]
  refine (hstep t).same.imp fun {turn turn'} hturn => ?_
  rw [← hturn]
  cases turn with
  | again s => exact .again rfl
  | done b => exact .done rfl

instance skips (k : Kind) : r.Uniform (Production.skips k) := by
  constructor
  unfold Production.skips
  refine (Matches.optional k).bind fun h => .pure ?_
  cases h <;> rfl

instance semicolon : r.Uniform Production.semicolon := by
  unfold Production.semicolon
  infer_instance

instance rounds {p : Production Bool} [hp : r.Uniform p] : r.Uniform (Production.rounds p) :=
  ⟨hp.same.rounds⟩

instance separated [r.Uniform p] : r.Uniform (Production.separated p) := by
  unfold Production.separated
  dsimp only
  infer_instance

instance listed (close : Mark) [r.Uniform p] : r.Uniform (Production.listed close p) := by
  unfold Production.listed
  dsimp only
  infer_instance

end Uniform

namespace ReadsToken

instance identifier : r.ReadsToken Production.identifier := by
  constructor
  unfold Production.identifier
  exact .read fun _ => .ite next.same (.failHere _)

instance name : r.ReadsToken Production.name := by
  constructor
  unfold Production.name
  exact .read fun _ => .ite next.same (.failHere _)

instance word (w : String) : r.ReadsToken (Production.word w) := by
  constructor
  unfold Production.word
  exact .read fun _ => .ite next.same (.failHere _)

end ReadsToken

theorem Matches.listed {A : α → β → Prop} {item : Production α} {item' : Production β} {close : Mark}
    (h : r.Matches A item item') :
    r.Matches (List.Forall₂ A) (Production.listed close item) (Production.listed close item') := by
  unfold Production.listed
  refine Matches.bind (.loop (S := List.Forall₂ A) (fun {items items'} hitems => ?_) .nil)
    fun hitems => .read fun _ => .pure hitems
  refine .read fun closed => .ite (.pure (.done (List.rel_reverse hitems))) ?_
  exact h.bind fun hitem => .read fun comma =>
    .ite (.pure (.again (.cons hitem hitems))) (.pure (.done (List.rel_reverse (.cons hitem hitems))))

end Shift

end ScriptFront
