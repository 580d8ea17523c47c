import ScriptFront.Proofs.Depth.Roles

/-!
# How many brackets a production holds open

`Rises k p` says that a production has at no time more brackets held open than in front of it, and `k`
more, and four more for each level that it may still be nested. So a production that nests what it
contains rises by nothing, if what it contains rises by four at most. What a production leaves open in the
end is known from the brackets that it opens and closes.
-/

namespace ScriptFront

namespace Cursor

/-- Whether `d` is reached from `c` by tokens that lead from place `s` to place `s'`, with at most `n`
brackets held on the way. -/
def Passes (c : Cursor) (s : Place) (n : Nat) (d : Cursor) (s' : Place) : Prop :=
  d.last = c.last ∧ ∃ taken, c.ahead = taken ++ d.ahead ∧
    s.Within n (taken.map (·.token.kind)) ∧ s.readAll (taken.map (·.token.kind)) = s'

namespace Passes

variable {c d e : Cursor} {s s' s'' : Place} {m n : Nat}

theorem refl (c : Cursor) (h : s.held ≤ n) : c.Passes s n c s :=
  ⟨rfl, [], rfl, h, rfl⟩

theorem trans (h : c.Passes s n d s') (h' : d.Passes s' n e s'') : c.Passes s n e s'' := by
  obtain ⟨hlast, taken, htaken, hwithin, hs'⟩ := h
  obtain ⟨hlast', taken', htaken', hwithin', hs''⟩ := h'
  refine ⟨hlast'.trans hlast, taken ++ taken', ?_, ?_, ?_⟩
  · rw [htaken, htaken', List.append_assoc]
  · rw [List.map_append]
    exact Place.within_append.2 ⟨hwithin, hs' ▸ hwithin'⟩
  · rw [List.map_append, Place.readAll_append, hs', hs'']

theorem weaken (h : c.Passes s m d s') (hmn : m ≤ n) : c.Passes s n d s' := by
  obtain ⟨hlast, taken, htaken, hwithin, hs'⟩ := h
  exact ⟨hlast, taken, htaken, hwithin.weaken hmn, hs'⟩

theorem closed (h : c.Passes s n d s') (hc : c.Closed) : d.Closed := by
  unfold Closed
  rw [h.1]
  exact hc

/-- The tokens that are read tell the place behind them. -/
theorem unique (h : c.Passes s m d s') (h' : c.Passes s n d s'') : s' = s'' := by
  obtain ⟨-, taken, htaken, -, rfl⟩ := h
  obtain ⟨-, taken', htaken', -, rfl⟩ := h'
  cases List.append_cancel_right (htaken.symm.trans htaken')
  rfl

end Passes

/-- What is read is passed. -/
theorem Reaches.passes {c d : Cursor} {i : Nat} (h : c.Reaches i d) (s : Place) :
    ∃ n s', c.Passes s n d s' := by
  obtain ⟨hlast, taken, htaken, -, -⟩ := h
  exact ⟨_, _, hlast, taken, htaken, .of_length s _, rfl⟩

/-- Behind the current token, or still in front of the end of the file. -/
theorem next_passes {c : Cursor} {s : Place} {n : Nat} (hc : c.Closed) (hs : s.held ≤ n)
    (h : (s.read c.peekKind).held ≤ n) :
    ∃ s', c.Passes s n c.next s' ∧
      (s' = s.read c.peekKind ∨ c.peekKind = .endOfFile ∧ s' = s) := by
  unfold peekKind peek peekNth at h ⊢
  unfold next
  split
  · next hahead =>
    rw [hahead]
    exact ⟨s, .refl c hs, .inr ⟨hc, rfl⟩⟩
  · next t rest hahead =>
    rw [hahead] at h ⊢
    split
    · next hend => exact ⟨s, .refl c hs, .inr ⟨hend, rfl⟩⟩
    · exact ⟨_, ⟨rfl, [t], hahead, ⟨hs, h⟩, rfl⟩, .inl rfl⟩

end Cursor

/-- Four brackets for each level that a production may still be nested. -/
def Context.room (ctx : Context) : Nat := 4 * (Production.depthLimit - ctx.depth)

namespace Production

variable {α β σ : Type}

/-- Whether `p`, run where `P` holds, has at most `k` more brackets held open than in front of it, not
counting those of the levels inside it. -/
structure Climbs (P : Cursor → Place → Prop) (k : Nat) (p : Production α) : Prop where
  passes : ∀ {ctx : Context} {c : Cursor} {s : Place} {a : α} {d : Cursor}, c.Closed → P c s →
    p ctx c = .ok (a, d) → ∃ s', c.Passes s (s.held + k + ctx.room) d s'

/-- Whether `p`, run where `P` holds, leaves at most `k` more brackets held open than it finds. -/
structure Leaves (P : Cursor → Place → Prop) (k : Nat) (p : Production α) : Prop where
  held_le : ∀ {ctx : Context} {c : Cursor} {s : Place} {a : α} {d : Cursor}, c.Closed → P c s →
    p ctx c = .ok (a, d) → ∃ n s', c.Passes s n d s' ∧ s'.held ≤ s.held + k

/-- Whether `R` holds behind `p`, run where `P` holds. -/
structure Lands (P : Cursor → Place → Prop) (p : Production α) (R : α → Cursor → Place → Prop) :
    Prop where
  holds : ∀ {ctx : Context} {c : Cursor} {s : Place} {a : α} {d : Cursor}, c.Closed → P c s →
    p ctx c = .ok (a, d) → ∃ n s', c.Passes s n d s' ∧ R a d s'

/-- The condition of a production that may stand anywhere. -/
def Everywhere : Cursor → Place → Prop := fun _ _ => True

/-- Whether `p` has at most `k` more brackets held open than in front of it, wherever it stands. -/
class Rises (k : Nat) (p : Production α) : Prop where
  climbs : Climbs Everywhere k p

/-- Whether `p` leaves no more brackets held open than it finds. -/
class Settles (p : Production α) : Prop where
  leaves : Leaves Everywhere 0 p

/-- Whether `p` leaves at most one more bracket held open than it finds. -/
class Lifts (p : Production α) : Prop where
  leaves : Leaves Everywhere 1 p

variable {P : Cursor → Place → Prop} {k : Nat} {p q : Production α} {f : α → Production β}

theorem run_next (ctx : Context) (c : Cursor) : next ctx c = .ok (c.peek, c.next) := rfl

instance Looks.ite {b : Prop} [Decidable b] [hp : Looks p] [hq : Looks q] :
    Looks (if b then p else q) := by
  split
  · exact hp
  · exact hq

/-! ## What is left open -/

/-- What is left open is known from the brackets that are opened and closed. -/
theorem Takes.leaves {P : Cursor → Prop} {before : List Bracket} {after : α → List Bracket}
    (hp : Takes P before p after) (hk : ∀ a, (after a).length ≤ k) :
    Leaves (fun c _ => P c) k p := by
  refine ⟨fun {_ _ s a _} hc hP hok => ?_⟩
  obtain ⟨hlast, taken, htaken, hopen⟩ := hp.leads hc hP hok
  refine ⟨_, _, ⟨hlast, taken, htaken, .of_length s _, rfl⟩, ?_⟩
  exact Nat.le_trans (Place.held_readAll_le hopen s) (Nat.add_le_add_left (hk a) _)

namespace Leaves

theorem under {P' : Cursor → Place → Prop} (hp : Leaves P' k p) (h : ∀ c s, P c s → P' c s) :
    Leaves P k p :=
  ⟨fun hc hP hok => hp.held_le hc (h _ _ hP) hok⟩

theorem everywhere (hp : Leaves Everywhere k p) : Leaves P k p := hp.under fun _ _ _ => trivial

theorem settles [hp : Settles p] : Leaves P 0 p := hp.leaves.everywhere

theorem fail (cause : Cause) (position : Position) :
    Leaves P k (Production.fail cause position : Production α) :=
  ⟨fun _ _ hok => nomatch hok⟩

theorem failHere (cause : String → Cause) : Leaves P k (Production.failHere cause : Production α) :=
  ⟨fun _ _ hok => nomatch hok⟩

theorem looks [hp : Looks p] : Leaves P k p := by
  refine ⟨fun {_ c s _ _} _ _ hok => ?_⟩
  cases hp.stays hok
  exact ⟨s.held, s, .refl c (Nat.le_refl _), Nat.le_add_right _ _⟩

theorem bind (hp : Leaves P k p) (hf : ∀ a, Leaves Everywhere 0 (f a)) : Leaves P k (p >>= f) := by
  refine ⟨fun hc hP hok => ?_⟩
  obtain ⟨a, d, hp', hf'⟩ := bind_ok.1 hok
  obtain ⟨m, s', hpass, hs'⟩ := hp.held_le hc hP hp'
  obtain ⟨n, s'', hpass', hs''⟩ := (hf a).held_le (hpass.closed hc) trivial hf'
  exact ⟨max m n, s'', (hpass.weaken (Nat.le_max_left m n)).trans
    (hpass'.weaken (Nat.le_max_right m n)), Nat.le_trans hs'' hs'⟩

theorem discard (hp : Leaves P k p) : Leaves P k (Functor.discard p) :=
  hp.bind (f := fun _ => Pure.pure PUnit.unit) fun _ => looks

theorem ite {b : Prop} [Decidable b] (hp : b → Leaves P k p) (hq : ¬ b → Leaves P k q) :
    Leaves P k (if b then p else q) := by
  split
  · next h => exact hp h
  · next h => exact hq h

theorem asks {h : Cursor → α} (hf : ∀ a, Leaves (fun c s => P c s ∧ h c = a) k (f a)) :
    Leaves P k (Production.asks h >>= f) :=
  ⟨fun {_ c _ _ _} hc hP hok => (hf (h c)).held_le hc ⟨hP, rfl⟩ hok⟩

theorem peek {f : Token → Production β}
    (hf : ∀ t, Leaves (fun c s => P c s ∧ c.peek = t) k (f t)) :
    Leaves P k (Production.peek >>= f) :=
  asks (h := Cursor.peek) hf

theorem peekKind {f : Kind → Production β}
    (hf : ∀ kind, Leaves (fun c s => P c s ∧ c.peekKind = kind) k (f kind)) :
    Leaves P k (Production.peekKind >>= f) :=
  asks (h := Cursor.peekKind) hf

theorem next (h : ∀ c s, P c s → (s.read c.peekKind).held ≤ s.held + k) :
    Leaves P k Production.next := by
  refine ⟨fun {_ c s _ _} hc hP hok => ?_⟩
  cases hok
  obtain ⟨s', hpass, rfl | ⟨-, rfl⟩⟩ := c.next_passes (s := s) (n := s.held + 1) hc
    (Nat.le_succ _) (s.held_read_le _)
  · exact ⟨_, _, hpass, h c s hP⟩
  · exact ⟨_, _, hpass, Nat.le_add_right _ _⟩

/-- A token that opens nothing. -/
theorem drop (h : ∀ c s, P c s → c.peekKind.opens? = none) :
    Leaves P 0 (Functor.discard Production.next) :=
  (next fun c s hP => s.held_read_of_not_opens (h c s hP)).discard

theorem accept {kind : Kind} (h : ∀ c s, P c s → (s.read kind).held ≤ s.held + k) :
    Leaves P k (Production.accept kind) := by
  refine ⟨fun {ctx c s _ _} hc hP hok => ?_⟩
  cases hat : c.isAt kind with
  | true =>
    cases (run_accept_of_isAt ctx hat).symm.trans hok
    refine (next (P := fun c s => P c s ∧ c.peekKind = kind) fun c s hc => ?_).held_le hc
      ⟨hP, eq_of_beq hat⟩ (run_next ctx c)
    rw [hc.2]
    exact h c s hc.1
  | false => cases (run_accept_of_not ctx hat).symm.trans hok

end Leaves

namespace Settles

instance nests [hp : Nests p] : Settles p :=
  ⟨((hp.takes []).leaves fun _ => Nat.le_refl 0).under fun _ _ _ => trivial⟩

theorem of_closes {b : Bracket} (hp : Closes b p) : Settles p :=
  ⟨((hp.takes []).leaves fun _ => Nat.le_refl 0).under fun _ _ _ => trivial⟩

instance discard [hp : Settles p] : Settles (Functor.discard p) := ⟨hp.leaves.discard⟩

instance closeParen : Settles (accept (.mark .closeParen)) := of_closes (b := .round) inferInstance

instance closeBracket : Settles (accept (.mark .closeBracket)) :=
  of_closes (b := .square) inferInstance

instance closeBrace : Settles (accept (.mark .closeBrace)) := of_closes (b := .curly) inferInstance

end Settles

namespace Lifts

instance next : Lifts Production.next := ⟨.next fun c s _ => s.held_read_le c.peekKind⟩

instance accept (k : Kind) : Lifts (Production.accept k) :=
  ⟨.accept fun _ s _ => s.held_read_le k⟩

instance optional (k : Kind) : Lifts (Production.optional k) := by
  refine ⟨⟨fun {ctx c s _ _} hc _ hok => ?_⟩⟩
  cases hat : c.isAt k with
  | true =>
    cases (run_optional_of_isAt ctx hat).symm.trans hok
    exact next.leaves.held_le hc trivial (run_next ctx c)
  | false =>
    cases (run_optional_of_not ctx hat).symm.trans hok
    exact ⟨s.held, s, .refl c (Nat.le_refl _), Nat.le_succ _⟩

instance skips (k : Kind) : Lifts (Production.skips k) :=
  ⟨(optional k).leaves.bind fun _ => .looks⟩

instance discard [hp : Lifts p] : Lifts (Functor.discard p) := ⟨hp.leaves.discard⟩

end Lifts

/-! ## Where a production ends -/

namespace Lands

variable {R : α → Cursor → Place → Prop} {R' : β → Cursor → Place → Prop}
  {Q : Cursor → Place → Prop}

theorem under {P' : Cursor → Place → Prop} (hp : Lands P' p R) (h : ∀ c s, P c s → P' c s) :
    Lands P p R :=
  ⟨fun hc hP hok => hp.holds hc (h _ _ hP) hok⟩

theorem everywhere (hp : Lands Everywhere p R) : Lands P p R := hp.under fun _ _ _ => trivial

/-- What is known of the tokens ahead. -/
theorem of_run [hp : Advances p] {R : α → Cursor → Prop} (h : ∀ {ctx : Context} {c : Cursor}
    {s : Place} {a : α} {d : Cursor}, P c s → p ctx c = .ok (a, d) → R a d) :
    Lands P p fun a d _ => R a d := by
  refine ⟨fun {_ _ s _ _} hc hP hok => ?_⟩
  obtain ⟨n, s', hpass⟩ := (hp.reads.reaches hc hok).passes s
  exact ⟨n, s', hpass, h hP hok⟩

theorem anyhow [Advances p] : Lands P p fun _ => Everywhere := of_run fun _ _ => trivial

theorem fail (cause : Cause) (position : Position) : Lands P (Production.fail cause position) R :=
  ⟨fun _ _ hok => nomatch hok⟩

theorem failHere (cause : String → Cause) : Lands P (Production.failHere cause) R :=
  ⟨fun _ _ hok => nomatch hok⟩

theorem looks [hp : Looks p] (h : ∀ c s, P c s → Q c s) : Lands P p fun _ => Q := by
  refine ⟨fun {_ c s _ _} _ hP hok => ?_⟩
  cases hp.stays hok
  exact ⟨s.held, s, .refl c (Nat.le_refl _), h c s hP⟩

theorem bind (hp : Lands P p R) (hf : ∀ a, Lands (R a) (f a) R') : Lands P (p >>= f) R' := by
  refine ⟨fun hc hP hok => ?_⟩
  obtain ⟨a, d, hp', hf'⟩ := bind_ok.1 hok
  obtain ⟨m, s', hpass, hs'⟩ := hp.holds hc hP hp'
  obtain ⟨n, s'', hpass', hs''⟩ := (hf a).holds (hpass.closed hc) hs' hf'
  exact ⟨max m n, s'', (hpass.weaken (Nat.le_max_left m n)).trans
    (hpass'.weaken (Nat.le_max_right m n)), hs''⟩

theorem bind_looks [∀ a, Looks (f a)] (hp : Lands P p fun _ => Q) : Lands P (p >>= f) fun _ => Q :=
  hp.bind fun _ => .looks fun _ _ h => h

theorem discard (hp : Lands P p fun _ => Q) : Lands P (Functor.discard p) fun _ => Q :=
  hp.bind_looks (f := fun _ => Pure.pure PUnit.unit)

theorem ite {b : Prop} [Decidable b] (hp : b → Lands P p R) (hq : ¬ b → Lands P q R) :
    Lands P (if b then p else q) R := by
  split
  · next h => exact hp h
  · next h => exact hq h

theorem peek {f : Token → Production β}
    (hf : ∀ t, Lands (fun c s => P c s ∧ c.peek = t) (f t) R') :
    Lands P (Production.peek >>= f) R' :=
  ⟨fun {_ c _ _ _} hc hP hok => (hf c.peek).holds hc ⟨hP, rfl⟩ hok⟩

theorem peekKind {f : Kind → Production β}
    (hf : ∀ kind, Lands (fun c s => P c s ∧ c.peekKind = kind) (f kind) R') :
    Lands P (Production.peekKind >>= f) R' :=
  ⟨fun {_ c _ _ _} hc hP hok => (hf c.peekKind).holds hc ⟨hP, rfl⟩ hok⟩

/-- Behind a token that is not the end of the file. -/
theorem next (hend : ∀ c s, P c s → c.peekKind ≠ .endOfFile)
    (h : ∀ c s, P c s → Q c.next (s.read c.peekKind)) : Lands P Production.next fun _ => Q := by
  refine ⟨fun {_ c s _ _} hc hP hok => ?_⟩
  cases hok
  obtain ⟨s', hpass, rfl | ⟨hkind, -⟩⟩ := c.next_passes (s := s) (n := s.held + 1) hc
    (Nat.le_succ _) (s.held_read_le _)
  · exact ⟨_, _, hpass, h c s hP⟩
  · exact absurd hkind (hend c s hP)

/-- Behind a token of a kind that has been seen. -/
theorem nextAt {kind : Kind} (hend : kind ≠ .endOfFile)
    (h : ∀ c s, P c s → Q c.next (s.read kind)) :
    Lands (fun c s => P c s ∧ c.peekKind = kind) Production.next fun _ => Q := by
  refine next (fun c s hc => ?_) fun c s hc => ?_
  · rw [hc.2]
    exact hend
  · rw [hc.2]
    exact h c s hc.1

theorem dropAt {kind : Kind} (hend : kind ≠ .endOfFile)
    (h : ∀ c s, P c s → Q c.next (s.read kind)) :
    Lands (fun c s => P c s ∧ c.peekKind = kind) (Functor.discard Production.next) fun _ => Q :=
  (nextAt hend h).discard

/-- What closes the brackets that it opens leaves the roles of the others. -/
theorem nests {Q : List Role → Prop} [hp : Nests p] :
    Lands (fun _ s => Q s.roles) p fun _ _ s => Q s.roles := by
  refine ⟨fun {_ _ s _ _} hc hQ hok => ?_⟩
  obtain ⟨hlast, taken, htaken, hopen⟩ := (hp.takes []).leads hc trivial hok
  refine ⟨_, _, ⟨hlast, taken, htaken, .of_length s _, rfl⟩, ?_⟩
  have hroles : (s.readAll (taken.map (·.token.kind))).roles = s.roles :=
    (Place.roles_readAll hopen s).1
  rw [hroles]
  exact hQ

/-- Behind a token of the kind that is asked for. -/
theorem accept {kind : Kind} (hend : kind ≠ .endOfFile)
    (h : ∀ c s, P c s → Q c.next (s.read kind)) : Lands P (Production.accept kind) fun _ => Q := by
  refine ⟨fun {ctx c s _ _} hc hP hok => ?_⟩
  cases hat : c.isAt kind with
  | true =>
    cases (run_accept_of_isAt ctx hat).symm.trans hok
    exact (nextAt hend h).holds hc ⟨hP, eq_of_beq hat⟩ (run_next ctx c)
  | false => cases (run_accept_of_not ctx hat).symm.trans hok

end Lands

/-! ## What is held on the way -/

namespace Climbs

theorem weaken {m : Nat} (hp : Climbs P m p) (h : m ≤ k) : Climbs P k p := by
  refine ⟨fun hc hP hok => ?_⟩
  obtain ⟨s', hpass⟩ := hp.passes hc hP hok
  exact ⟨s', hpass.weaken (by omega)⟩

/-- A production climbs where `P` holds as it does under a weaker condition. -/
theorem under {P' : Cursor → Place → Prop} (hp : Climbs P' k p) (h : ∀ c s, P c s → P' c s) :
    Climbs P k p :=
  ⟨fun hc hP hok => hp.passes hc (h _ _ hP) hok⟩

theorem rises [hp : Rises k p] : Climbs P k p := hp.climbs.under fun _ _ _ => trivial

theorem fail (cause : Cause) (position : Position) :
    Climbs P k (Production.fail cause position : Production α) :=
  ⟨fun _ _ hok => nomatch hok⟩

theorem failHere (cause : String → Cause) : Climbs P k (Production.failHere cause : Production α) :=
  ⟨fun _ _ hok => nomatch hok⟩

theorem looks [hp : Looks p] : Climbs P k p := by
  refine ⟨fun {_ c s _ _} _ _ hok => ?_⟩
  cases hp.stays hok
  exact ⟨s, .refl c (by omega)⟩

/-- What is left open in front counts behind, and what is known of the place may be used there. -/
theorem bindAt {j m : Nat} {R : α → Cursor → Place → Prop} (hp : Climbs P k p) (hleaves : Leaves P j p)
    (hends : Lands P p R) (hf : ∀ a, Climbs (R a) m (f a)) (hm : j + m ≤ k) :
    Climbs P k (p >>= f) := by
  refine ⟨fun {ctx _ _ _ _} hc hP hok => ?_⟩
  obtain ⟨a, d, hp', hf'⟩ := bind_ok.1 hok
  obtain ⟨s', hpass⟩ := hp.passes hc hP hp'
  obtain ⟨_, _, hpass₁, hs'⟩ := hleaves.held_le hc hP hp'
  obtain ⟨_, _, hpass₂, hR⟩ := hends.holds hc hP hp'
  cases hpass.unique hpass₁
  cases hpass.unique hpass₂
  obtain ⟨s'', hpass'⟩ := (hf a).passes (hpass.closed hc) hR hf'
  exact ⟨s'', hpass.trans (hpass'.weaken (by omega))⟩

theorem bind {j m : Nat} (hp : Climbs P k p) (hleaves : Leaves P j p)
    (hf : ∀ a, Climbs Everywhere m (f a)) (hm : j + m ≤ k) : Climbs P k (p >>= f) := by
  have hends : Lands P p fun _ => Everywhere := by
    refine ⟨fun hc hP hok => ?_⟩
    obtain ⟨s', hpass⟩ := hp.passes hc hP hok
    exact ⟨_, s', hpass, trivial⟩
  exact hp.bindAt hleaves hends hf hm

/-- What stands in front of a production leaves nothing open. -/
theorem behind [hp : Rises k p] [hs : Settles p] (hf : ∀ a, Climbs Everywhere k (f a)) :
    Climbs P k (p >>= f) :=
  rises.bind hs.leaves.everywhere hf (Nat.le_of_eq (Nat.zero_add k))

theorem bind_looks [hf : ∀ a, Looks (f a)] (hp : Climbs P k p) : Climbs P k (p >>= f) := by
  refine ⟨fun hc hP hok => ?_⟩
  obtain ⟨a, e, hp', hf'⟩ := bind_ok.1 hok
  cases (hf a).stays hf'
  exact hp.passes hc hP hp'

theorem discard (hp : Climbs P k p) : Climbs P k (Functor.discard p) :=
  hp.bind_looks (f := fun _ => Pure.pure PUnit.unit)

theorem ite {b : Prop} [Decidable b] (hp : b → Climbs P k p) (hq : ¬ b → Climbs P k q) :
    Climbs P k (if b then p else q) := by
  split
  · next h => exact hp h
  · next h => exact hq h

/-- Each level pays for what is inside it. -/
theorem nested (hp : Climbs Everywhere 4 p) : Climbs P k (Production.nested p) := by
  refine ⟨fun {ctx c s _ _} hc _ hok => ?_⟩
  unfold Production.nested at hok
  split at hok
  · cases hok
  · next hdepth =>
    obtain ⟨s', hpass⟩ := hp.passes hc trivial hok
    refine ⟨s', hpass.weaken ?_⟩
    unfold Context.room
    simp only
    omega

/-! ### Looking before reading -/

theorem asks {h : Cursor → α} (hf : ∀ a, Climbs (fun c s => P c s ∧ h c = a) k (f a)) :
    Climbs P k (Production.asks h >>= f) :=
  ⟨fun {_ c _ _ _} hc hP hok => (hf (h c)).passes hc ⟨hP, rfl⟩ hok⟩

theorem peek {f : Token → Production β}
    (hf : ∀ t, Climbs (fun c s => P c s ∧ c.peek = t) k (f t)) :
    Climbs P k (Production.peek >>= f) :=
  asks (h := Cursor.peek) hf

theorem peekKind {f : Kind → Production β}
    (hf : ∀ kind, Climbs (fun c s => P c s ∧ c.peekKind = kind) k (f kind)) :
    Climbs P k (Production.peekKind >>= f) :=
  asks (h := Cursor.peekKind) hf

theorem next (h : ∀ c s, P c s → (s.read c.peekKind).held ≤ s.held + k) :
    Climbs P k Production.next := by
  refine ⟨fun {_ c s _ _} hc hP hok => ?_⟩
  cases hok
  have hread := h c s hP
  obtain ⟨s', hpass, -⟩ := c.next_passes (s := s) (n := s.held + k) hc (by omega) hread
  exact ⟨s', hpass.weaken (by omega)⟩

/-- A token that opens nothing. -/
theorem drop (h : ∀ c s, P c s → c.peekKind.opens? = none) :
    Climbs P k (Functor.discard Production.next) :=
  (next fun c s hP => Nat.le_add_right_of_le (s.held_read_of_not_opens (h c s hP))).discard

/-- A token that opens nothing, with what stands behind it. -/
theorem skip {f : Unit → Production β} (h : ∀ c s, P c s → c.peekKind.opens? = none)
    (hf : ∀ u, Climbs Everywhere k (f u)) : Climbs P k (Functor.discard Production.next >>= f) :=
  (drop h).bind (.drop h) hf (Nat.le_of_eq (Nat.zero_add k))

/-- A token of a kind that has been seen. -/
theorem skipToken {t : Token} {kind : Kind} {f : Unit → Production β} (ht : t.kind = kind)
    (hkind : kind.opens? = none) (hf : ∀ u, Climbs Everywhere k (f u)) :
    Climbs (fun c s => P c s ∧ c.peek = t) k (Functor.discard Production.next >>= f) := by
  refine skip (fun c s hc => ?_) hf
  rw [Cursor.peekKind, hc.2, ht]
  exact hkind

/-- Each token opens one bracket at most. -/
theorem advance (n : Nat) : Climbs Everywhere n (Production.advance n) := by
  refine ⟨fun {ctx c s _ _} hc _ hok => ?_⟩
  cases hok
  induction n generalizing c s with
  | zero => exact ⟨s, .refl c (by omega)⟩
  | succ n ih =>
    obtain ⟨s', hpass, hs'⟩ := c.next_passes (s := s) (n := s.held + 1) hc (Nat.le_succ _)
      (s.held_read_le _)
    have hheld : s'.held ≤ s.held + 1 := by
      obtain rfl | ⟨-, rfl⟩ := hs'
      · exact s.held_read_le _
      · exact Nat.le_succ _
    obtain ⟨s'', hpass'⟩ := ih (s := s') (hpass.closed hc) trivial
    exact ⟨s'', (hpass.weaken (by omega)).trans (hpass'.weaken (by omega))⟩

/-- A token of the kind that is asked for. -/
theorem accept {kind : Kind} (h : ∀ c s, P c s → (s.read kind).held ≤ s.held + k) :
    Climbs P k (Production.accept kind) := by
  refine ⟨fun {ctx c s _ _} hc hP hok => ?_⟩
  cases hat : c.isAt kind with
  | true =>
    cases (run_accept_of_isAt ctx hat).symm.trans hok
    refine (next (P := fun c s => P c s ∧ c.peekKind = kind) fun c s hc => ?_).passes hc
      ⟨hP, eq_of_beq hat⟩ (run_next ctx c)
    rw [hc.2]
    exact h c s hc.1
  | false => cases (run_accept_of_not ctx hat).symm.trans hok

/-- A token of the kind that is asked for, if it is there. -/
theorem optional {kind : Kind} (h : ∀ c s, P c s → (s.read kind).held ≤ s.held + k) :
    Climbs P k (Production.optional kind) := by
  refine ⟨fun {ctx c s _ _} hc hP hok => ?_⟩
  cases hat : c.isAt kind with
  | true =>
    cases (run_optional_of_isAt ctx hat).symm.trans hok
    exact (accept (P := P) h).passes hc hP (run_accept_of_isAt ctx hat)
  | false =>
    cases (run_optional_of_not ctx hat).symm.trans hok
    exact ⟨s, .refl c (by omega)⟩

/-- A token that a test lets through. -/
theorem nextIf (test : Cursor → Bool) {cause : String → Cause}
    (h : ∀ c, test c = true → c.peekKind.opens? = none) :
    Climbs P k (do
      if ← Production.asks test then Production.next else Production.failHere cause) :=
  asks fun _ => .ite (fun hb => .next fun c s hc =>
    Nat.le_add_right_of_le (s.held_read_of_not_opens (h c (hc.2.trans hb)))) fun _ => .failHere cause

end Climbs

namespace Rises

instance looks [Looks p] : Rises k p := ⟨.looks⟩

instance fail (cause : Cause) (position : Position) :
    Rises k (Production.fail cause position : Production α) := ⟨.fail ..⟩

instance failHere (cause : String → Cause) :
    Rises k (Production.failHere cause : Production α) := ⟨.failHere ..⟩

instance bind [hp : Rises k p] [hs : Settles p] [hf : ∀ a, Rises k (f a)] : Rises k (p >>= f) :=
  ⟨hp.climbs.bind hs.leaves (fun a => (hf a).climbs) (Nat.le_of_eq (Nat.zero_add k))⟩

/-- A bracket that may be opened in front counts behind. -/
instance (priority := low) bind_lifts [hp : Rises (k + 1) p] [hl : Lifts p]
    [hf : ∀ a, Rises k (f a)] : Rises (k + 1) (p >>= f) :=
  ⟨hp.climbs.bind hl.leaves (fun a => (hf a).climbs) (Nat.le_of_eq (Nat.add_comm 1 k))⟩

instance bind_pure {f : α → β} [hp : Rises k p] : Rises k (p >>= fun a => Pure.pure (f a)) :=
  ⟨hp.climbs.bind_looks⟩

instance map (f : α → β) [Rises k p] : Rises k (f <$> p) := bind_pure

instance discard [Rises k p] : Rises k (Functor.discard p) := map _

instance nested [hp : Rises 4 p] : Rises k (Production.nested p) := ⟨.nested hp.climbs⟩

instance ite {c : Prop} [Decidable c] [hp : Rises k p] [hq : Rises k q] :
    Rises k (if c then p else q) := by
  split
  · exact hp
  · exact hq

instance next : Rises (k + 1) Production.next :=
  ⟨.next fun c s _ => Nat.le_trans (s.held_read_le c.peekKind) (by omega)⟩

instance advance_two : Rises (k + 2) (Production.advance 2) :=
  ⟨(Climbs.advance 2).weaken (Nat.le_add_left 2 k)⟩

instance (priority := low) acceptAny (kind : Kind) : Rises (k + 1) (Production.accept kind) :=
  ⟨.accept fun _ s _ => Nat.le_trans (s.held_read_le kind) (by omega)⟩

instance accept (kind : Kind) [hkind : kind.OpensNone] : Rises k (Production.accept kind) :=
  ⟨.accept fun _ s _ => Nat.le_add_right_of_le (s.held_read_of_not_opens hkind.opens)⟩

instance (priority := low) optionalAny (kind : Kind) : Rises (k + 1) (Production.optional kind) :=
  ⟨.optional fun _ s _ => Nat.le_trans (s.held_read_le kind) (by omega)⟩

instance optional (kind : Kind) [hkind : kind.OpensNone] : Rises k (Production.optional kind) :=
  ⟨.optional fun _ s _ => Nat.le_add_right_of_le (s.held_read_of_not_opens hkind.opens)⟩

instance skips (kind : Kind) [Rises k (Production.optional kind)] :
    Rises k (Production.skips kind) := bind_pure

instance semicolon : Rises k Production.semicolon := by
  unfold Production.semicolon
  infer_instance

instance identifier : Rises k Production.identifier := by
  refine ⟨Climbs.nextIf (·.isAt .identifier) fun c h => ?_⟩
  rw [show c.peekKind = .identifier from eq_of_beq h]
  rfl

instance name : Rises k Production.name :=
  ⟨Climbs.nextIf (·.peekKind.isName) fun _ h =>
    Kind.opens_of_openBehind (Kind.openBehind_of_isName h [])⟩

instance word (w : String) : Rises k (Production.word w) :=
  ⟨Climbs.nextIf (·.peek.isWord w) fun _ h =>
    Kind.opens_of_openBehind (Cursor.openBehind_of_isWord h [])⟩

/-- A word that has been seen is read. -/
instance wordThen {w : String} {f : Unit → Production α} [hf : ∀ u, Rises k (f u)]
    [hq : Rises k q] :
    Rises k (do if ← isAtWord w then Functor.discard Production.next >>= f else q) :=
  ⟨Climbs.asks (h := fun c => c.peek.isWord w) fun _ =>
    .ite (fun hb => .skip (fun _ _ hc =>
      Kind.opens_of_openBehind (Cursor.openBehind_of_isWord (hc.2.trans hb) []))
        fun u => (hf u).climbs) fun _ => .rises⟩

end Rises

/-! ## Repetition -/

/-- A repetition climbs as its rounds do, if those that are not the last leave open what they find. -/
theorem Climbs.loop (going : σ → Cursor → Place → Prop) {step : σ → Production (Turn σ β)}
    (hstep : ∀ t, Climbs (going t) k (step t)) (hleaves : ∀ t, Leaves (going t) 0 (step t))
    (hends : ∀ {t t' : σ} {ctx : Context} {c d : Cursor} {s : Place}, c.Closed → going t c s →
      step t ctx c = .ok (.again t', d) → ∃ n s', c.Passes s n d s' ∧ going t' d s') (t : σ) :
    Climbs (going t) k (Production.loop step t) := by
  have hrounds : ∀ rounds t, Climbs (going t) k (loopFrom step rounds t) := by
    intro rounds
    induction rounds with
    | nil => exact fun t => ⟨fun _ _ hok => nomatch hok⟩
    | cons r rounds ih =>
      refine fun t => ⟨fun {ctx c s b e} hc hgoing hok => ?_⟩
      unfold loopFrom at hok
      obtain ⟨turn, d, hround, hok⟩ := bind_ok.1 hok
      obtain ⟨s', hpass⟩ := (hstep t).passes hc hgoing hround
      obtain ⟨_, _, hpass₁, hheld⟩ := (hleaves t).held_le hc hgoing hround
      cases hpass.unique hpass₁
      cases turn with
      | done b' =>
        cases hok
        exact ⟨s', hpass⟩
      | again t' =>
        obtain ⟨_, _, hpass₂, hgoing'⟩ := hends hc hgoing hround
        cases hpass.unique hpass₂
        obtain ⟨s'', hpass'⟩ := (ih t').passes (hpass.closed hc) hgoing' hok
        exact ⟨s'', hpass.trans (hpass'.weaken (by omega))⟩
  exact ⟨fun {_ c _ _ _} hc hgoing hok => (hrounds (c.last :: c.ahead) t).passes hc hgoing hok⟩

section Repetition

instance Rises.loop {step : σ → Production (Turn σ β)} [hs : ∀ t, Settles (step t)]
    [hstep : ∀ t, Rises k (step t)] (t : σ) : Rises k (Production.loop step t) :=
  ⟨.loop (fun _ => Everywhere) (fun t => (hstep t).climbs) (fun t => (hs t).leaves)
    (fun hc hgoing hok => by
      obtain ⟨s', hpass⟩ := (hstep _).climbs.passes hc hgoing hok
      exact ⟨_, s', hpass, trivial⟩) t⟩

/-- A repetition with what stands behind it. -/
theorem Rises.loopThen {γ : Type} {step : σ → Production (Turn σ β)} {f : β → Production γ}
    (hs : ∀ t, Nests (step t)) (hstep : ∀ t, Rises k (step t)) (hf : ∀ b, Rises k (f b)) (t : σ) :
    Rises k (Production.loop step t >>= f) :=
  bind

theorem Rises.rounds_of {p : Production Bool} (hs : Settles p) (hp : Rises k p) :
    Rises k (Production.rounds p) := by
  unfold Production.rounds
  refine @Rises.loop _ _ _ _ (fun _ => ⟨hs.leaves.bind fun _ => .looks⟩) (fun _ => ?_) ()
  infer_instance

instance Rises.rounds {p : Production Bool} [Nests p] [Rises k p] :
    Rises k (Production.rounds p) :=
  .rounds_of inferInstance inferInstance

instance Rises.separated [Nests p] [Rises k p] : Rises k (Production.separated p) := by
  unfold Production.separated
  dsimp only
  infer_instance

instance Rises.listed (close : Mark) [Kind.OpensNone (.mark close)] [Nests p] [Rises k p] :
    Rises k (Production.listed close p) := by
  unfold Production.listed
  dsimp only
  refine loopThen (fun items => ?_) (fun items => ?_) (fun items => inferInstance) []
  all_goals infer_instance

end Repetition

end Production

end ScriptFront
