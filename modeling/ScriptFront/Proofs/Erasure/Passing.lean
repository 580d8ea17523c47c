import ScriptFront.Proofs.Erasure.Pace

/-!
# Getting past the place of an insertion

Where a reading passes the place without a reading that is refused, the place is missed, and what the
production would see with the insertion does not matter. So a look ahead may go wrong close to the place if
everything that is looked at is read afterwards.
-/

namespace ScriptFront.Production

variable {α β σ : Type} {P : Insertion} {p q p' : Production α}

/-! ## Getting past the place -/

namespace Carries

variable {front front' front'' : List Stop}

theorem bind {f fq f' : α → Production β} (hp : Carries P front front' p q p')
    (hf : ∀ a, Carries P front' front'' (f a) (fq a) (f' a))
    [ht : ∀ a, Tracks P (f a) (fq a) (f' a)] :
    Carries P front front'' (p >>= f) (q >>= fq) (p' >>= f') := by
  refine ⟨fun {ctx b e} hok => ?_⟩
  obtain ⟨a, d, hpa, hfa⟩ := bind_ok.1 hok
  obtain ⟨hd, hq⟩ := hp.carries hpa
  rw [run_bind_of_ok hq]
  rcases hd with rfl | ⟨rest, hrest, rfl⟩
  · exact (hf a).carries hfa
  · obtain ⟨⟨rest', hrest', he⟩, hq'⟩ := (ht a).after hrest hfa
    exact ⟨.inr ⟨rest', hrest'.trans hrest, he⟩, hq'⟩

/-- Behind what passes the place, it stays passed. -/
theorem bind_left {f fq f' : α → Production β} (hp : Passes P front p q p')
    [hf : ∀ a, Tracks P (f a) (fq a) (f' a)] :
    Passes P front (p >>= f) (q >>= fq) (p' >>= f') :=
  hp.bind fun a => (hf a).passes

theorem pure (a : α) : Carries P front front (Pure.pure a) (Pure.pure a) (Pure.pure a) := by
  refine ⟨fun hok => ?_⟩
  cases hok
  exact ⟨.inl rfl, rfl⟩

/-- What is read before the place does not pass it, but leads there. -/
theorem discard_next_bind {s : Stop} {f fq f' : Unit → Production β}
    (hfront : (s :: front) <:+ P.before) (hf : Carries P front front' (f ()) (fq ()) (f' ())) :
    Carries P (s :: front) front' (Functor.discard next >>= f) (Functor.discard next >>= fq)
      (Functor.discard next >>= f') := by
  refine ⟨fun {ctx b e} hok => ?_⟩
  rw [run_discard_next_bind, Insertion.next_without hfront] at hok ⊢
  exact hf.carries hok

theorem skips_bind {s : Stop} {f fq f' : Bool → Production β} (hfront : (s :: front) <:+ P.before)
    (hf : Carries P front front' (f true) (fq true) (f' true)) :
    Carries P (s :: front) front' (skips s.token.kind >>= f) (skips s.token.kind >>= fq)
      (skips s.token.kind >>= f') := by
  refine ⟨fun {ctx b e} hok => ?_⟩
  have hat : (P.without (s :: front)).isAt s.token.kind = true := beq_self_eq_true s.token.kind
  rw [run_bind_of_ok (run_skips_of_isAt ctx hat), Insertion.next_without hfront] at hok ⊢
  exact hf.carries hok

/-- What is looked at is seen, and nothing is read. -/
theorem of_run (h : ∀ ctx, ∃ a, p ctx (P.without front) = .ok (a, P.without front') ∧
    q ctx (P.without front) = .ok (a, P.without front')) : Carries P front front' p q p' := by
  refine ⟨fun {ctx a d} hok => ?_⟩
  obtain ⟨b, hp, hq⟩ := h ctx
  rw [hp] at hok
  cases hok
  exact ⟨.inl rfl, hq⟩

theorem peek_bind {f fq f' : Token → Production β}
    (hf : Carries P front front' (f (P.without front).peek) (fq (P.without front).peek)
      (f' (P.without front).peek)) :
    Carries P front front' (peek >>= f) (peek >>= fq) (peek >>= f') :=
  ⟨fun hok => hf.carries hok⟩

theorem peekKind_bind {f fq f' : Kind → Production β}
    (hf : Carries P front front' (f (P.without front).peekKind) (fq (P.without front).peekKind)
      (f' (P.without front).peekKind)) :
    Carries P front front' (peekKind >>= f) (peekKind >>= fq) (peekKind >>= f') :=
  ⟨fun hok => hf.carries hok⟩

theorem asks_bind {h : Cursor → α} {f fq f' : α → Production β}
    (hf : Carries P front front' (f (h (P.without front))) (fq (h (P.without front)))
      (f' (h (P.without front)))) :
    Carries P front front' (asks h >>= f) (asks h >>= fq) (asks h >>= f') :=
  ⟨fun hok => hf.carries hok⟩

theorem of_fails [hp : Fails p] : Carries P front front' p q p' := ⟨fun h => absurd h hp.fails⟩

theorem nested (hp : Carries P front front' p q p') :
    Carries P front front' (Production.nested p) (Production.nested q) (Production.nested p') := by
  refine ⟨fun {ctx a d} hok => ?_⟩
  have hdepth := Tracks.nested_ok hok
  rw [run_nested _ _ hdepth] at hok ⊢
  exact hp.carries hok

/-- A production that refuses nothing passes the place if it reads that far. -/
theorem of_reads {n : Nat} (hp : ReadsInside (fun _ => n) p) (hfront : front <:+ P.before)
    (hne : front ≠ []) (hn : front.length ≤ n) : Passes P front p p p' := by
  refine .of_passes fun {ctx a d} hok => ⟨?_, hok⟩
  have hread := hp.reaches (P.without_closed front) (Insertion.peekKind_without hfront hne) hok
  exact Insertion.exists_past hread hn

end Carries

/-- Whether the place is passed from at most `n` tokens before it. -/
class Clears (P : Insertion) (n : Nat) (p q p' : Production α) : Prop where
  passes : ∀ {front : List Stop}, front <:+ P.before → front.length ≤ n → Passes P front p q p'

namespace Clears

variable {n : Nat}

instance of_tracks [hp : Tracks P p q p'] : Clears P 0 p q p' := by
  refine ⟨fun _ hn => ?_⟩
  cases List.length_eq_zero_iff.1 (Nat.le_zero.1 hn)
  exact hp.passes

instance of_fails [Fails p] : Clears P n p q p' := ⟨fun _ _ => .of_fails⟩

theorem mono {m : Nat} (hp : Clears P n p q p') (h : m ≤ n) : Clears P m p q p' :=
  ⟨fun hfront hm => hp.passes hfront (Nat.le_trans hm h)⟩

/-- A token that is read counts. -/
theorem bind_of_reads {k : Nat} {f fq f' : α → Production β} [hp : Tracks P p p p']
    (hr : ReadsInside (fun _ => k) p) [ht : ∀ a, Tracks P (f a) (fq a) (f' a)]
    (hf : ∀ a, Clears P n (f a) (fq a) (f' a)) :
    Clears P (n + k) (p >>= f) (p >>= fq) (p' >>= f') := by
  refine ⟨fun {front} hfront hn => .of_passes fun {ctx b e} hok => ?_⟩
  obtain ⟨a, d, hpa, hfa⟩ := bind_ok.1 hok
  rw [run_bind_of_ok hpa]
  have hpast : ∀ rest, rest <:+ P.behind.ahead → d = P.past rest →
      (∃ rest, rest <:+ P.behind.ahead ∧ e = P.past rest) ∧ fq a ctx d = .ok (b, e) := by
    rintro rest hrest rfl
    obtain ⟨⟨rest', hrest', he⟩, hq⟩ := (ht a).after hrest hfa
    exact ⟨⟨rest', hrest'.trans hrest, he⟩, hq⟩
  rcases List.eq_nil_or_concat front with rfl | ⟨init, s, rfl⟩
  · obtain ⟨⟨rest, hrest, hd⟩, -⟩ := hp.after (List.suffix_refl _) hpa
    exact hpast rest hrest hd
  · cases hp.before hfront (by simp) hpa with
    | before front' hsuffix hd _ _ =>
      subst hd
      have hread := (hr.reaches (P.without_closed _)
        (Insertion.peekKind_without hfront (by simp)) hpa).remaining_le
      simp only [Cursor.remaining, Insertion.without, Insertion.past, List.length_append] at hread
      refine ((hf a).passes (hsuffix.trans hfront) ?_).passes hfa
      simp only [List.concat_eq_append, List.length_append] at hn hread ⊢
      omega
    | missed rest hrest hd _ => exact hpast rest hrest hd
    | visited rest hrest hd _ _ => exact hpast rest hrest hd

instance bind_reads {f fq f' : α → Production β} [Tracks P p p p'] [hr : ConsumesInside p]
    [∀ a, Tracks P (f a) (fq a) (f' a)] [hf : ∀ a, Clears P n (f a) (fq a) (f' a)] :
    Clears P (n + 1) (p >>= f) (p >>= fq) (p' >>= f') :=
  bind_of_reads hr.reads hf

instance (priority := low) bind_left {f fq f' : α → Production β} [hp : Clears P n p q p']
    [∀ a, Tracks P (f a) (fq a) (f' a)] : Clears P n (p >>= f) (q >>= fq) (p' >>= f') :=
  ⟨fun hfront hn => .bind_left (hp.passes hfront hn)⟩

instance (priority := low) bind {f fq f' : α → Production β} [Tracks P p p p'] [hr : Advances p]
    [∀ a, Tracks P (f a) (fq a) (f' a)] [hf : ∀ a, Clears P n (f a) (fq a) (f' a)] :
    Clears P n (p >>= f) (p >>= fq) (p' >>= f') :=
  bind_of_reads hr.reads.inside hf

instance nested [hp : Clears P n p q p'] :
    Clears P n (Production.nested p) (Production.nested q) (Production.nested p') :=
  ⟨fun hfront hn => .nested (hp.passes hfront hn)⟩

instance peek_bind {f fq f' : Token → Production β} [hf : ∀ t, Clears P n (f t) (fq t) (f' t)] :
    Clears P n (peek >>= f) (peek >>= fq) (peek >>= f') :=
  ⟨fun hfront hn => .peek_bind ((hf _).passes hfront hn)⟩

instance peekKind_bind {f fq f' : Kind → Production β} [hf : ∀ k, Clears P n (f k) (fq k) (f' k)] :
    Clears P n (peekKind >>= f) (peekKind >>= fq) (peekKind >>= f') :=
  ⟨fun hfront hn => .peekKind_bind ((hf _).passes hfront hn)⟩

instance asks_bind {h : Cursor → α} {f fq f' : α → Production β}
    [hf : ∀ a, Clears P n (f a) (fq a) (f' a)] :
    Clears P n (asks h >>= f) (asks h >>= fq) (asks h >>= f') :=
  ⟨fun hfront hn => .asks_bind ((hf _).passes hfront hn)⟩

instance ite {c : Prop} [Decidable c] {r rq r' : Production α} [hp : Clears P n p q p']
    [hr : Clears P n r rq r'] :
    Clears P n (if c then p else r) (if c then q else rq) (if c then p' else r') := by
  split
  · exact hp
  · exact hr

end Clears

/-! ## Looking ahead -/

/-- A look that does not tell the two sides apart keeps pace, and so does one that goes wrong where the
place is passed. -/
theorem Pace.asks_bind {h : Cursor → β} {f fq f' : β → Production α} {ctx : Context}
    {front : List Stop} {a : α} {d : Cursor} (hfront : front <:+ P.before) (hne : front ≠ [])
    [hf : ∀ b, Tracks P (f b) (fq b) (f' b)]
    (hlook : P.Fits → h (P.without front) = h (P.within front) ∨
      Passes P front (f (h (P.without front))) (fq (h (P.without front))) (f' (h (P.without front))))
    (hok : (asks h >>= f) ctx (P.without front) = .ok (a, d)) :
    Pace P front a d ((asks h >>= fq) ctx (P.without front))
      ((asks h >>= f') ctx (P.within front)) := by
  have htracks := (hf (h (P.without front))).before hfront hne hok
  by_cases hfits : P.Fits
  · rcases hlook hfits with heq | hpasses
    · rw [run_asks_bind, run_asks_bind, ← heq]
      exact htracks
    · exact hpasses.pace hok
  · rw [run_asks_bind]
    cases htracks with
    | before front' hsuffix hd hq _ => exact .before front' hsuffix hd hq fun h => absurd h hfits
    | missed rest hrest hd hq => exact .missed rest hrest hd hq
    | visited _ _ _ h _ => exact absurd h hfits

theorem Tracks.asks_bind {h : Cursor → β} {f fq f' : β → Production α}
    [hf : ∀ b, Tracks P (f b) (fq b) (f' b)]
    (halike : ∀ {c c' : Cursor}, c.Alike c' → h c = h c')
    (hlook : P.Fits → ∀ front, front <:+ P.before → front ≠ [] →
      h (P.without front) = h (P.within front) ∨
      Passes P front (f (h (P.without front))) (fq (h (P.without front)))
        (f' (h (P.without front)))) :
    Tracks P (Production.asks h >>= f) (Production.asks h >>= fq) (Production.asks h >>= f') where
  before := fun hfront hne hok => .asks_bind hfront hne (fun hfits => hlook hfits _ hfront hne) hok
  after := fun hrest hok => (hf _).after hrest hok
  plain := by
    intro ctx c c' a d hc hok
    rw [run_asks_bind] at hok ⊢
    rw [← halike hc]
    exact (hf _).plain hc hok

/-- A look that sees the same on both sides from farther than `n` tokens, and only from there matters. -/
theorem Tracks.asks_bind_clears {h : Cursor → β} {f fq f' : β → Production α} {n : Nat}
    [hf : ∀ b, Tracks P (f b) (fq b) (f' b)]
    (halike : ∀ {c c' : Cursor}, c.Alike c' → h c = h c')
    (hlook : P.Fits → ∀ front, front <:+ P.before → front ≠ [] →
      h (P.without front) = h (P.within front) ∨ front.length ≤ n ∧
        Clears P n (f (h (P.without front))) (fq (h (P.without front))) (f' (h (P.without front)))) :
    Tracks P (Production.asks h >>= f) (Production.asks h >>= fq) (Production.asks h >>= f') :=
  .asks_bind halike fun hfits front hfront hne =>
    (hlook hfits front hfront hne).imp_right fun h => h.2.passes hfront h.1

/-- A look at `n + 1` tokens does not matter if `n` of them are read afterwards and nothing is refused. -/
theorem Tracks.asks_bind_reads {h : Cursor → β} {f f' : β → Production α} {n : Nat}
    [hf : ∀ b, Tracks P (f b) (f b) (f' b)] (hr : ∀ b, ReadsInside (fun _ => n) (f b))
    (halike : ∀ {c c' : Cursor}, c.Alike c' → h c = h c')
    (hlook : ∀ front, n < front.length → h (P.without front) = h (P.within front)) :
    Tracks P (Production.asks h >>= f) (Production.asks h >>= f) (Production.asks h >>= f') := by
  refine .asks_bind halike fun _ front hfront hne => ?_
  by_cases hn : n < front.length
  · exact .inl (hlook front hn)
  · exact .inr (.of_reads (hr _) hfront hne (Nat.not_lt.1 hn))

end ScriptFront.Production
