import ScriptFront.Proofs.Erasure.Pace

/-!
# Getting to an insertion

A production that may read the insertion stands behind one that gets there. Only a token that the insertion
may stand behind leads to the place, and what reads nothing more at the place reads nothing at the insertion.
-/

namespace ScriptFront.Production

variable {α β σ : Type} {P : Insertion} {p q p' : Production α}

/-! ## Getting to the insertion -/

namespace Arrives

/-- Nothing gets to the place that does not read. -/
instance of_looks [hp : Looks p] : Arrives P p q p' := by
  refine ⟨fun {front} _ hne ctx a hok => ?_⟩
  exact absurd (Insertion.eq_nil_of_without (hp.stays hok).symm) hne

instance of_fails [hp : Fails p] : Arrives P p q p' := ⟨fun _ _ _ _ h => absurd h hp.fails⟩

instance ite {c : Prop} [Decidable c] {r rq r' : Production α} [hp : Arrives P p q p']
    [hr : Arrives P r rq r'] :
    Arrives P (if c then p else r) (if c then q else rq) (if c then p' else r') := by
  split
  · exact hp
  · exact hr

instance nested [hp : Arrives P p q p'] :
    Arrives P (Production.nested p) (Production.nested q) (Production.nested p') := by
  refine ⟨fun {front} hfront hne ctx a hok => ?_⟩
  have hdepth := Tracks.nested_ok hok
  rw [run_nested _ _ hdepth] at hok ⊢
  rw [run_nested _ _ hdepth]
  exact hp.arrives hfront hne hok

/-- What is looked at does not matter for where the rest gets. -/
instance bind_looks {f fq f' : α → Production β} [hl : Looks p] [hp : Tracks P p q p']
    [hf : ∀ a, Arrives P (f a) (fq a) (f' a)] : Arrives P (p >>= f) (q >>= fq) (p' >>= f') := by
  refine ⟨fun {front} hfront hne ctx b hok => ?_⟩
  obtain ⟨a, d, hpa, hfa⟩ := bind_ok.1 hok
  cases hl.stays hpa
  obtain ⟨hq, hp'⟩ := (hp.before hfront hne hpa).of_before hne
  obtain ⟨hfits, hfq, hf'⟩ := (hf a).arrives hfront hne hfa
  exact ⟨hfits, (run_bind_of_ok hq).trans hfq, (run_bind_of_ok (hp' hfits)).trans hf'⟩

/-- Where the last production reads something, it is the one that gets to the place. -/
instance bind_last {f fq f' : α → Production β} [hp : Meets P p q p']
    [hr : ∀ a, Consumes (f a)] [hf : ∀ a, Arrives P (f a) (fq a) (f' a)] :
    Arrives P (p >>= f) (q >>= fq) (p' >>= f') := by
  refine ⟨fun {front} hfront hne ctx b hok => ?_⟩
  obtain ⟨a, d, hpa, hfa⟩ := bind_ok.1 hok
  have hpast : ∀ rest, rest <:+ P.behind.ahead → d ≠ P.past rest := by
    rintro rest hrest rfl
    have hread := ((hr a).reads.reaches (P.past_closed rest) hfa).remaining_le
    have := hrest.length_le
    simp only [Cursor.remaining, Insertion.past] at hread
    omega
  cases hp.before hfront (absurd · hne) hpa with
  | before front' hsuffix hd hq hp' =>
    subst hd
    have hne' : front' ≠ [] := by
      rintro rfl
      exact hpast _ (List.suffix_refl _) rfl
    obtain ⟨hfits, hfq, hf'⟩ := (hf a).arrives (hsuffix.trans hfront) hne' hfa
    exact ⟨hfits, (run_bind_of_ok hq).trans hfq, (run_bind_of_ok (hp' hfits)).trans hf'⟩
  | missed rest hrest hd _ => exact absurd hd (hpast rest hrest)
  | visited rest hrest hd _ _ => exact absurd hd (hpast rest hrest)

/-- Where the last production stays at the place, the one before it gets there. -/
instance bind_stay {f fq f' : α → Production β} [hp : Tracks P p q p'] [ha : Arrives P p q p']
    [ht : ∀ a, Tracks P (f a) (fq a) (f' a)] [hf : ∀ a, Arrives P (f a) (fq a) (f' a)]
    [hs : ∀ a, Stays P (f a) (f' a)] : Arrives P (p >>= f) (q >>= fq) (p' >>= f') := by
  refine ⟨fun {front} hfront hne ctx b hok => ?_⟩
  obtain ⟨a, d, hpa, hfa⟩ := bind_ok.1 hok
  have hpast : ∀ rest, rest <:+ P.behind.ahead → d = P.past rest → rest = P.behind.ahead := by
    rintro rest hrest rfl
    obtain ⟨⟨rest', hrest', hd⟩, -⟩ := (ht a).after hrest hfa
    cases Insertion.past_inj hd
    exact hrest.eq_of_length_le hrest'.length_le
  have hplace : d = P.behind → P.Fits ∧ (q >>= fq) ctx (P.without front) = .ok (b, P.behind) ∧
      (p' >>= f') ctx (P.within front) = .ok (b, P.within []) := by
    rintro rfl
    obtain ⟨hfits, hq, hp'⟩ := ha.arrives hfront hne hpa
    obtain ⟨-, hq'⟩ := (ht a).after (List.suffix_refl _) hfa
    exact ⟨hfits, (run_bind_of_ok hq).trans hq', (run_bind_of_ok hp').trans ((hs a).stays hfa)⟩
  cases hp.before hfront hne hpa with
  | before front' hsuffix hd hq hp' =>
    rcases List.eq_nil_or_concat front' with rfl | ⟨init, s, rfl⟩
    · exact hplace hd
    · subst hd
      obtain ⟨hfits, hfq, hf'⟩ := (hf a).arrives (hsuffix.trans hfront) (by simp) hfa
      exact ⟨hfits, (run_bind_of_ok hq).trans hfq, (run_bind_of_ok (hp' hfits)).trans hf'⟩
  | missed rest hrest hd _ => exact hplace (hd.trans (congrArg P.past (hpast rest hrest hd)))
  | visited rest hrest hd _ _ => exact hplace (hd.trans (congrArg P.past (hpast rest hrest hd)))

/-- The token that gets to the place must be one that the insertion may stand behind. -/
theorem nextThen {h : Cursor → Bool} {failing : Production Token} [hp : Fails failing]
    (hleads : ∀ c, h c = true → c.peekKind.leadsOn = false)
    (hlook : ∀ s front, h (P.without (s :: front)) = h (P.within (s :: front))) :
    Arrives P (do if ← asks h then next else failing) (do if ← asks h then next else failing)
      (do if ← asks h then next else failing) := by
  refine ⟨fun {front} hfront hne ctx a hok => ?_⟩
  obtain ⟨s, front, rfl⟩ := List.exists_cons_of_ne_nil hne
  have heq := hlook s front
  rw [run_asks_bind] at hok ⊢
  rw [run_asks_bind, ← heq]
  cases hs : h (P.without (s :: front)) with
  | false =>
    rw [hs] at hok
    exact absurd hok hp.fails
  | true =>
    rw [hs] at hok
    simp only [if_true] at hok ⊢
    have hnext : (P.without (s :: front)).next = P.behind := congrArg Prod.snd (Except.ok.inj hok)
    rw [Insertion.next_without hfront] at hnext
    cases Insertion.eq_nil_of_without hnext
    refine ⟨Insertion.fits_of_suffix hfront (hleads _ hs), hok, ?_⟩
    have ha : s.token = a := congrArg Prod.fst (Except.ok.inj hok)
    unfold next
    rw [Insertion.next_within hfront, ← ha]
    rfl

theorem accept {k : Kind} (hk : k.leadsOn = false) :
    Arrives P (Production.accept k) (Production.accept k) (Production.accept k) := by
  rw [accept_eq]
  refine nextThen (h := fun c => c.isAt k) (fun c h => ?_) fun _ _ => rfl
  rw [show c.peekKind = k from eq_of_beq h]
  exact hk

instance accept_closeParen : Arrives P (Production.accept (.mark .closeParen))
    (Production.accept (.mark .closeParen)) (Production.accept (.mark .closeParen)) := accept rfl

instance accept_closeBracket : Arrives P (Production.accept (.mark .closeBracket))
    (Production.accept (.mark .closeBracket)) (Production.accept (.mark .closeBracket)) := accept rfl

instance accept_closeBrace : Arrives P (Production.accept (.mark .closeBrace))
    (Production.accept (.mark .closeBrace)) (Production.accept (.mark .closeBrace)) := accept rfl

instance identifier :
    Arrives P Production.identifier Production.identifier Production.identifier := by
  refine nextThen (h := fun c => c.isAt .identifier) (fun c h => ?_) fun _ _ => rfl
  rw [show c.peekKind = .identifier from eq_of_beq h]
  rfl

instance name : Arrives P Production.name Production.name Production.name := by
  refine nextThen (h := fun c => c.peekKind.isName) (fun c h => ?_) fun _ _ => rfl
  revert h
  cases c.peekKind with
  | mark m => exact fun h => nomatch h
  | _ => exact fun _ => rfl

end Arrives

/-- A case split on the current token gets to the place if its cases do. -/
theorem Arrives.peek_bind {f fq f' : Token → Production α}
    (hf : ∀ (s : Stop) (front : List Stop), (s :: front) <:+ P.before →
      ArrivesFrom P (s :: front) (f s.token) (fq s.token) (f' s.token)) :
    Arrives P (peek >>= f) (peek >>= fq) (peek >>= f') := by
  refine ⟨fun {front} hfront hne ctx a hok => ?_⟩
  obtain ⟨s, front, rfl⟩ := List.exists_cons_of_ne_nil hne
  exact hf s front hfront hok

/-- A token that the insertion may stand behind is read, and then what stays at the place. -/
theorem Arrives.discard_next_bind {s : Stop} {front : List Stop} {f fq f' : Unit → Production α}
    (hfront : (s :: front) <:+ P.before) (hs : s.token.kind.leadsOn = false)
    [ht : Tracks P (f ()) (fq ()) (f' ())] [hf : Arrives P (f ()) (fq ()) (f' ())]
    [hstay : Stays P (f ()) (f' ())] :
    ArrivesFrom P (s :: front) (discard next >>= f) (discard next >>= fq) (discard next >>= f') := by
  intro ctx a hok
  rw [run_discard_next_bind, Insertion.next_without hfront] at hok ⊢
  rw [run_discard_next_bind, Insertion.next_within hfront]
  rcases List.eq_nil_or_concat front with rfl | ⟨init, t, rfl⟩
  · exact ⟨Insertion.fits_of_suffix hfront hs, (ht.passes.passes hok).2, hstay.stays hok⟩
  · exact hf.arrives ((List.suffix_cons s _).trans hfront) (by simp) hok

/-! ## Staying at the insertion -/

namespace Stays

instance pure (a : α) : Stays P (Pure.pure a) (Pure.pure a) := by
  refine ⟨fun {ctx b} hok => ?_⟩
  cases hok
  rfl

instance of_fails [hp : Fails p] : Stays P p p' := ⟨fun h => absurd h hp.fails⟩

theorem ne_of_consumes (hp : Consumes p) {ctx : Context} {c : Cursor} {a : α} (hc : c.Closed) :
    p ctx c ≠ .ok (a, c) := by
  intro hok
  have hread := (hp.reads.reaches hc hok).remaining_le
  omega

instance (priority := low) of_consumes [hp : Consumes p] : Stays P p p' :=
  ⟨fun hok => absurd hok (ne_of_consumes hp P.behind_closed)⟩

instance bind {f f' : α → Production β} [hp : Advances p] [hs : Stays P p p']
    [ht : ∀ a, Advances (f a)] [hf : ∀ a, Stays P (f a) (f' a)] :
    Stays P (p >>= f) (p' >>= f') := by
  refine ⟨fun {ctx b} hok => ?_⟩
  obtain ⟨a, d, hpa, hfa⟩ := bind_ok.1 hok
  have hpd := hp.reads.reaches P.behind_closed hpa
  have hd := Insertion.eq_past_of_reaches hpd ((ht a).reads.reaches (hpd.closed P.behind_closed) hfa)
  subst hd
  exact (run_bind_of_ok (hs.stays hpa)).trans ((hf a).stays hfa)

instance map (f : α → β) [Advances p] [Stays P p p'] : Stays P (f <$> p) (f <$> p') :=
  inferInstanceAs (Stays P (p >>= fun a => Pure.pure (f a)) (p' >>= fun a => Pure.pure (f a)))

instance discard [Advances p] [Stays P p p'] : Stays P (Functor.discard p) (Functor.discard p') :=
  map (fun _ => PUnit.unit)

/-- No question mark is inserted. -/
instance optional_question : Stays P (optional (.mark .question)) (optional (.mark .question)) := by
  refine ⟨fun {ctx a} hok => ?_⟩
  have hinserted : (P.within []).isAt (.mark .question) = false := by
    rw [Cursor.isAt, beq_eq_false_iff_ne]
    exact Insertion.opening_isAt (by simp) (by simp)
  rw [run_optional_of_not ctx hinserted]
  cases hbehind : P.behind.isAt (.mark .question) with
  | false =>
    rw [run_optional_of_not ctx hbehind] at hok
    cases hok
    rfl
  | true =>
    rw [run_optional_of_isAt ctx hbehind] at hok
    have hone := Cursor.next_reaches_one P.behind_closed
      (by rw [eq_of_beq hbehind]; simp)
    have hnext : P.behind.next = P.behind := congrArg Prod.snd (Except.ok.inj hok)
    have hread := hone.remaining_le
    rw [hnext] at hread
    omega

instance skips_question : Stays P (skips (.mark .question)) (skips (.mark .question)) := by
  unfold skips
  infer_instance

end Stays

namespace Arrives

instance map (f : α → β) [Tracks P p q p'] [Arrives P p q p'] :
    Arrives P (f <$> p) (f <$> q) (f <$> p') :=
  inferInstanceAs
    (Arrives P (p >>= fun a => Pure.pure (f a)) (q >>= fun a => Pure.pure (f a))
      (p' >>= fun a => Pure.pure (f a)))

instance discard [Tracks P p q p'] [Arrives P p q p'] :
    Arrives P (Functor.discard p) (Functor.discard q) (Functor.discard p') :=
  map (fun _ => PUnit.unit)

instance optional_question : Arrives P (optional (.mark .question)) (optional (.mark .question))
    (optional (.mark .question)) := by
  have haccept : Arrives P (Production.accept (.mark .question))
      (Production.accept (.mark .question)) (Production.accept (.mark .question)) := accept rfl
  refine ⟨fun {front} hfront hne ctx a hok => ?_⟩
  obtain ⟨s, front, rfl⟩ := List.exists_cons_of_ne_nil hne
  cases hat : (P.without (s :: front)).isAt (.mark .question) with
  | false =>
    rw [run_optional_of_not ctx hat] at hok
    exact absurd (Insertion.eq_nil_of_without (congrArg Prod.snd (Except.ok.inj hok))) hne
  | true =>
    have hat' : (P.within (s :: front)).isAt (.mark .question) = true := hat
    rw [run_optional_of_isAt ctx hat] at hok ⊢
    have ha : some s.token = a := congrArg Prod.fst (Except.ok.inj hok)
    have hnext : (P.without (s :: front)).next = P.behind := congrArg Prod.snd (Except.ok.inj hok)
    have haccepted : Production.accept (.mark .question) ctx (P.without (s :: front)) =
        .ok (s.token, P.behind) := by
      rw [run_accept_of_isAt ctx hat, hnext]
      rfl
    obtain ⟨hfits, -, hp'⟩ := haccept.arrives hfront hne haccepted
    rw [run_accept_of_isAt ctx hat'] at hp'
    refine ⟨hfits, hok, ?_⟩
    have hnext' : (P.within (s :: front)).next = P.within [] := congrArg Prod.snd (Except.ok.inj hp')
    rw [run_optional_of_isAt ctx hat', ← ha, hnext']
    rfl

instance skips_question : Arrives P (skips (.mark .question)) (skips (.mark .question))
    (skips (.mark .question)) := by
  unfold skips
  infer_instance

end Arrives

/-! ## Repetition -/

namespace Arrives

instance listed_closeBracket [Tracks P p q p'] :
    Arrives P (listed .closeBracket p) (listed .closeBracket q) (listed .closeBracket p') := by
  unfold listed
  infer_instance

instance listed_closeBrace [Tracks P p q p'] :
    Arrives P (listed .closeBrace p) (listed .closeBrace q) (listed .closeBrace p') := by
  unfold listed
  infer_instance

end Arrives

section Loop

variable {step stepq step' : σ → Production (Turn σ β)}

theorem Stays.loopFrom [hs : ∀ s, Stays P (step s) (step' s)] [∀ s, Advances (step s)]
    (rounds rounds' : List Stop) (hrounds : rounds.length ≤ rounds'.length) (s : σ) :
    Stays P (Production.loopFrom step rounds s) (Production.loopFrom step' rounds' s) := by
  induction rounds generalizing rounds' s with
  | nil =>
    unfold Production.loopFrom
    infer_instance
  | cons _ rounds ih =>
    cases rounds' with
    | nil => exact absurd hrounds (Nat.not_succ_le_zero _)
    | cons _ rounds' =>
      have hle := Nat.le_of_succ_le_succ hrounds
      unfold Production.loopFrom
      refine @Stays.bind _ _ _ _ _ _ _ _ (hs s) (fun t => ?_) (fun t => ?_)
      · cases t with
        | again s => exact .loopFrom rounds s
        | done b => exact .pure b
      · cases t with
        | again s => exact ih rounds' hle s
        | done b => exact .pure b

instance Stays.loop [∀ s, Stays P (step s) (step' s)] [∀ s, Advances (step s)] (s : σ) :
    Stays P (Production.loop step s) (Production.loop step' s) := by
  refine ⟨fun {ctx a} hok => ?_⟩
  have hlength : (P.behind.last :: P.behind.ahead).length ≤
      (P.moved.last :: P.opening :: (P.type ++ P.moved.ahead)).length := by
    simp only [List.length_cons, List.length_append, P.alike.length]
    omega
  exact (loopFrom _ _ hlength s).stays hok

variable [∀ s, Tracks P (step s) (stepq s) (step' s)] [ha : ∀ s, Arrives P (step s) (stepq s) (step' s)]
  [∀ s, Stays P (step s) (step' s)] [∀ s, Advances (step s)]

/-- A repetition gets to the insertion in a round, if no round goes on from there. -/
theorem Arrives.loopFrom (rounds rounds' : List Stop) (hrounds : rounds.length ≤ rounds'.length)
    (s : σ) : Arrives P (Production.loopFrom step rounds s) (Production.loopFrom stepq rounds s)
      (Production.loopFrom step' rounds' s) := by
  induction rounds generalizing rounds' s with
  | nil =>
    unfold Production.loopFrom
    infer_instance
  | cons _ rounds ih =>
    cases rounds' with
    | nil => exact absurd hrounds (Nat.not_succ_le_zero _)
    | cons _ rounds' =>
      have hle := Nat.le_of_succ_le_succ hrounds
      unfold Production.loopFrom
      refine @Arrives.bind_stay _ _ _ _ _ _ _ _ _ _ (ha s) (fun t => ?_) (fun t => ?_) (fun t => ?_)
      · cases t with
        | again s => exact .loopFrom rounds rounds' hle s
        | done b => exact .pure b
      · cases t with
        | again s => exact ih rounds' hle s
        | done b => exact .of_looks
      · cases t with
        | again s => exact .loopFrom rounds rounds' hle s
        | done b => exact .pure b

instance Arrives.loop (s : σ) :
    Arrives P (Production.loop step s) (Production.loop stepq s) (Production.loop step' s) := by
  refine ⟨fun {front} hfront hne ctx a hok => ?_⟩
  have hlength : (P.behind.last :: (front ++ P.behind.ahead)).length ≤
      (P.moved.last :: (front ++ P.opening :: (P.type ++ P.moved.ahead))).length := by
    simp only [List.length_cons, List.length_append, P.alike.length]
    omega
  exact (loopFrom _ _ hlength s).arrives hfront hne hok

end Loop

end ScriptFront.Production
