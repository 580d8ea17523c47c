import ScriptFront.Proofs.Erasure.Insertion

/-!
# Reading with and without an insertion

Two token lists that differ by an insertion are read side by side. Up to the place of the insertion both
readings do the same. Behind it they do the same again if the production at the place reads what is
inserted and nothing else. Otherwise the place is missed: the reading does not depend on whether the
place would have been read.

A third reading tells the two ways apart. It refuses the productions that could read the insertion at the
place.
-/

namespace ScriptFront.Production

variable {α β σ : Type}

/-- Whether a reading ends because it is nested too deep. -/
def TooDeep (r : Except Error α) : Prop := ∃ position, r = .error ⟨.nestingTooDeep, position⟩

/-- Whether a reading answers `a` and ends at `d`, comments aside. -/
def EndsLike (r : Except Error (α × Cursor)) (a : α) (d : Cursor) : Prop :=
  ∃ d', d.Alike d' ∧ r = .ok (a, d')

/-- How two other readings from before the place end when the reading without the insertion answers `a`
and ends at `d`: `refused` does not read at the place, and `inserted` reads the insertion. -/
inductive Pace (P : Insertion) (front : List Stop) (a : α) (d : Cursor)
    (refused inserted : Except Error (α × Cursor)) : Prop
  /-- The place is not reached, or just reached. -/
  | before (front' : List Stop) (hsuffix : front' <:+ front) (hd : d = P.without front')
      (hrefused : refused = .ok (a, d)) (hinserted : P.Fits → inserted = .ok (a, P.within front'))
  /-- Nothing is read at the place that could read the insertion. -/
  | missed (rest : List Stop) (hrest : rest <:+ P.behind.ahead) (hd : d = P.past rest)
      (hrefused : refused = .ok (a, d))
  /-- The insertion is read at the place. -/
  | visited (rest : List Stop) (hrest : rest <:+ P.behind.ahead) (hd : d = P.past rest) (hfits : P.Fits)
      (hinserted : EndsLike inserted a d ∨ TooDeep inserted)

/-- Whether `q` and `p'` keep pace with `p` from before the place, and do as `p` does from the place on.
Here `q` refuses to read at the place and `p'` reads with the insertion. Productions that are put together
from such are found to be such by instance search. -/
class Tracks (P : Insertion) (p q p' : Production α) : Prop where
  before : ∀ {ctx : Context} {front : List Stop} {a : α} {d : Cursor}, front <:+ P.before →
    front ≠ [] → p ctx (P.without front) = .ok (a, d) →
    Pace P front a d (q ctx (P.without front)) (p' ctx (P.within front))
  after : ∀ {ctx : Context} {rest : List Stop} {a : α} {d : Cursor}, rest <:+ P.behind.ahead →
    p ctx (P.past rest) = .ok (a, d) →
    (∃ rest', rest' <:+ rest ∧ d = P.past rest') ∧ q ctx (P.past rest) = .ok (a, d)
  plain : ∀ {ctx : Context} {c c' : Cursor} {a : α} {d : Cursor}, c.Alike c' → p ctx c = .ok (a, d) →
    EndsLike (p' ctx c') a d

/-- The same for productions that may read at the place first of all. -/
class Meets (P : Insertion) (p q p' : Production α) : Prop where
  before : ∀ {ctx : Context} {front : List Stop} {a : α} {d : Cursor}, front <:+ P.before →
    (front = [] → P.Fits) → p ctx (P.without front) = .ok (a, d) →
    Pace P front a d (q ctx (P.without front)) (p' ctx (P.within front))
  after : ∀ {ctx : Context} {rest : List Stop} {a : α} {d : Cursor}, rest <:+ P.behind.ahead →
    rest ≠ P.behind.ahead → p ctx (P.past rest) = .ok (a, d) →
    (∃ rest', rest' <:+ rest ∧ d = P.past rest') ∧ q ctx (P.past rest) = .ok (a, d)
  plain : ∀ {ctx : Context} {c c' : Cursor} {a : α} {d : Cursor}, c.Alike c' → p ctx c = .ok (a, d) →
    EndsLike (p' ctx c') a d

/-- Whether `p'` gets from `front` to the insertion if `p` gets from there to the place. -/
def ArrivesFrom (P : Insertion) (front : List Stop) (p q p' : Production α) : Prop :=
  ∀ {ctx : Context} {a : α}, p ctx (P.without front) = .ok (a, P.behind) →
    P.Fits ∧ q ctx (P.without front) = .ok (a, P.behind) ∧
      p' ctx (P.within front) = .ok (a, P.within [])

/-- Whether `p'` gets to the insertion where `p` gets to the place. -/
class Arrives (P : Insertion) (p q p' : Production α) : Prop where
  arrives : ∀ {front : List Stop}, front <:+ P.before → front ≠ [] → ArrivesFrom P front p q p'

/-- Whether `p'` stays at the insertion where `p` stays at the place. -/
class Stays (P : Insertion) (p p' : Production α) : Prop where
  stays : ∀ {ctx : Context} {a : α}, p ctx P.behind = .ok (a, P.behind) →
    p' ctx (P.within []) = .ok (a, P.within [])

/-- Whether `p` gets from `front` to `front'` or past the place, without a reading that `q` refuses. The
third production is only there to be found with the other two. -/
structure Carries (P : Insertion) (front front' : List Stop) (p q p' : Production α) : Prop where
  carries : ∀ {ctx : Context} {a : α} {d : Cursor}, p ctx (P.without front) = .ok (a, d) →
    (d = P.without front' ∨ ∃ rest, rest <:+ P.behind.ahead ∧ d = P.past rest) ∧
      q ctx (P.without front) = .ok (a, d)

/-- Whether `p` passes the place from `front` without a reading that `q` refuses. -/
abbrev Passes (P : Insertion) (front : List Stop) (p q p' : Production α) : Prop :=
  Carries P front [] p q p'

variable {P : Insertion} {p q p' : Production α}

/-! ## Productions put together -/

section Closure

theorem TooDeep.bind {f : α → Production β} {ctx : Context} {c : Cursor} (h : TooDeep (p ctx c)) :
    TooDeep ((p >>= f) ctx c) := by
  obtain ⟨position, h⟩ := h
  exact ⟨position, run_bind_of_error h⟩

theorem EndsLike.bind {f : α → Production β} {ctx : Context} {c : Cursor} {a : α} {b : β}
    {d e : Cursor} (h : EndsLike (p ctx c) a d)
    (hf : ∀ d', d.Alike d' → EndsLike (f a ctx d') b e) : EndsLike ((p >>= f) ctx c) b e := by
  obtain ⟨d', hd, hp⟩ := h
  obtain ⟨e', he, hf'⟩ := hf d' hd
  exact ⟨e', he, (run_bind_of_ok hp).trans hf'⟩

/-- Readings that end before the place end alike. -/
theorem Pace.of_before {front front' : List Stop} {a : α}
    {refused inserted : Except Error (α × Cursor)} (hne : front' ≠ [])
    (h : Pace P front a (P.without front') refused inserted) :
    refused = .ok (a, P.without front') ∧ (P.Fits → inserted = .ok (a, P.within front')) := by
  cases h with
  | before front'' _ hd hq hp' =>
    cases Insertion.without_inj hd
    exact ⟨hq, hp'⟩
  | missed rest hrest hd _ => exact absurd hd (Insertion.without_ne_past hne hrest)
  | visited rest hrest hd _ _ => exact absurd hd (Insertion.without_ne_past hne hrest)

/-- Readings that are before the place keep pace if they do so with what comes next. -/
theorem Pace.bind_before {fq f' : α → Production β} {ctx : Context} {c c' d e : Cursor}
    {front front' : List Stop} {a : α} {b : β} (hsuffix : front' <:+ front) (hq : q ctx c = .ok (a, d))
    (hp' : P.Fits → p' ctx c' = .ok (a, P.within front'))
    (h : Pace P front' b e (fq a ctx d) (f' a ctx (P.within front'))) :
    Pace P front b e ((q >>= fq) ctx c) ((p' >>= f') ctx c') := by
  have hbind (hfits : P.Fits) : (p' >>= f') ctx c' = f' a ctx (P.within front') :=
    run_bind_of_ok (hp' hfits)
  rw [run_bind_of_ok hq]
  cases h with
  | before front'' hsuffix' he hq' hp'' =>
    exact .before front'' (hsuffix'.trans hsuffix) he hq' fun hfits => (hbind hfits).trans (hp'' hfits)
  | missed rest hrest he hq' => exact .missed rest hrest he hq'
  | visited rest hrest he hfits hp'' =>
    rw [← hbind hfits] at hp''
    exact .visited rest hrest he hfits hp''

/-- Readings that keep pace do so with what comes behind them, if that does from where they end. -/
theorem Pace.bind {fq f' : α → Production β} {ctx : Context} {c c' d e : Cursor}
    {front : List Stop} {a : α} {b : β} (h : Pace P front a d (q ctx c) (p' ctx c'))
    (hbefore : ∀ front', front' <:+ front → d = P.without front' →
      Pace P front' b e (fq a ctx d) (f' a ctx (P.within front')))
    (hpast : ∀ rest, rest <:+ P.behind.ahead → d = P.past rest →
      (∃ rest', rest' <:+ rest ∧ e = P.past rest') ∧ fq a ctx d = .ok (b, e))
    (hplain : ∀ d', d.Alike d' → EndsLike (f' a ctx d') b e) :
    Pace P front b e ((q >>= fq) ctx c) ((p' >>= f') ctx c') := by
  cases h with
  | before front' hsuffix hd hq hp' => exact .bind_before hsuffix hq hp' (hbefore front' hsuffix hd)
  | missed rest hrest hd hq =>
    obtain ⟨⟨rest', hrest', he⟩, hq'⟩ := hpast rest hrest hd
    exact .missed rest' (hrest'.trans hrest) he ((run_bind_of_ok hq).trans hq')
  | visited rest hrest hd hfits hp' =>
    obtain ⟨⟨rest', hrest', he⟩, -⟩ := hpast rest hrest hd
    exact .visited rest' (hrest'.trans hrest) he hfits
      (hp'.imp (fun h => h.bind hplain) TooDeep.bind)

/-- A reading that passes the place is behind it. -/
theorem Carries.passes {front : List Stop} {ctx : Context} {a : α} {d : Cursor}
    (h : Passes P front p q p') (hok : p ctx (P.without front) = .ok (a, d)) :
    (∃ rest, rest <:+ P.behind.ahead ∧ d = P.past rest) ∧ q ctx (P.without front) = .ok (a, d) := by
  obtain ⟨hd, hq⟩ := h.carries hok
  refine ⟨?_, hq⟩
  rcases hd with rfl | hd
  · exact ⟨P.behind.ahead, List.suffix_refl _, rfl⟩
  · exact hd

theorem Carries.of_passes {front front' : List Stop} (h : ∀ {ctx : Context} {a : α} {d : Cursor},
    p ctx (P.without front) = .ok (a, d) →
      (∃ rest, rest <:+ P.behind.ahead ∧ d = P.past rest) ∧ q ctx (P.without front) = .ok (a, d)) :
    Carries P front front' p q p' :=
  ⟨fun hok => ⟨.inr (h hok).1, (h hok).2⟩⟩

/-- Where a reading passes the place, the place is missed. -/
theorem Carries.pace {front : List Stop} {ctx : Context} {a : α} {d : Cursor}
    {inserted : Except Error (α × Cursor)} (h : Passes P front p q p')
    (hok : p ctx (P.without front) = .ok (a, d)) :
    Pace P front a d (q ctx (P.without front)) inserted := by
  obtain ⟨⟨rest, hrest, hd⟩, hq⟩ := h.passes hok
  exact .missed rest hrest hd hq

theorem Tracks.passes (h : Tracks P p q p') : Passes P [] p q p' :=
  .of_passes fun hok => h.after (List.suffix_refl _) hok

instance Tracks.bind {f fq f' : α → Production β} [hp : Tracks P p q p']
    [hf : ∀ a, Tracks P (f a) (fq a) (f' a)] : Tracks P (p >>= f) (q >>= fq) (p' >>= f') where
  before := by
    intro ctx front b e hfront hne hok
    obtain ⟨a, d, hpa, hfa⟩ := bind_ok.1 hok
    refine (hp.before hfront hne hpa).bind (fun front' hsuffix hd => ?_) (fun rest hrest hd => ?_)
      fun d' hd => (hf a).plain hd hfa
    · subst hd
      rcases List.eq_nil_or_concat front' with rfl | ⟨init, s, rfl⟩
      · exact (hf a).passes.pace hfa
      · exact (hf a).before (hsuffix.trans hfront) (by simp) hfa
    · subst hd
      exact (hf a).after hrest hfa
  after := by
    intro ctx rest b e hrest hok
    obtain ⟨a, d, hpa, hfa⟩ := bind_ok.1 hok
    obtain ⟨⟨rest', hrest', rfl⟩, hq⟩ := hp.after hrest hpa
    obtain ⟨⟨rest'', hrest'', he⟩, hq'⟩ := (hf a).after (hrest'.trans hrest) hfa
    exact ⟨⟨rest'', hrest''.trans hrest', he⟩, (run_bind_of_ok hq).trans hq'⟩
  plain := by
    intro ctx c c' b e hc hok
    obtain ⟨a, d, hpa, hfa⟩ := bind_ok.1 hok
    exact (hp.plain hc hpa).bind fun d' hd => (hf a).plain hd hfa

instance (priority := low) Meets.of_tracks [hp : Tracks P p q p'] : Meets P p q p' where
  before := by
    intro ctx front a d hfront _ hok
    rcases List.eq_nil_or_concat front with rfl | ⟨init, s, rfl⟩
    · exact hp.passes.pace hok
    · exact hp.before hfront (by simp) hok
  after := fun hrest _ hok => hp.after hrest hok
  plain := hp.plain

instance Meets.bind_left {f fq f' : α → Production β} [hp : Meets P p q p']
    [hf : ∀ a, Tracks P (f a) (fq a) (f' a)] : Meets P (p >>= f) (q >>= fq) (p' >>= f') where
  before := by
    intro ctx front b e hfront hfits hok
    obtain ⟨a, d, hpa, hfa⟩ := bind_ok.1 hok
    refine (hp.before hfront hfits hpa).bind (fun front' hsuffix hd => ?_) (fun rest hrest hd => ?_)
      fun d' hd => (hf a).plain hd hfa
    · subst hd
      rcases List.eq_nil_or_concat front' with rfl | ⟨init, s, rfl⟩
      · exact (hf a).passes.pace hfa
      · exact (hf a).before (hsuffix.trans hfront) (by simp) hfa
    · subst hd
      exact (hf a).after hrest hfa
  after := by
    intro ctx rest b e hrest hne hok
    obtain ⟨a, d, hpa, hfa⟩ := bind_ok.1 hok
    obtain ⟨⟨rest', hrest', rfl⟩, hq⟩ := hp.after hrest hne hpa
    obtain ⟨⟨rest'', hrest'', he⟩, hq'⟩ := (hf a).after (hrest'.trans hrest) hfa
    exact ⟨⟨rest'', hrest''.trans hrest', he⟩, (run_bind_of_ok hq).trans hq'⟩
  plain := by
    intro ctx c c' b e hc hok
    obtain ⟨a, d, hpa, hfa⟩ := bind_ok.1 hok
    exact (hp.plain hc hpa).bind fun d' hd => (hf a).plain hd hfa

theorem Tracks.plain_bind {f fq f' : α → Production β} (hp : Tracks P p q p')
    (hf : ∀ a, Meets P (f a) (fq a) (f' a)) {ctx : Context} {c c' e : Cursor} {b : β}
    (hc : c.Alike c') (hok : (p >>= f) ctx c = .ok (b, e)) : EndsLike ((p' >>= f') ctx c') b e := by
  obtain ⟨a, d, hpa, hfa⟩ := bind_ok.1 hok
  exact (hp.plain hc hpa).bind fun d' hd => (hf a).plain hd hfa

section Meetings

variable {f fq f' : α → Production β} [hp : Tracks P p q p'] [ha : Arrives P p q p']

/-- A production that gets to the insertion keeps pace with one behind it that may read it. -/
theorem Pace.bind_meets {ctx : Context} {front : List Stop} {b : β} {e : Cursor}
    (hf : ∀ a, Meets P (f a) (fq a) (f' a)) (hfront : front <:+ P.before) (hne : front ≠ [])
    (hok : (p >>= f) ctx (P.without front) = .ok (b, e)) :
    Pace P front b e ((q >>= fq) ctx (P.without front)) ((p' >>= f') ctx (P.within front)) := by
  obtain ⟨a, d, hpa, hfa⟩ := bind_ok.1 hok
  by_cases hd : d = P.behind
  · subst hd
    obtain ⟨hfits, hq, hp'⟩ := ha.arrives hfront hne hpa
    exact .bind_before List.nil_suffix hq (fun _ => hp')
      ((hf a).before List.nil_suffix (fun _ => hfits) hfa)
  · refine (hp.before hfront hne hpa).bind (fun front' hsuffix hd' => ?_) (fun rest hrest hd' => ?_)
      fun d' hd' => (hf a).plain hd' hfa
    · subst hd'
      exact (hf a).before (hsuffix.trans hfront) (fun h => absurd (congrArg P.without h) hd) hfa
    · subst hd'
      exact (hf a).after hrest (fun h => hd (congrArg P.past h)) hfa

/-- Where something has been read, a production that may read at the place is behind it. -/
instance (priority := low) Tracks.bind_meets [hr : Consumes p]
    [hf : ∀ a, Meets P (f a) (fq a) (f' a)] :
    Tracks P (p >>= f) (q >>= fq) (p' >>= f') where
  before := Pace.bind_meets hf
  after := by
    intro ctx rest b e hrest hok
    obtain ⟨a, d, hpa, hfa⟩ := bind_ok.1 hok
    obtain ⟨⟨rest', hrest', rfl⟩, hq⟩ := hp.after hrest hpa
    have hread := (hr.reads.reaches (P.past_closed rest) hpa).remaining_le
    have hne : rest' ≠ P.behind.ahead := by
      rintro rfl
      have := hrest.length_le
      simp only [Cursor.remaining, Insertion.past] at hread
      omega
    obtain ⟨⟨rest'', hrest'', he⟩, hq'⟩ := (hf a).after (hrest'.trans hrest) hne hfa
    exact ⟨⟨rest'', hrest''.trans hrest', he⟩, (run_bind_of_ok hq).trans hq'⟩
  plain := hp.plain_bind hf

instance Meets.bind_right [hs : Stays P p p'] [hf : ∀ a, Meets P (f a) (fq a) (f' a)] :
    Meets P (p >>= f) (q >>= fq) (p' >>= f') where
  before := by
    intro ctx front b e hfront hfits hok
    rcases List.eq_nil_or_concat front with rfl | ⟨init, s, rfl⟩
    · obtain ⟨a, d, hpa, hfa⟩ := bind_ok.1 hok
      obtain ⟨⟨rest, hrest, rfl⟩, hq⟩ := hp.after (List.suffix_refl _) hpa
      by_cases hne : rest = P.behind.ahead
      · subst hne
        exact .bind_before (List.suffix_refl _) hq (fun _ => hs.stays hpa)
          ((hf a).before List.nil_suffix hfits hfa)
      · obtain ⟨⟨rest', hrest', he⟩, hq'⟩ := (hf a).after hrest hne hfa
        exact .missed rest' (hrest'.trans hrest) he ((run_bind_of_ok hq).trans hq')
    · exact Pace.bind_meets hf hfront (by simp) hok
  after := by
    intro ctx rest b e hrest hne hok
    obtain ⟨a, d, hpa, hfa⟩ := bind_ok.1 hok
    obtain ⟨⟨rest', hrest', rfl⟩, hq⟩ := hp.after hrest hpa
    have hne' : rest' ≠ P.behind.ahead := by
      rintro rfl
      exact hne (hrest.eq_of_length_le hrest'.length_le)
    obtain ⟨⟨rest'', hrest'', he⟩, hq'⟩ := (hf a).after (hrest'.trans hrest) hne' hfa
    exact ⟨⟨rest'', hrest''.trans hrest', he⟩, (run_bind_of_ok hq).trans hq'⟩
  plain := hp.plain_bind hf

end Meetings

end Closure

/-! ## Steps -/

theorem optional_eq (k : Kind) :
    optional k = (do if ← isAt k then some <$> next else return none) := by
  funext ctx c
  rw [run_isAt_bind]
  cases hc : c.isAt k with
  | true => exact run_optional_of_isAt ctx hc
  | false => exact run_optional_of_not ctx hc

theorem accept_eq (k : Kind) :
    accept k = (do if ← isAt k then next else failHere fun found => .expecting k.text found) := by
  funext ctx c
  rw [run_isAt_bind]
  cases hc : c.isAt k with
  | true => exact run_accept_of_isAt ctx hc
  | false => exact run_accept_of_not ctx hc

/-- A production that never succeeds keeps any pace. -/
class Fails (p : Production α) : Prop where
  fails : ∀ {ctx : Context} {c : Cursor} {r : α × Cursor}, p ctx c ≠ .ok r

namespace Fails

instance fail (cause : Cause) (position : Position) :
    Fails (Production.fail cause position : Production α) := ⟨fun h => nomatch h⟩

instance failHere (cause : String → Cause) : Fails (Production.failHere cause : Production α) :=
  ⟨fun h => nomatch h⟩

instance bind_left {f : α → Production β} [hp : Fails p] : Fails (p >>= f) := by
  refine ⟨fun h => ?_⟩
  obtain ⟨a, d, hp', -⟩ := bind_ok.1 h
  exact hp.fails hp'

instance bind_right {f : α → Production β} [hf : ∀ a, Fails (f a)] : Fails (p >>= f) := by
  refine ⟨fun h => ?_⟩
  obtain ⟨a, d, -, hf'⟩ := bind_ok.1 h
  exact (hf a).fails hf'

instance ite {c : Prop} [Decidable c] [hp : Fails p] [hq : Fails q] : Fails (if c then p else q) := by
  split
  · exact hp
  · exact hq

end Fails

namespace Tracks

instance of_fails [hp : Fails p] : Tracks P p q p' where
  before := fun _ _ h => absurd h hp.fails
  after := fun _ h => absurd h hp.fails
  plain := fun _ h => absurd h hp.fails

/-- What only looks keeps pace if it sees the same. -/
theorem of_looks {h : Context → Cursor → α} (hp : ∀ ctx c, p ctx c = .ok (h ctx c, c))
    (hbefore : P.Fits → ∀ ctx front, front <:+ P.before → front ≠ [] →
      h ctx (P.without front) = h ctx (P.within front))
    (halike : ∀ ctx c c', Cursor.Alike c c' → h ctx c = h ctx c') : Tracks P p p p where
  before := by
    intro ctx front a d hfront hne hok
    rw [hp] at hok
    cases hok
    refine .before front (List.suffix_refl _) rfl (hp ..) fun hfits => ?_
    rw [hp, hbefore hfits ctx front hfront hne]
  after := by
    intro ctx rest a d _ hok
    refine ⟨⟨rest, List.suffix_refl _, ?_⟩, hok⟩
    rw [hp] at hok
    cases hok
    rfl
  plain := by
    intro ctx c c' a d hc hok
    rw [hp] at hok
    cases hok
    exact ⟨c', hc, by rw [hp, halike ctx c c' hc]⟩

instance pure (a : α) : Tracks P (Pure.pure a) (Pure.pure a) (Pure.pure a) :=
  of_looks (h := fun _ _ => a) (fun _ _ => rfl) (fun _ _ _ _ _ => rfl) fun _ _ _ _ => rfl

instance optimizes : Tracks P Production.optimizes Production.optimizes Production.optimizes :=
  of_looks (h := fun ctx _ => ctx.optimize) (fun _ _ => rfl) (fun _ _ _ _ _ => rfl) fun _ _ _ _ => rfl

instance peek : Tracks P Production.peek Production.peek Production.peek :=
  of_looks (h := fun _ c => c.peek) (fun _ _ => rfl) (fun _ _ _ _ hne => Insertion.peek_eq hne)
    fun _ _ _ hc => hc.peek

instance next : Tracks P Production.next Production.next Production.next where
  before := by
    intro ctx front b d hfront hne hok
    obtain ⟨s, front, rfl⟩ := List.exists_cons_of_ne_nil hne
    cases hok
    refine .before front (List.suffix_cons s front) (Insertion.next_without hfront) rfl fun _ => ?_
    unfold Production.next
    rw [Insertion.next_within hfront]
    rfl
  after := by
    intro ctx rest b d _ hok
    cases hok
    refine ⟨?_, rfl⟩
    cases rest with
    | nil => exact ⟨[], List.suffix_refl _, rfl⟩
    | cons s rest =>
      by_cases hs : s.token.kind = .endOfFile
      · exact ⟨s :: rest, List.suffix_refl _, if_pos hs⟩
      · exact ⟨rest, List.suffix_cons s rest, if_neg hs⟩
  plain := by
    intro ctx c c' b d hc hok
    cases hok
    refine ⟨c'.next, hc.next, ?_⟩
    unfold Production.next
    rw [hc.peek]

instance ite {c : Prop} [Decidable c] {r rq r' : Production α} [hp : Tracks P p q p']
    [hr : Tracks P r rq r'] :
    Tracks P (if c then p else r) (if c then q else rq) (if c then p' else r') := by
  split
  · exact hp
  · exact hr

instance map (f : α → β) [Tracks P p q p'] : Tracks P (f <$> p) (f <$> q) (f <$> p') :=
  inferInstanceAs
    (Tracks P (p >>= fun a => Pure.pure (f a)) (q >>= fun a => Pure.pure (f a))
      (p' >>= fun a => Pure.pure (f a)))

instance discard [Tracks P p q p'] :
    Tracks P (Functor.discard p) (Functor.discard q) (Functor.discard p') :=
  map (fun _ => PUnit.unit)

theorem nested_ok {ctx : Context} {c : Cursor} {r : α × Cursor}
    (hok : Production.nested p ctx c = .ok r) : ctx.depth < depthLimit := by
  by_contra hdepth
  rw [run_nested_of_le p _ (Nat.not_lt.1 hdepth)] at hok
  cases hok

instance nested [hp : Tracks P p q p'] :
    Tracks P (Production.nested p) (Production.nested q) (Production.nested p') where
  before := by
    intro ctx front b d hfront hne hok
    have hdepth := nested_ok hok
    rw [run_nested _ _ hdepth] at hok ⊢
    rw [run_nested _ _ hdepth]
    exact hp.before hfront hne hok
  after := by
    intro ctx rest b d hrest hok
    have hdepth := nested_ok hok
    rw [run_nested _ _ hdepth] at hok ⊢
    exact hp.after hrest hok
  plain := by
    intro ctx c c' b d hc hok
    have hdepth := nested_ok hok
    rw [run_nested _ _ hdepth] at hok ⊢
    exact hp.plain hc hok

/-! A step that looks at the current token and may read it. -/

instance peekKind : Tracks P Production.peekKind Production.peekKind Production.peekKind :=
  inferInstanceAs (Tracks P (Token.kind <$> Production.peek) (Token.kind <$> Production.peek)
    (Token.kind <$> Production.peek))

instance isAt (k : Kind) :
    Tracks P (Production.isAt k) (Production.isAt k) (Production.isAt k) :=
  inferInstanceAs (Tracks P ((· == k) <$> Production.peekKind) ((· == k) <$> Production.peekKind)
    ((· == k) <$> Production.peekKind))

instance isAtWord (w : String) :
    Tracks P (Production.isAtWord w) (Production.isAtWord w) (Production.isAtWord w) :=
  inferInstanceAs (Tracks P ((·.isWord w) <$> Production.peek) ((·.isWord w) <$> Production.peek)
    ((·.isWord w) <$> Production.peek))

instance optional (k : Kind) :
    Tracks P (Production.optional k) (Production.optional k) (Production.optional k) := by
  rw [optional_eq]
  infer_instance

instance accept (k : Kind) :
    Tracks P (Production.accept k) (Production.accept k) (Production.accept k) := by
  rw [accept_eq]
  infer_instance

instance skips (k : Kind) :
    Tracks P (Production.skips k) (Production.skips k) (Production.skips k) := by
  unfold Production.skips
  infer_instance

instance semicolon : Tracks P Production.semicolon Production.semicolon Production.semicolon := by
  unfold Production.semicolon
  infer_instance

instance identifier :
    Tracks P Production.identifier Production.identifier Production.identifier := by
  unfold Production.identifier
  infer_instance

instance name : Tracks P Production.name Production.name Production.name := by
  unfold Production.name
  infer_instance

instance word (w : String) :
    Tracks P (Production.word w) (Production.word w) (Production.word w) := by
  unfold Production.word
  infer_instance

instance advance (n : Nat) :
    Tracks P (Production.advance n) (Production.advance n) (Production.advance n) := by
  induction n with
  | zero => exact .pure ()
  | succ n ih =>
    exact inferInstanceAs (Tracks P (do Functor.discard Production.next; Production.advance n)
      (do Functor.discard Production.next; Production.advance n)
      (do Functor.discard Production.next; Production.advance n))

end Tracks

/-! ## Repetition -/

/-- A repetition is done where its first round is. -/
theorem run_loop_of_done {step : σ → Production (Turn σ β)} {s : σ} {ctx : Context} {c d : Cursor}
    {b : β} (h : step s ctx c = .ok (.done b, d)) : Production.loop step s ctx c = .ok (b, d) := by
  unfold Production.loop Production.loopFrom
  rw [run_bind_of_ok h]
  rfl

theorem run_loop_of_again {step : σ → Production (Turn σ β)} {s s' : σ} {ctx : Context} {c d : Cursor}
    (h : step s ctx c = .ok (.again s', d)) :
    Production.loop step s ctx c = Production.loopFrom step c.ahead s' ctx d := by
  unfold Production.loop
  rw [Production.loopFrom, run_bind_of_ok h]

theorem TooDeep.rounds {p : Production Bool} {ctx : Context} {c : Cursor} (h : TooDeep (p ctx c)) :
    TooDeep (Production.rounds p ctx c) := by
  unfold Production.rounds Production.loop Production.loopFrom
  exact TooDeep.bind (TooDeep.bind h)

namespace Tracks

/-- A repetition keeps pace if its rounds do. There are more rounds where something is inserted. -/
theorem loopFrom {step stepq step' : σ → Production (Turn σ β)}
    [hstep : ∀ s, Tracks P (step s) (stepq s) (step' s)] (rounds rounds' : List Stop)
    (hrounds : rounds.length ≤ rounds'.length) (s : σ) :
    Tracks P (Production.loopFrom step rounds s) (Production.loopFrom stepq rounds s)
      (Production.loopFrom step' rounds' s) := by
  induction rounds generalizing rounds' s with
  | nil =>
    unfold Production.loopFrom
    infer_instance
  | cons _ rounds ih =>
    cases rounds' with
    | nil => exact absurd hrounds (Nat.not_succ_le_zero _)
    | cons _ rounds' =>
      unfold Production.loopFrom
      refine @Tracks.bind _ _ _ _ _ _ _ _ _ (hstep s) fun t => ?_
      cases t with
      | again s => exact ih rounds' (Nat.le_of_succ_le_succ hrounds) s
      | done b => exact .pure b

instance loop {step stepq step' : σ → Production (Turn σ β)}
    [hstep : ∀ s, Tracks P (step s) (stepq s) (step' s)] (s : σ) :
    Tracks P (Production.loop step s) (Production.loop stepq s) (Production.loop step' s) where
  before := by
    intro ctx front b d hfront hne hok
    have hlength : (P.behind.last :: (front ++ P.behind.ahead)).length ≤
        (P.moved.last :: (front ++ P.opening :: (P.type ++ P.moved.ahead))).length := by
      simp only [List.length_cons, List.length_append, P.alike.length]
      omega
    exact (loopFrom _ _ hlength s).before hfront hne hok
  after := by
    intro ctx rest b d hrest hok
    have hp : Tracks P (Production.loopFrom step (P.behind.last :: rest) s)
        (Production.loopFrom stepq (P.behind.last :: rest) s)
        (Production.loopFrom step' (P.behind.last :: rest) s) := loopFrom _ _ (Nat.le_refl _) s
    exact hp.after hrest hok
  plain := by
    intro ctx c c' b d hc hok
    have hlength : (c.last :: c.ahead).length ≤ (c'.last :: c'.ahead).length := by
      simp only [List.length_cons, hc.length, Nat.le_refl]
    have hp : Tracks P (Production.loopFrom step (c.last :: c.ahead) s)
        (Production.loopFrom stepq (c.last :: c.ahead) s)
        (Production.loopFrom step' (c'.last :: c'.ahead) s) := loopFrom _ _ hlength s
    exact hp.plain hc hok

instance rounds {p q p' : Production Bool} [Tracks P p q p'] :
    Tracks P (Production.rounds p) (Production.rounds q) (Production.rounds p') := by
  unfold Production.rounds
  infer_instance

/-- A repetition may go on in the middle, if there are rounds enough. -/
theorem rounds_plain {p p' : Production Bool} [Tracks P p p p'] {ctx : Context} {c c' d : Cursor}
    {rounds' : List Stop} (hc : c.Alike c') (hrounds : (c.last :: c.ahead).length ≤ rounds'.length)
    (hok : Production.rounds p ctx c = .ok ((), d)) :
    EndsLike (Production.loopFrom
      (fun _ => do if ← p' then return .again () else return .done ()) rounds' () ctx c') () d := by
  have hp : Tracks P
      (Production.loopFrom (fun _ => do if ← p then return .again () else return .done ())
        (c.last :: c.ahead) ())
      (Production.loopFrom (fun _ => do if ← p then return .again () else return .done ())
        (c.last :: c.ahead) ())
      (Production.loopFrom (fun _ => do if ← p' then return .again () else return .done ())
        rounds' ()) := loopFrom _ _ hrounds ()
  exact hp.plain hc hok

instance separated [Tracks P p q p'] :
    Tracks P (Production.separated p) (Production.separated q) (Production.separated p') := by
  unfold Production.separated
  infer_instance

instance listed (close : Mark) [Tracks P p q p'] :
    Tracks P (Production.listed close p) (Production.listed close q)
      (Production.listed close p') := by
  unfold Production.listed
  infer_instance

end Tracks

end ScriptFront.Production
