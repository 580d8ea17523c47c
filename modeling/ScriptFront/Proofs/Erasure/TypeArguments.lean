import ScriptFront.Proofs.Erasure.Arriving
import ScriptFront.Proofs.Erasure.Passing
import ScriptFront.Proofs.Production.TypesRead

/-!
# Type arguments in expressions beside an insertion

The type arguments of a name in an expression are found by looking ahead without a bound. What is found
ends with a `>`, so it depends on nothing behind that. It has no colon in it, and every name stands behind
a mark that leads on to it, so an insertion is no part of it.
-/

namespace ScriptFront

namespace Lookahead

/-- The token that a lookahead with these tokens ahead sees. -/
def peekOf (ahead : List Stop) (last : Stop) : Token := (ahead.head?.getD last).token

/-- Whether tokens may stand behind one of kind `k` in type arguments. -/
def Follows : Kind → List Stop → Prop
  | _, [] => True
  | k, s :: rest =>
    (s.token.kind = .identifier → k.leadsOn = true) ∧ s.token.kind ≠ .mark .colon ∧
      s.token.kind ≠ .endOfFile ∧ Follows s.token.kind rest

/-- Whether tokens may stand behind any token in type arguments, or behind any that leads on to a name if
`leads` says so. -/
def Joins (leads : Prop) (taken : List Stop) : Prop := ∀ k : Kind, (leads → k.leadsOn = true) → Follows k taken

/-- Whether what `f` steps over can be told from these tokens and the one behind them. -/
structure Local (leads : Prop) (f : Lookahead → Option Lookahead) : Prop where
  steps : ∀ {ahead : List Stop} {last : Stop} {n : Nat} {l : Lookahead},
    last.token.kind = .endOfFile → f ⟨ahead, last, n⟩ = some l →
    ∃ taken rest, ahead = taken ++ rest ∧ l = ⟨rest, last, n + taken.length⟩ ∧ Joins leads taken ∧
      ∀ (taken' rest' : List Stop) (last' : Stop) (n' : Nat),
        taken'.map (·.token) = taken.map (·.token) → peekOf rest' last' = peekOf rest last →
        f ⟨taken' ++ rest', last', n'⟩ = some ⟨rest', last', n' + taken.length⟩

theorem Follows.append {k : Kind} {taken taken' : List Stop} (h : Follows k taken)
    (h' : ∀ k, Follows k taken') : Follows k (taken ++ taken') := by
  induction taken generalizing k with
  | nil => exact h' k
  | cons s taken ih => exact ⟨h.1, h.2.1, h.2.2.1, ih h.2.2.2⟩

theorem peekOf_append {taken taken' rest rest' : List Stop} {last last' : Stop}
    (ht : taken'.map (·.token) = taken.map (·.token)) (h : peekOf rest' last' = peekOf rest last) :
    peekOf (taken' ++ rest') last' = peekOf (taken ++ rest) last := by
  cases taken with
  | nil =>
    cases List.map_eq_nil_iff.1 ht
    exact h
  | cons s taken =>
    obtain ⟨s', taken', rfl, hs, -⟩ := List.map_eq_cons_iff.1 ht
    exact hs

variable {leads : Prop} {f : Lookahead → Option Lookahead} {k : Kind}

theorem eat_cons {s : Stop} {rest : List Stop} {last : Stop} {n : Nat} (hs : s.token.kind = k) :
    (⟨s :: rest, last, n⟩ : Lookahead).eat k = some ⟨rest, last, n + 1⟩ := if_pos hs

theorem eat_none {ahead : List Stop} {last : Stop} {n : Nat} (h : (peekOf ahead last).kind ≠ k) :
    (⟨ahead, last, n⟩ : Lookahead).eat k = none := if_neg h

/-- A token that is stepped over is not the end of the file. -/
theorem eat_some {ahead : List Stop} {last : Stop} {n : Nat} {l : Lookahead}
    (hlast : last.token.kind = .endOfFile) (hk : k ≠ .endOfFile)
    (h : (⟨ahead, last, n⟩ : Lookahead).eat k = some l) :
    ∃ s rest, ahead = s :: rest ∧ s.token.kind = k ∧ l = ⟨rest, last, n + 1⟩ := by
  unfold eat at h
  split at h
  · next hpeek =>
    cases h
    cases ahead with
    | nil => exact absurd (hpeek.symm.trans hlast) hk
    | cons s rest => exact ⟨s, rest, rfl, hpeek, rfl⟩
  · cases h

namespace Local

theorem weaken {leads' : Prop} (hf : Local leads f) (h : leads → leads') : Local leads' f := by
  refine ⟨fun hlast hok => ?_⟩
  obtain ⟨taken, rest, hahead, hl, hjoins, hlocal⟩ := hf.steps hlast hok
  exact ⟨taken, rest, hahead, hl, fun k hk => hjoins k (hk ∘ h), hlocal⟩

theorem eat (hk : k ≠ .endOfFile) (hcolon : k ≠ .mark .colon) :
    Local (k = .identifier) (·.eat k) := by
  refine ⟨fun {ahead last n l} hlast h => ?_⟩
  obtain ⟨s, rest, rfl, hs, rfl⟩ := eat_some hlast hk h
  refine ⟨[s], rest, rfl, rfl, fun k' hk' => ?_, fun taken' rest' last' n' ht _ => ?_⟩
  · rw [Follows, hs]
    exact ⟨hk', hcolon, hk, trivial⟩
  · obtain ⟨s', _, rfl, hs', hnil⟩ := List.map_eq_cons_iff.1 ht
    cases List.map_eq_nil_iff.1 hnil
    exact eat_cons ((congrArg Token.kind hs').trans hs)

theorem bind {g : Lookahead → Option Lookahead} (hf : Local leads f) (hg : Local False g) :
    Local leads (fun l => f l >>= g) := by
  refine ⟨fun {ahead last n l} hlast h => ?_⟩
  obtain ⟨l₁, h₁, h₂⟩ := Option.bind_eq_some_iff.1 h
  obtain ⟨taken, rest, rfl, rfl, hjoins, hlocal⟩ := hf.steps hlast h₁
  obtain ⟨taken', rest', rfl, rfl, hjoins', hlocal'⟩ := hg.steps hlast h₂
  refine ⟨taken ++ taken', rest', (List.append_assoc ..).symm, ?_,
    fun k hk => (hjoins k hk).append fun k => hjoins' k False.elim,
    fun both rest'' last'' n' ht hpeek => ?_⟩
  · rw [List.length_append, Nat.add_assoc]
  · rw [List.map_append] at ht
    obtain ⟨taken₁, taken₂, rfl, ht₁, ht₂⟩ := List.map_eq_append_iff.1 ht
    rw [List.append_assoc, hlocal _ _ _ _ ht₁ (peekOf_append ht₂ hpeek), List.length_append,
      ← Nat.add_assoc]
    exact hlocal' _ _ _ _ ht₂ hpeek

/-- The token that decides is stepped over or stands behind what is. -/
theorem ite {g : Lookahead → Option Lookahead} (hf : Local leads f) (hg : Local leads g) :
    Local leads (fun l => if l.peek.kind = k then f l else g l) := by
  refine ⟨fun {ahead last n l} hlast h => ?_⟩
  have hpeek : ∀ {taken taken' rest rest' : List Stop} {last' : Stop} {n' : Nat},
      ahead = taken ++ rest → taken'.map (·.token) = taken.map (·.token) →
      peekOf rest' last' = peekOf rest last →
      (⟨taken' ++ rest', last', n'⟩ : Lookahead).peek = (⟨ahead, last, n⟩ : Lookahead).peek := by
    rintro taken taken' rest rest' last' n' rfl ht h
    exact peekOf_append ht h
  by_cases hk : (⟨ahead, last, n⟩ : Lookahead).peek.kind = k
  · rw [if_pos hk] at h
    obtain ⟨taken, rest, hahead, hl, hjoins, hlocal⟩ := hf.steps hlast h
    refine ⟨taken, rest, hahead, hl, hjoins, fun taken' rest' last' n' ht h' => ?_⟩
    rw [if_pos ((congrArg Token.kind (hpeek hahead ht h')).trans hk)]
    exact hlocal _ _ _ _ ht h'
  · rw [if_neg hk] at h
    obtain ⟨taken, rest, hahead, hl, hjoins, hlocal⟩ := hg.steps hlast h
    refine ⟨taken, rest, hahead, hl, hjoins, fun taken' rest' last' n' ht h' => ?_⟩
    rw [if_neg fun h => hk ((congrArg Token.kind (hpeek hahead ht h')).symm.trans h)]
    exact hlocal _ _ _ _ ht h'

end Local

section Marked

variable {m : Mark} {more : Lookahead → Option Lookahead}

/-- What stands behind a mark follows it if the mark leads on to it. -/
theorem joins_cons {s : Stop} {taken : List Stop} (hm : leads → (Kind.mark m).leadsOn = true)
    (hcolon : m ≠ .colon) (hs : s.token.kind = .mark m) (h : Joins leads taken) :
    Joins False (s :: taken) := by
  intro k _
  refine ⟨fun hname => ?_, ?_, ?_, ?_⟩
  · cases hs.symm.trans hname
  · rw [hs]
    simpa using hcolon
  · rw [hs]
    simp
  · rw [hs]
    exact h _ hm

theorem Local.mark_bind (hm : leads → (Kind.mark m).leadsOn = true) (hcolon : m ≠ .colon)
    (hmore : Local leads more) : Local False (fun l => l.eat (.mark m) >>= more) := by
  refine ⟨fun {ahead last n l} hlast h => ?_⟩
  obtain ⟨l₁, h₁, h₂⟩ := Option.bind_eq_some_iff.1 h
  obtain ⟨s, rest, rfl, hs, rfl⟩ := eat_some hlast (by simp) h₁
  obtain ⟨taken, rest, rfl, rfl, hjoins, hlocal⟩ := hmore.steps hlast h₂
  refine ⟨s :: taken, rest, rfl, ?_, joins_cons hm hcolon hs hjoins,
    fun both rest' last' n' ht hpeek => ?_⟩
  · rw [List.length_cons, Nat.add_right_comm, Nat.add_assoc]
  · obtain ⟨s', taken', rfl, hs', ht'⟩ := List.map_eq_cons_iff.1 ht
    rw [List.cons_append, eat_cons ((congrArg Token.kind hs').trans hs), List.length_cons,
      Nat.add_comm taken.length 1, ← Nat.add_assoc]
    exact hlocal _ _ _ _ ht' hpeek

theorem whileEat_stop {rounds ahead : List Stop} {last : Stop} {n : Nat}
    (h : (peekOf ahead last).kind ≠ .mark m) :
    whileEat (.mark m) more rounds ⟨ahead, last, n⟩ = some ⟨ahead, last, n⟩ := by
  cases rounds with
  | nil => rfl
  | cons _ rounds =>
    unfold whileEat
    rw [eat_none h]

theorem whileEat_round {s round : Stop} {rounds ahead : List Stop} {last : Stop} {n : Nat}
    {l : Lookahead} (hs : s.token.kind = .mark m) (h : more ⟨ahead, last, n + 1⟩ = some l) :
    whileEat (.mark m) more (round :: rounds) ⟨s :: ahead, last, n⟩ =
      whileEat (.mark m) more rounds l := by
  rw [whileEat, eat_cons hs]
  simp only
  rw [h]

/-- What a repetition has eaten ahead, and eats as well wherever the same tokens stand before the same
token. -/
def Eaten (m : Mark) (more : Lookahead → Option Lookahead) (ahead : List Stop) (last : Stop) (n : Nat)
    (l : Lookahead) : Prop :=
  ∃ taken rest, ahead = taken ++ rest ∧ l = ⟨rest, last, n + taken.length⟩ ∧ Joins False taken ∧
    ∀ (rounds' taken' rest' : List Stop) (last' : Stop) (n' : Nat), taken.length ≤ rounds'.length →
      taken'.map (·.token) = taken.map (·.token) → peekOf rest' last' = peekOf rest last →
      whileEat (.mark m) more rounds' ⟨taken' ++ rest', last', n'⟩ =
        some ⟨rest', last', n' + taken.length⟩

theorem Eaten.stop {ahead : List Stop} {last : Stop} {n : Nat}
    (h : (peekOf ahead last).kind ≠ .mark m) : Eaten m more ahead last n ⟨ahead, last, n⟩ := by
  refine ⟨[], ahead, rfl, rfl, fun _ _ => trivial, fun rounds' taken' rest' last' n' _ ht hpeek => ?_⟩
  cases List.map_eq_nil_iff.1 ht
  exact whileEat_stop (hpeek ▸ h)

theorem Eaten.round (hm : leads → (Kind.mark m).leadsOn = true) (hcolon : m ≠ .colon)
    (hmore : Local leads more) {s : Stop} {ahead : List Stop} {last : Stop} {n : Nat}
    {l₁ l : Lookahead} (hlast : last.token.kind = .endOfFile) (hs : s.token.kind = .mark m)
    (hround : more ⟨ahead, last, n + 1⟩ = some l₁)
    (h : ∀ rest k, l₁ = ⟨rest, last, k⟩ → rest.length ≤ ahead.length → Eaten m more rest last k l) :
    Eaten m more (s :: ahead) last n l := by
  obtain ⟨taken, rest, rfl, rfl, hjoins, hlocal⟩ := hmore.steps hlast hround
  obtain ⟨taken', rest', rfl, rfl, hjoins', hlocal'⟩ := h rest _ rfl (by simp)
  refine ⟨s :: (taken ++ taken'), rest', ?_, ?_, ?_, fun rounds' all rest'' last' n' hlen ht hpeek => ?_⟩
  · rw [List.cons_append, List.append_assoc]
  · simp only [List.length_cons, List.length_append, Lookahead.mk.injEq, true_and]
    omega
  · exact joins_cons hm hcolon hs fun k hk => (hjoins k hk).append fun k => hjoins' k False.elim
  · rw [List.length_cons, List.length_append] at hlen
    cases rounds' with
    | nil => exact absurd hlen (Nat.not_succ_le_zero _)
    | cons round' rounds' =>
      rw [List.length_cons] at hlen
      obtain ⟨s', both, rfl, hs', hboth⟩ := List.map_eq_cons_iff.1 ht
      rw [List.map_append] at hboth
      obtain ⟨taken₁, taken₂, rfl, ht₁, ht₂⟩ := List.map_eq_append_iff.1 hboth
      rw [List.cons_append, List.append_assoc,
        whileEat_round ((congrArg Token.kind hs').trans hs)
          (hlocal _ _ _ _ ht₁ (peekOf_append ht₂ hpeek)),
        hlocal' _ _ _ _ _ (by omega) ht₂ hpeek]
      simp only [List.length_cons, List.length_append, Option.some.injEq, Lookahead.mk.injEq,
        true_and]
      omega

/-- What stands behind a mark, as often as the mark is there. -/
theorem Local.whileEat (hm : leads → (Kind.mark m).leadsOn = true) (hcolon : m ≠ .colon)
    (hmore : Local leads more) {rounds ahead : List Stop} {last : Stop} {n : Nat} {l : Lookahead}
    (hlast : last.token.kind = .endOfFile) (hrounds : ahead.length ≤ rounds.length)
    (h : whileEat (.mark m) more rounds ⟨ahead, last, n⟩ = some l) : Eaten m more ahead last n l := by
  induction rounds generalizing ahead n with
  | nil =>
    cases List.length_eq_zero_iff.1 (Nat.le_zero.1 hrounds)
    cases h
    exact .stop fun hpeek => by cases hlast.symm.trans hpeek
  | cons round rounds ih =>
    by_cases hpeek : (peekOf ahead last).kind = .mark m
    · obtain ⟨s, ahead, rfl⟩ : ∃ s rest, ahead = s :: rest := by
        cases ahead with
        | nil => cases hlast.symm.trans hpeek
        | cons s ahead => exact ⟨s, ahead, rfl⟩
      have hs : s.token.kind = .mark m := hpeek
      cases hround : more ⟨ahead, last, n + 1⟩ with
      | none =>
        rw [Lookahead.whileEat, eat_cons hs] at h
        simp only [hround] at h
        cases h
      | some l₁ =>
        rw [whileEat_round hs hround] at h
        refine .round hm hcolon hmore hlast hs hround fun rest k heq hle => ?_
        cases heq
        exact ih (Nat.le_trans hle (Nat.le_of_succ_le_succ hrounds)) h
    · rw [whileEat_stop hpeek] at h
      cases h
      exact .stop hpeek

theorem Local.eatAll (hm : leads → (Kind.mark m).leadsOn = true) (hcolon : m ≠ .colon)
    (hmore : Local leads more) : Local False (·.eatAll (.mark m) more) := by
  refine ⟨fun {ahead last n l} hlast h => ?_⟩
  obtain ⟨taken, rest, rfl, hl, hjoins, hlocal⟩ :=
    Local.whileEat hm hcolon hmore hlast (Nat.le_refl _) h
  refine ⟨taken, rest, rfl, hl, hjoins, fun taken' rest' last' n' ht hpeek => ?_⟩
  have hlen : taken.length = taken'.length := by simpa using (congrArg List.length ht).symm
  exact hlocal _ _ _ _ _ (by simp [hlen]) ht hpeek

end Marked

/-! ## Type arguments -/

theorem typeReference_local {arguments : Lookahead → Option Lookahead} (h : Local False arguments) :
    Local True (typeReference arguments) := by
  have hname : Local True (·.eat .identifier) :=
    (Local.eat (by simp) (by simp)).weaken fun _ => trivial
  have hbracket : Local False (·.eat (.mark .closeBracket)) :=
    (Local.eat (by simp) (by simp)).weaken (by simp)
  have hsome : Local False some :=
    ⟨fun {ahead last n l} _ h => ⟨[], ahead, rfl, (Option.some.inj h).symm, fun _ _ => trivial,
      fun _ _ _ _ ht _ => by rw [List.map_eq_nil_iff.1 ht]; rfl⟩⟩
  have hbrackets : Local False (·.eatAll (.mark .openBracket) (·.eat (.mark .closeBracket))) :=
    .eatAll False.elim (by simp) hbracket
  exact hname.bind ((Local.eatAll (fun _ => rfl) (by simp) hname).bind
    ((h.bind hbrackets).ite (hsome.bind hbrackets)))

theorem typeArguments_local (n : Nat) : Local False (typeArguments n) := by
  induction n with
  | zero => exact ⟨fun _ h => nomatch h⟩
  | succ n ih =>
    have hreference := typeReference_local ih
    have hgreater : Local False (·.eat (.mark .greater)) :=
      (Local.eat (by simp) (by simp)).weaken (by simp)
    exact (Local.mark_bind (fun _ => rfl) (by simp)
      (hreference.bind ((Local.eatAll (fun _ => rfl) (by simp) hreference).bind hgreater)))

/-- Type arguments end with a `>`, so nothing behind them has a part in it. -/
theorem typeArguments_replay {n k : Nat} {ahead : List Stop} {last : Stop} {l : Lookahead}
    (hlast : last.token.kind = .endOfFile) (h : typeArguments n ⟨ahead, last, k⟩ = some l) :
    ∃ taken s rest, ahead = taken ++ s :: rest ∧ s.token.kind = .mark .greater ∧
      l.consumed = k + (taken.length + 1) ∧ Joins False (taken ++ [s]) ∧
      ∀ (taken' rest' : List Stop) (last' : Stop) (k' : Nat),
        taken'.map (·.token) = (taken ++ [s]).map (·.token) →
        (typeArguments n ⟨taken' ++ rest', last', k'⟩).map (·.consumed) =
          some (k' + (taken.length + 1)) := by
  cases n with
  | zero => cases h
  | succ n =>
    have hreference := typeReference_local (typeArguments_local n)
    have hinner := Local.mark_bind (m := .less) (fun _ => rfl) (by simp)
      (hreference.bind (Local.eatAll (m := .comma) (fun _ => rfl) (by simp) hreference))
    have heq : ∀ l : Lookahead, typeArguments (n + 1) l =
        ((l.eat (.mark .less) >>= fun l => l.typeReference (typeArguments n) >>= fun l =>
          l.eatAll (.mark .comma) (typeReference (typeArguments n))) >>= (·.eat (.mark .greater))) := by
      intro l
      simp only [typeArguments, bind_assoc]
    rw [heq] at h
    obtain ⟨l₁, h₁, h₂⟩ := Option.bind_eq_some_iff.1 h
    obtain ⟨taken, rest, rfl, rfl, hjoins, hlocal⟩ := hinner.steps hlast h₁
    obtain ⟨s, rest, rfl, hs, rfl⟩ := eat_some hlast (by simp) h₂
    refine ⟨taken, s, rest, rfl, hs, Nat.add_assoc .., fun k hk => (hjoins k hk).append fun k => ?_,
      fun all rest' last' k' ht => ?_⟩
    · refine ⟨fun h => ?_, ?_, ?_, trivial⟩
      · cases hs.symm.trans h
      · rw [hs]
        simp
      · rw [hs]
        simp
    · rw [List.map_append] at ht
      obtain ⟨taken₁, taken₂, rfl, ht₁, ht₂⟩ := List.map_eq_append_iff.1 ht
      obtain ⟨s', _, rfl, hs', hnil⟩ := List.map_eq_cons_iff.1 ht₂
      cases List.map_eq_nil_iff.1 hnil
      have hpeek : peekOf ([s'] ++ rest') last' = peekOf (s :: rest) last := hs'
      rw [heq, List.append_assoc, hlocal _ _ _ _ ht₁ hpeek, Option.bind_eq_bind, Option.bind_some,
        List.singleton_append, eat_cons ((congrArg Token.kind hs').trans hs), Option.map_some, Nat.add_assoc]

/-- A name stands behind a token that leads on to it, and no colon stands anywhere. -/
theorem Follows.behind {k : Kind} {taken rest : List Stop} {s t : Stop}
    (h : Follows k (taken ++ s :: t :: rest)) :
    (t.token.kind = .identifier → s.token.kind.leadsOn = true) ∧ t.token.kind ≠ .mark .colon := by
  induction taken generalizing k with
  | nil => exact ⟨h.2.2.2.1, h.2.2.2.2.1⟩
  | cons _ taken ih => exact ih h.2.2.2

theorem Follows.open_mem {k : Kind} {taken : List Stop} (h : Follows k taken) :
    ∀ s ∈ taken, s.token.kind ≠ .endOfFile := by
  induction taken generalizing k with
  | nil => exact fun _ h => absurd h List.not_mem_nil
  | cons s taken ih => exact List.forall_mem_cons.2 ⟨h.2.2.1, ih h.2.2.2⟩

end Lookahead

/-! ## Reading them -/

namespace Cursor

/-- The number of tokens that the type arguments here are written with. -/
def argumentWidth? (c : Cursor) : Option Nat :=
  ((Lookahead.ofCursor c).typeArguments Lookahead.typeArgumentDepth).map (·.consumed)

theorem argumentWidth?_eq_none {c : Cursor} (h : c.peekKind ≠ .mark .less) : c.argumentWidth? = none := by
  have hpeek : (Lookahead.ofCursor c).peek = c.peek := by
    unfold Lookahead.ofCursor Lookahead.peek Cursor.peek Cursor.peekNth
    rw [List.head?_eq_getElem?]
  have heat : (Lookahead.ofCursor c).eat (.mark .less) = none := by
    refine if_neg ?_
    rw [hpeek]
    exact h
  unfold argumentWidth? Lookahead.typeArgumentDepth Lookahead.typeArguments
  rw [heat]
  rfl

/-- Type arguments are found at every cursor that sees their tokens. -/
theorem argumentWidth?_eq_some {c : Cursor} {n : Nat} (hc : c.Closed) (h : c.argumentWidth? = some n) :
    ∃ taken s rest, c.ahead = (taken ++ [s]) ++ rest ∧ n = (taken ++ [s]).length ∧
      s.token.kind = .mark .greater ∧ Lookahead.Joins False (taken ++ [s]) ∧
      ∀ (c' : Cursor) (taken' rest' : List Stop), c'.ahead = taken' ++ rest' →
        taken'.map (·.token) = (taken ++ [s]).map (·.token) → c'.argumentWidth? = some n := by
  obtain ⟨l, hl, rfl⟩ := Option.map_eq_some_iff.1 h
  obtain ⟨taken, s, rest, hahead, hs, hn, hjoins, hreplay⟩ := Lookahead.typeArguments_replay hc hl
  rw [Nat.zero_add] at hn
  refine ⟨taken, s, rest, ?_, ?_, hs, hjoins, fun c' taken' rest' hc' ht => ?_⟩
  · rw [hahead, List.append_cons]
  · rw [hn, List.length_append, List.length_singleton]
  · unfold argumentWidth? Lookahead.ofCursor
    rw [hc', hreplay _ _ _ _ ht, hn, Nat.zero_add]

theorem argumentWidth?_congr {c c' : Cursor} (hc : c.Closed) (hc' : c'.Closed)
    (h : c.ahead.map (·.token) = c'.ahead.map (·.token)) : c.argumentWidth? = c'.argumentWidth? := by
  have himp : ∀ {c c' : Cursor} {n : Nat}, c.Closed → c.ahead.map (·.token) = c'.ahead.map (·.token) →
      c.argumentWidth? = some n → c'.argumentWidth? = some n := by
    intro c c' n hc h hn
    obtain ⟨taken, s, rest, hahead, -, -, -, hreplay⟩ := argumentWidth?_eq_some hc hn
    rw [hahead, List.map_append] at h
    obtain ⟨taken', rest', hahead', ht, -⟩ := List.map_eq_append_iff.1 h.symm
    exact hreplay c' taken' rest' hahead' ht
  exact Option.ext fun n => ⟨himp hc h, himp hc' h.symm⟩

end Cursor

namespace Production

variable {P : Insertion}

theorem genericArguments_eq :
    genericArguments = (asks Cursor.argumentWidth? >>= fun n => n.elim (pure ()) advance) := by
  funext ctx c
  unfold genericArguments
  rw [run_asks_bind, run_asks_bind]
  unfold Cursor.argumentWidth?
  cases (Lookahead.ofCursor c).typeArguments Lookahead.typeArgumentDepth <;> rfl

theorem Carries.advance {front : List Stop} {n : Nat} (hfront : front <:+ P.before)
    (hn : front.length ≤ n) :
    Passes P front (Production.advance n) (Production.advance n) (Production.advance n) := by
  induction front generalizing n with
  | nil => exact (Tracks.advance n).passes
  | cons s front ih =>
    obtain ⟨n, rfl⟩ : ∃ m, n = m + 1 := Nat.exists_eq_succ_of_ne_zero (by rintro rfl; cases hn)
    have hrest := ih ((List.suffix_cons s front).trans hfront) (Nat.le_of_succ_le_succ hn)
    refine .of_passes fun {ctx a d} hok => ⟨?_, hok⟩
    have hnext := Insertion.next_without hfront
    have hok' : Production.advance n ctx (P.without front) = .ok (a, d) := by
      rw [← hnext]
      exact hok
    exact (hrest.passes hok').1

/-- A lookahead for type arguments sees the same on both sides if it ends before the place. -/
theorem argumentWidth?_eq (hfits : P.Fits) {front : List Stop} (hfront : front <:+ P.before)
    (hne : front ≠ []) :
    (P.without front).argumentWidth? = (P.within front).argumentWidth? ∨
      ∃ n, front.length < n ∧ (P.without front).argumentWidth? = some n := by
  cases hwidth : (P.without front).argumentWidth? with
  | some n =>
    obtain ⟨taken, s, rest, hahead, hn, -, -, hreplay⟩ :=
      Cursor.argumentWidth?_eq_some (P.without_closed front) hwidth
    by_cases hle : n ≤ front.length
    · obtain ⟨front', rfl⟩ : taken ++ [s] <+: front :=
        List.prefix_of_prefix_length_le ⟨rest, hahead.symm⟩ (List.prefix_append front _) (hn ▸ hle)
      exact .inl (hreplay _ _ _ (List.append_assoc ..) rfl).symm
    · exact .inr ⟨n, Nat.not_le.1 hle, rfl⟩
  | none =>
    refine .inl ?_
    cases hwithin : (P.within front).argumentWidth? with
    | none => rfl
    | some n =>
      obtain ⟨taken, s, rest, hahead, hn, -, hjoins, hreplay⟩ :=
        Cursor.argumentWidth?_eq_some (P.within_closed front) hwithin
      by_cases hle : n ≤ front.length
      · obtain ⟨front', rfl⟩ : taken ++ [s] <+: front :=
          List.prefix_of_prefix_length_le ⟨rest, hahead.symm⟩ (List.prefix_append front _) (hn ▸ hle)
        cases hwidth.symm.trans (hreplay _ _ _ (List.append_assoc ..) rfl)
      · obtain ⟨more, hmore⟩ : front ++ [P.opening] <+: taken ++ [s] := by
          have hprefix : front ++ [P.opening] <+: (P.within front).ahead :=
            ⟨P.type ++ P.moved.ahead, (List.append_cons ..).symm⟩
          refine List.prefix_of_prefix_length_le hprefix ⟨rest, hahead.symm⟩ ?_
          rw [← hn, List.length_append, List.length_singleton]
          omega
        obtain ⟨init, t, rfl⟩ := (List.eq_nil_or_concat front).resolve_left hne
        rw [← hmore, List.concat_eq_append, List.append_assoc, List.append_assoc] at hjoins
        obtain ⟨hname, hcolon⟩ := (hjoins .identifier False.elim).behind
        have hlast := hfits.leadsOn (s := t) (.trans ⟨init, by simp⟩ hfront)
        rcases P.opening_kind with h | h
        · exact absurd h hcolon
        · cases hlast.symm.trans (hname (Insertion.opening_identifier h))

instance : Tracks P genericArguments genericArguments genericArguments := by
  rw [genericArguments_eq]
  have htracks : ∀ n : Option Nat, Tracks P (n.elim (pure ()) advance) (n.elim (pure ()) advance)
      (n.elim (pure ()) advance) := by
    rintro (_ | n)
    · exact .pure ()
    · exact .advance n
  refine .asks_bind (fun hc => Cursor.argumentWidth?_congr hc.closed hc.closed' hc.map_token)
    fun hfits front hfront hne => ?_
  refine (argumentWidth?_eq hfits hfront hne).imp_right ?_
  rintro ⟨n, hn, hwidth⟩
  rw [hwidth]
  exact .advance hfront (Nat.le_of_lt hn)

instance : Arrives P genericArguments genericArguments genericArguments := by
  rw [genericArguments_eq]
  refine ⟨fun {front} hfront hne ctx a hok => ?_⟩
  rw [run_asks_bind] at hok ⊢
  rw [run_asks_bind]
  cases hwidth : (P.without front).argumentWidth? with
  | none =>
    rw [hwidth] at hok
    exact absurd (Insertion.eq_nil_of_without (congrArg Prod.snd (Except.ok.inj hok))) hne
  | some n =>
    rw [hwidth] at hok
    obtain ⟨taken, s, rest, hahead, rfl, hs, hjoins, hreplay⟩ :=
      Cursor.argumentWidth?_eq_some (P.without_closed front) hwidth
    have hopen := (hjoins .identifier False.elim).open_mem
    have hend : (P.without front).advance (taken ++ [s]).length = P.past rest := by
      unfold Insertion.without
      rw [show front ++ P.behind.ahead = taken ++ [s] ++ rest from hahead]
      exact Cursor.advance_append hopen
    have hbehind : (P.without front).advance (taken ++ [s]).length = P.behind :=
      congrArg Prod.snd (Except.ok.inj hok)
    cases Insertion.past_inj (hend.symm.trans hbehind)
    have hfront' : front = taken ++ [s] := List.append_cancel_right hahead
    subst hfront'
    refine ⟨Insertion.fits_of_suffix (.trans ⟨taken, rfl⟩ hfront) (by rw [hs]; rfl), hok, ?_⟩
    rw [hreplay (P.within (taken ++ [s])) (taken ++ [s]) _ rfl rfl]
    exact congrArg (fun d => Except.ok ((), d)) (Cursor.advance_append hopen)

instance : Stays P genericArguments genericArguments := by
  rw [genericArguments_eq]
  refine ⟨fun {ctx a} hok => ?_⟩
  rw [run_asks_bind] at hok ⊢
  have hbehind : P.behind.peekKind ≠ .mark .less := by
    intro h
    have := P.ends
    rw [h] at this
    cases this
  have hinserted : (P.within []).peekKind ≠ .mark .less :=
    Insertion.opening_isAt (by simp) (by simp)
  rw [Cursor.argumentWidth?_eq_none hbehind] at hok
  rw [Cursor.argumentWidth?_eq_none hinserted]
  cases hok
  rfl

end Production

end ScriptFront
