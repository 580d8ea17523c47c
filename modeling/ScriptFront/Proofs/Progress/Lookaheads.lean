import ScriptFront.Production.TypeAnnotation

/-!
# Lookaheads come to an end

A repetition in a lookahead stops where the token that starts a round is missing, never because it has
run out of rounds: every round steps over that token, and nothing steps over the end of the file.
-/

namespace ScriptFront.Lookahead

/-- Whether a scan steps over tokens only, if any. -/
def Forward (scan : Lookahead → Option Lookahead) : Prop :=
  ∀ l l' : Lookahead, scan l = some l' → l'.last = l.last ∧ ∃ n, l'.ahead = l.ahead.drop n

variable {scan scan' : Lookahead → Option Lookahead} {k : Kind} {l l' : Lookahead}

namespace Forward

theorem stop : Forward some := by
  intro l l' h
  cases h
  exact ⟨rfl, 0, rfl⟩

theorem bind (h : Forward scan) (h' : Forward scan') : Forward fun l => scan l >>= scan' := by
  intro l l' hscan
  obtain ⟨m, hm, hm'⟩ := Option.bind_eq_some_iff.1 hscan
  obtain ⟨hlast, i, hi⟩ := h _ _ hm
  obtain ⟨hlast', j, hj⟩ := h' _ _ hm'
  exact ⟨hlast'.trans hlast, i + j, by rw [hj, hi, List.drop_drop]⟩

theorem ite (k : Kind) (h : Forward scan) (h' : Forward scan') :
    Forward fun l => if l.peek.kind = k then scan l else scan' l := by
  intro l l' hscan
  by_cases hk : l.peek.kind = k
  · simp only [if_pos hk] at hscan
    exact h _ _ hscan
  · simp only [if_neg hk] at hscan
    exact h' _ _ hscan

theorem eat (k : Kind) : Forward (·.eat k) := by
  intro l l' h
  simp only [Lookahead.eat] at h
  split at h
  · cases h
    exact ⟨rfl, 1, List.drop_one.symm⟩
  · cases h

theorem whileEat (h : Forward scan) (k : Kind) (rounds : List Stop) :
    Forward (Lookahead.whileEat k scan rounds) := by
  induction rounds with
  | nil => exact stop
  | cons _ rounds ih =>
    intro l l' hscan
    simp only [Lookahead.whileEat] at hscan
    split at hscan
    · exact stop _ _ hscan
    · next m hm =>
      split at hscan
      · cases hscan
      · next m' hm' =>
        obtain ⟨hlast, i, hi⟩ := ((eat k).bind h) _ _ (Option.bind_eq_some_iff.2 ⟨m, hm, hm'⟩)
        obtain ⟨hlast', j, hj⟩ := ih _ _ hscan
        exact ⟨hlast'.trans hlast, i + j, by rw [hj, hi, List.drop_drop]⟩

theorem eatAll (h : Forward scan) (k : Kind) : Forward (·.eatAll k scan) :=
  fun l _ hscan => h.whileEat k l.ahead l _ hscan

theorem typeReference (h : Forward scan) : Forward (typeReference scan) := by
  have hsuffix := eatAll (eat (.mark .closeBracket)) (.mark .openBracket)
  have hnames := eatAll (eat .identifier) (.mark .dot)
  exact (eat .identifier).bind (hnames.bind (.ite _ (h.bind hsuffix) (stop.bind hsuffix)))

theorem typeArguments (n : Nat) : Forward (typeArguments n) := by
  induction n with
  | zero =>
    intro l l' h
    cases h
  | succ n ih =>
    have hreference := typeReference ih
    exact (eat _).bind (hreference.bind ((eatAll hreference _).bind (eat _)))

end Forward

/-- A repetition with as many rounds as there are tokens stops only where no further round starts. -/
theorem whileEat_stops (h : Forward scan) (hk : k ≠ .endOfFile) (rounds : List Stop)
    (hrounds : l.ahead.length ≤ rounds.length) (hl : l.last.token.kind = .endOfFile)
    (hscan : whileEat k scan rounds l = some l') : l'.peek.kind ≠ k := by
  induction rounds generalizing l with
  | nil =>
    have hsame : l = l' := Option.some.inj hscan
    subst hsame
    have hnil : l.ahead = [] := List.length_eq_zero_iff.1 (Nat.le_zero.1 hrounds)
    unfold peek
    rw [hnil]
    intro hkind
    exact hk (hkind.symm.trans hl)
  | cons _ rounds ih =>
    simp only [whileEat] at hscan
    split at hscan
    · next hnone =>
      cases hscan
      intro hkind
      unfold eat at hnone
      rw [if_pos hkind] at hnone
      cases hnone
    · next m hm =>
      split at hscan
      · cases hscan
      · next m' hm' =>
        obtain ⟨hlast, n, hn⟩ := ((Forward.eat k).bind h) _ _ (Option.bind_eq_some_iff.2 ⟨m, hm, hm'⟩)
        obtain ⟨hlast', n', hn'⟩ := h _ _ hm'
        have hahead : m.ahead = l.ahead.tail := by
          unfold eat at hm
          split at hm
          · cases hm
            rfl
          · cases hm
        refine ih ?_ (by rw [hlast]; exact hl) hscan
        rw [List.length_cons] at hrounds
        rw [hn', hahead, List.length_drop, List.length_tail]
        omega

theorem eatAll_stops (h : Forward scan) (hk : k ≠ .endOfFile) (hl : l.last.token.kind = .endOfFile)
    (hscan : l.eatAll k scan = some l') : l'.peek.kind ≠ k :=
  whileEat_stops h hk l.ahead (Nat.le_refl _) hl hscan

end ScriptFront.Lookahead
