import Mathlib.Data.List.Basic
import ScriptFront.Proofs.Token.Apart
import ScriptFront.Proofs.Token.Extents
import ScriptFront.Proofs.Token.Rescan

/-!
# Scans of parts of a text

`Source.scan` scans characters that start at some place. What it finds does not depend on the place
(`scan_findings`), and a scan of a text with more behind it goes on where the scan of the text ends, if the
last lexeme of the text does not run on (`scan_append`).
-/

namespace ScriptFront.Source

/-- The tokens of `cs`, which start at `p`. -/
def scan (cs : List Char) (p : Position) : Except Error (List Token) := tokensFrom (cs.length + 1) cs p []

theorem tokenize_eq_scan (s : String) : tokenize s = scan s.toList .start := rfl

/-! ## Steps of a scan -/

/-- The tokens found before stand in front of the others. -/
theorem tokensFrom_before (fuel : Nat) (cs : List Char) (p : Position) (before : List Token) :
    tokensFrom fuel cs p before = (tokensFrom fuel cs p []).map (before.reverse ++ ·) := by
  induction fuel generalizing cs p before with
  | zero => rfl
  | succ fuel ih =>
    unfold tokensFrom
    dsimp only
    split
    · rfl
    · split
      · rw [List.reverse_cons]
        rfl
      · rw [ih _ _ (_ :: before), ih _ _ [_]]
        generalize tokensFrom fuel _ _ [] = found
        cases found with
        | error e => rfl
        | ok ts => simp [Except.map]

/-- There is more fuel than a scan needs. -/
theorem tokensFrom_fuel {fuel more : Nat} {cs : List Char} (hfuel : cs.length < fuel) (hmore : cs.length < more)
    (p : Position) (before : List Token) : tokensFrom fuel cs p before = tokensFrom more cs p before := by
  induction fuel generalizing more cs p before with
  | zero => exact absurd hfuel (Nat.not_lt_zero _)
  | succ fuel ih =>
    obtain ⟨more, rfl⟩ := Nat.exists_eq_succ_of_ne_zero (Nat.ne_of_gt (Nat.zero_lt_of_lt hmore))
    unfold tokensFrom
    dsimp only
    generalize hrest : cs.drop (cs.takeWhile isBlank).length = rest
    have hlength : rest.length ≤ cs.length := by
      rw [← hrest, List.length_drop]
      exact Nat.sub_le _ _
    split
    · rfl
    · next l hread =>
      split
      · rfl
      · next hinside =>
        cases rest with
        | nil =>
          cases hread
          exact absurd rfl hinside
        | cons c rest =>
          have hpos := (Lexeme.spans_atStart hread).pos
          have hshort : ((c :: rest).drop l.length).length < cs.length := by
            rw [List.length_cons] at hlength
            rw [List.length_drop, List.length_cons]
            omega
          exact ih (by omega) (by omega) _ _

section Steps

variable {c : Char} {cs : List Char} {l : Lexeme} (p : Position)

theorem scan_blank (hc : isBlank c = true) (cs : List Char) : scan (c :: cs) p = scan cs (p.advance c) := by
  unfold scan
  rw [tokensFrom_blank hc]
  exact tokensFrom_fuel (Nat.lt_succ_of_lt (Nat.lt_succ_self _)) (Nat.lt_succ_self _) _ _

theorem scan_lexeme (h : Lexeme.atStart cs = .ok l) (hne : cs ≠ []) :
    scan cs p = (scan (cs.drop l.length) (p.advanceAll (cs.take l.length))).map (⟨l.kind, l.text, p⟩ :: ·) := by
  obtain ⟨c, rest, rfl⟩ := List.exists_cons_of_ne_nil hne
  have hspans := Lexeme.spans_atStart h
  have hblanks : (c :: rest).takeWhile isBlank = [] :=
    List.takeWhile_cons_of_neg (by rw [Lexeme.not_isBlank_of_atStart h]; exact Bool.false_ne_true)
  unfold scan
  rw [tokensFrom, hblanks]
  simp only [List.length_nil, List.drop_zero, Position.advanceAll_nil, h, if_neg hspans.inside]
  have hfuel : ((c :: rest).drop l.length).length < (c :: rest).length := by
    have := hspans.pos
    rw [List.length_drop, List.length_cons]
    omega
  rw [tokensFrom_before, tokensFrom_fuel hfuel (Nat.lt_succ_self _)]
  rfl

/-- A lexeme that spans `front` leaves the scan at what stands behind it. -/
theorem scan_front {kind : Kind} {text : String} {front rest : List Char}
    (h : Lexeme.atStart (front ++ rest) = .ok ⟨kind, text, front.length⟩) (hne : front ≠ []) :
    scan (front ++ rest) p = (scan rest (p.advanceAll front)).map (⟨kind, text, p⟩ :: ·) := by
  rw [scan_lexeme p h (List.append_ne_nil_of_left_ne_nil hne rest), List.drop_left, List.take_left]

theorem scan_error {cause : Cause} (h : Lexeme.atStart (c :: cs) = .error cause) (hc : isBlank c = false) :
    scan (c :: cs) p = .error ⟨cause, p⟩ := by
  have hblanks : (c :: cs).takeWhile isBlank = [] :=
    List.takeWhile_cons_of_neg (by rw [hc]; exact Bool.false_ne_true)
  unfold scan
  rw [tokensFrom, hblanks]
  simp only [List.length_nil, List.drop_zero, Position.advanceAll_nil, h]

end Steps

/-- What holds of the end of a text, and of a text if it holds behind the first blank or lexeme, holds of
every text. -/
theorem scan_induction {motive : List Char → Prop} (nil : motive [])
    (blank : ∀ c cs, isBlank c = true → motive cs → motive (c :: cs))
    (lexeme : ∀ c cs l, Lexeme.atStart (c :: cs) = .ok l → l.Spans (c :: cs).length →
      motive ((c :: cs).drop l.length) → motive (c :: cs))
    (error : ∀ c cs cause, isBlank c = false → Lexeme.atStart (c :: cs) = .error cause → motive (c :: cs))
    (cs : List Char) : motive cs := by
  induction hn : cs.length using Nat.strong_induction_on generalizing cs with
  | h n ih =>
    subst hn
    cases cs with
    | nil => exact nil
    | cons c cs =>
      by_cases hc : isBlank c = true
      · exact blank c cs hc (ih _ (Nat.lt_succ_self _) cs rfl)
      · cases hread : Lexeme.atStart (c :: cs) with
        | error cause => exact error c cs cause (Bool.eq_false_iff.2 hc) hread
        | ok l =>
          have hspans := Lexeme.spans_atStart hread
          refine lexeme c cs l hread hspans (ih _ ?_ _ rfl)
          have := hspans.pos
          rw [List.length_drop, List.length_cons]
          omega

/-! ## Scans from any place -/

/-- What a scan finds: the lexemes, each with the characters before it. -/
abbrev Finding := Lexeme × List Char

/-- The token that is found by a scan from `p`. -/
def Finding.token (p : Position) (f : Finding) : Token := ⟨f.1.kind, f.1.text, p.advanceAll f.2⟩

/-- A finding with more characters before it. -/
def Finding.behind (before : List Char) (f : Finding) : Finding := (f.1, before ++ f.2)

theorem Finding.token_behind (p : Position) (before : List Char) (f : Finding) :
    (f.behind before).token p = f.token (p.advanceAll before) := by
  unfold Finding.token Finding.behind
  rw [Position.advanceAll_append]

/-- Whether the findings stand in `cs`, one behind the other. -/
structure InOrder (cs : List Char) (findings : List Finding) : Prop where
  inside : ∀ f ∈ findings, f.2 <+: cs
  ordered : findings.Pairwise fun f g => f.2 <+: g.2

theorem InOrder.cons {before cs : List Char} {findings : List Finding} (h : InOrder cs findings)
    {f : Finding} (hf : f.2 <+: before) : InOrder (before ++ cs) (f :: findings.map (Finding.behind before)) := by
  have hbehind : ∀ g ∈ findings.map (Finding.behind before), before <+: g.2 := by
    intro g hg
    obtain ⟨g, -, rfl⟩ := List.mem_map.1 hg
    exact List.prefix_append before g.2
  constructor
  · intro g hg
    rcases List.mem_cons.1 hg with rfl | hg
    · exact hf.trans (List.prefix_append before cs)
    · obtain ⟨found, hfound, rfl⟩ := List.mem_map.1 hg
      exact (List.prefix_append_right_inj before).2 (h.inside found hfound)
  · refine List.pairwise_cons.2 ⟨fun g hg => hf.trans (hbehind g hg), ?_⟩
    refine List.pairwise_map.2 (h.ordered.imp fun hfg => ?_)
    exact (List.prefix_append_right_inj before).2 hfg

theorem InOrder.behind (before : List Char) {cs : List Char} {findings : List Finding} (h : InOrder cs findings) :
    InOrder (before ++ cs) (findings.map (Finding.behind before)) :=
  have hcons := h.cons (f := (⟨.endOfFile, "", 0⟩, before)) (List.prefix_refl before)
  ⟨fun g hg => hcons.inside g (List.mem_cons_of_mem _ hg), (List.pairwise_cons.1 hcons.ordered).2⟩

/-- A scan finds the same from every place, or fails with the same cause. -/
theorem scan_findings (cs : List Char) :
    (∃ cause before, ∀ p, scan cs p = .error ⟨cause, p.advanceAll before⟩) ∨
      ∃ findings, InOrder cs findings ∧ ∀ p, scan cs p = .ok (findings.map (Finding.token p)) := by
  induction cs using scan_induction with
  | nil => exact .inr ⟨[(⟨.endOfFile, "", 0⟩, [])], ⟨by simp, List.pairwise_singleton _ _⟩, fun p => rfl⟩
  | blank c cs hc ih =>
    rcases ih with ⟨cause, before, hscan⟩ | ⟨findings, hfindings, hscan⟩
    · refine .inl ⟨cause, c :: before, fun p => ?_⟩
      rw [scan_blank p hc, hscan]
      rfl
    · refine .inr ⟨findings.map (Finding.behind [c]), hfindings.behind [c], fun p => ?_⟩
      rw [scan_blank p hc, hscan, List.map_map]
      refine congrArg Except.ok (List.map_congr_left fun f _ => ?_)
      exact (Finding.token_behind p [c] f).symm
  | error c cs cause hc hread => exact .inl ⟨cause, [], fun p => scan_error p hread hc⟩
  | lexeme c cs l hread _ ih =>
    rcases ih with ⟨cause, before, hscan⟩ | ⟨findings, hfindings, hscan⟩
    · refine .inl ⟨cause, (c :: cs).take l.length ++ before, fun p => ?_⟩
      rw [scan_lexeme p hread (List.cons_ne_nil c cs), hscan, Position.advanceAll_append]
      rfl
    · have hcons := hfindings.cons (f := (l, [])) (List.nil_prefix (l := (c :: cs).take l.length))
      rw [List.take_append_drop] at hcons
      refine .inr ⟨_, hcons, fun p => ?_⟩
      rw [scan_lexeme p hread (List.cons_ne_nil c cs), hscan, List.map_cons, List.map_map]
      refine congrArg Except.ok (congrArg _ (List.map_congr_left fun f _ => ?_))
      exact (Finding.token_behind p _ f).symm

/-! ## Texts with more behind them -/

/-- Whether the last of the tokens does not run on when a blank or an equals sign is written behind the
characters that they are scanned of. -/
def EndApart (cs : List Char) (tokens : List Token) : Prop :=
  ∀ t ∈ tokens.getLast?, Lexeme.StaysApart t.kind ∨ t.kind = .mark .greater ∧ cs.getLast? ≠ some '>'

theorem EndApart.tail (before : List Char) (front : List Token) {cs : List Char} {tokens : List Token}
    (h : EndApart (before ++ cs) (front ++ tokens)) (hempty : cs = [] → tokens = []) : EndApart cs tokens := by
  intro t ht
  have hne : tokens ≠ [] := fun hnil => by
    rw [hnil] at ht
    cases ht
  rw [← List.getLast?_append_of_ne_nil before (mt hempty hne)]
  exact h t (by rwa [List.getLast?_append_of_ne_nil front hne])

/-- The last lexeme of a text stays apart if its token does. -/
theorem EndApart.stays {cs : List Char} {l : Lexeme} {p : Position} (hread : Lexeme.atStart cs = .ok l)
    (h : EndApart cs [⟨l.kind, l.text, p⟩]) (hend : l.length = cs.length) : Lexeme.StaysApart l.kind := by
  refine (h _ rfl).resolve_right fun ⟨hgreater, hlast⟩ => hlast ?_
  have hchars := Lexeme.take_of_mark (Lexeme.mark_of_atStart hread hgreater) hgreater
  rw [hend, List.take_length] at hchars
  rw [hchars]
  rfl

section Behind

variable {cs : List Char} {tokens : List Token} {eof : Token} {p : Position}

theorem eq_nil_of_scan (h : scan [] p = .ok (tokens ++ [eof])) : tokens = [] :=
  (List.append_eq_singleton_iff.1 (Except.ok.inj h).symm).elim (·.1) fun h => nomatch h.2

/-- The tokens of a text are that of its first lexeme and those of what is behind it. -/
theorem exists_of_scan_lexeme {l : Lexeme} (hread : Lexeme.atStart cs = .ok l) (hne : cs ≠ [])
    (h : scan cs p = .ok (tokens ++ [eof])) : ∃ front, tokens = ⟨l.kind, l.text, p⟩ :: front ∧
      scan (cs.drop l.length) (p.advanceAll (cs.take l.length)) = .ok (front ++ [eof]) := by
  rw [scan_lexeme p hread hne] at h
  cases hscan : scan (cs.drop l.length) (p.advanceAll (cs.take l.length)) with
  | error e =>
    rw [hscan] at h
    cases h
  | ok found =>
    obtain ⟨front, last, rfl, -⟩ := tokensFrom_ends (fun _ h => absurd h List.not_mem_nil) hscan
    rw [hscan] at h
    have htokens : tokens = ⟨l.kind, l.text, p⟩ :: front ∧ [eof] = [last] :=
      List.append_inj' (Except.ok.inj h).symm rfl
    exact ⟨front, htokens.1, by rw [htokens.2]⟩

/-- Where there are no tokens there are only blanks. -/
theorem isBlank_of_scan (h : scan cs p = .ok ([] ++ [eof])) : ∀ c ∈ cs, isBlank c = true := by
  induction cs using scan_induction generalizing p with
  | nil => exact List.forall_mem_nil _
  | blank b cs hb ih =>
    rw [scan_blank p hb] at h
    exact List.forall_mem_cons.2 ⟨hb, ih h⟩
  | error b cs cause hb hread =>
    rw [scan_error p hread hb] at h
    cases h
  | lexeme b cs l hread _ _ =>
    obtain ⟨front, hfront, -⟩ := exists_of_scan_lexeme hread (List.cons_ne_nil b cs) h
    cases hfront

/-- Behind a text whose last lexeme does not run on the scan starts again. -/
theorem scan_append {c : Char} (hc : c = ' ' ∨ c = '=') (rest : List Char)
    (h : scan cs p = .ok (tokens ++ [eof])) (hend : EndApart cs tokens) :
    scan (cs ++ c :: rest) p = (scan (c :: rest) (p.advanceAll cs)).map (tokens ++ ·) := by
  induction cs using scan_induction generalizing p tokens with
  | nil =>
    obtain rfl := eq_nil_of_scan h
    show scan (c :: rest) p = (scan (c :: rest) p).map id
    cases scan (c :: rest) p <;> rfl
  | blank b cs hb ih =>
    rw [scan_blank p hb] at h
    rw [List.cons_append, scan_blank p hb, ih h (EndApart.tail [b] [] hend ?_)]
    · rfl
    · rintro rfl
      exact eq_nil_of_scan h
  | error b cs cause hb hread =>
    rw [scan_error p hread hb] at h
    cases h
  | lexeme b cs l hread hspans ih =>
    obtain ⟨front, rfl, hscan⟩ := exists_of_scan_lexeme hread (List.cons_ne_nil b cs) h
    have hapart : EndApart ((b :: cs).drop l.length) front := by
      refine EndApart.tail ((b :: cs).take l.length) [⟨l.kind, l.text, p⟩] ?_ fun hdrop => ?_
      · rw [List.take_append_drop]
        exact hend
      · rw [hdrop] at hscan
        exact eq_nil_of_scan hscan
    have hstays : l.length = (b :: cs).length → Lexeme.StaysApart l.kind := by
      intro hlength
      rw [hlength, List.drop_length] at hscan
      rw [eq_nil_of_scan hscan] at hend
      exact hend.stays hread hlength
    rw [scan_lexeme p (Lexeme.atStart_append hc rest hread (List.cons_ne_nil b cs) hstays) (by simp),
      List.drop_append_of_le_length hspans.le, List.take_append_of_le_length hspans.le, ih hscan hapart,
      ← Position.advanceAll_append, List.take_append_drop]
    generalize scan (c :: rest) (p.advanceAll (b :: cs)) = behind
    cases behind <;> rfl

/-- A `>` at the end of a text makes one sign with the equals sign behind it. -/
theorem scan_greaterEquals {g : Token} (rest : List Char) (h : scan cs p = .ok (tokens ++ [g] ++ [eof]))
    (hg : g.kind = .mark .greater) (hlast : cs.getLast? = some '>') :
    scan (cs ++ '=' :: rest) p = (scan rest (p.advanceAll (cs ++ ['=']))).map
      fun ts => tokens ++ ⟨.mark .greaterEquals, ">=", g.position⟩ :: ts := by
  induction cs using scan_induction generalizing p tokens with
  | nil => cases hlast
  | blank b cs hb ih =>
    rw [scan_blank p hb] at h
    have hne : cs ≠ [] := by
      rintro rfl
      exact absurd (eq_nil_of_scan h) (by simp)
    rw [List.getLast?_cons_of_ne_nil hne] at hlast
    rw [List.cons_append, scan_blank p hb, ih h hlast]
    rfl
  | error b cs cause hb hread =>
    rw [scan_error p hread hb] at h
    cases h
  | lexeme b cs l hread hspans ih =>
    obtain ⟨front, hfront, hscan⟩ := exists_of_scan_lexeme hread (List.cons_ne_nil b cs) h
    have hdrop : (b :: cs).drop l.length ≠ [] → ((b :: cs).drop l.length).getLast? = some '>' := by
      intro hne
      rw [← hlast, ← List.getLast?_append_of_ne_nil ((b :: cs).take l.length) hne, List.take_append_drop]
    cases tokens with
    | nil =>
      obtain ⟨rfl, rfl⟩ := List.cons.inj hfront
      -- The sign is all there is: a blank behind it would be the last character.
      have hnil : (b :: cs).drop l.length = [] := by
        by_contra hne
        exact absurd (isBlank_of_scan hscan _ (List.mem_of_getLast? (hdrop hne))) (by decide)
      have hchars := Lexeme.take_of_mark (Lexeme.mark_of_atStart hread hg) hg
      rw [List.take_of_length_le (List.drop_eq_nil_iff.1 hnil)] at hchars
      rw [hchars]
      exact scan_lexeme (l := ⟨.mark .greaterEquals, ">=", 2⟩) p rfl (List.cons_ne_nil _ _)
    | cons t tokens =>
      obtain ⟨rfl, rfl⟩ := List.cons.inj hfront
      have hne : (b :: cs).drop l.length ≠ [] := by
        intro hnil
        rw [hnil] at hscan
        exact absurd (eq_nil_of_scan hscan) (by simp)
      have hinside : l.length ≠ (b :: cs).length := fun hlength => hne (List.drop_eq_nil_of_le hlength.ge)
      rw [scan_lexeme p (Lexeme.atStart_append (.inr rfl) rest hread (List.cons_ne_nil b cs) (absurd · hinside))
          (by simp),
        List.drop_append_of_le_length hspans.le, List.take_append_of_le_length hspans.le, ih hscan (hdrop hne),
        ← Position.advanceAll_append, ← List.append_assoc, List.take_append_drop]
      generalize scan rest (p.advanceAll (b :: cs ++ ['='])) = behind
      cases behind <;> rfl

end Behind

end ScriptFront.Source
