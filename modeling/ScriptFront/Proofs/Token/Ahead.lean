import ScriptFront.Token.Cursor
import ScriptFront.Token.Source

/-!
# Cursors before known tokens

`Cursor.At` says which tokens a cursor has ahead of it, when nothing stands behind them but the end of
the file. What the cursor sees and where it gets by reading follows from that alone; comments have no
part in it.
-/

namespace ScriptFront

/-- The tokens that the grammar sees before the end of the file. -/
def Token.visible (tokens : List Token) : List Token :=
  tokens.filter fun t => !t.kind.isComment && t.kind != .endOfFile

namespace Cursor

/-- Whether `ts` are the tokens ahead, up to the end of the file. -/
structure At (c : Cursor) (ts : List Token) : Prop where
  ahead : c.ahead.map (·.token) = ts
  last : c.last.token.kind = .endOfFile

namespace At

variable {c : Cursor} {t : Token} {ts : List Token}

theorem peekNth (h : c.At ts) (n : Nat) : c.peekNth n = ts[n]?.getD c.last.token := by
  unfold Cursor.peekNth
  rw [← h.ahead, List.getElem?_map]
  cases c.ahead[n]? <;> rfl

theorem peek_cons (h : c.At (t :: ts)) : c.peek = t := h.peekNth 0

theorem peekNth_one_cons (h : c.At (t :: ts)) : c.peekNth 1 = ts.head?.getD c.last.token := by
  rw [h.peekNth, List.getElem?_cons_succ, List.head?_eq_getElem?]

theorem peekKind_cons (h : c.At (t :: ts)) : c.peekKind = t.kind := congrArg Token.kind h.peek_cons

theorem peekKind_nil (h : c.At []) : c.peekKind = .endOfFile := by
  have hpeek : c.peek = c.last.token := h.peekNth 0
  rw [peekKind, hpeek, h.last]

theorem isAt_nil (h : c.At []) {k : Kind} (hk : k ≠ .endOfFile) : c.isAt k = false := by
  rw [isAt, h.peekKind_nil, beq_eq_false_iff_ne]
  exact hk.symm

theorem remaining_eq (h : c.At ts) : c.remaining = ts.length := by
  rw [← h.ahead, List.length_map, remaining]

theorem next (h : c.At (t :: ts)) (ht : t.kind ≠ .endOfFile) : c.next.At ts := by
  obtain ⟨s, rest, hahead, hs, hrest⟩ := List.map_eq_cons_iff.1 h.ahead
  unfold Cursor.next
  rw [hahead]
  simp only
  rw [if_neg (by rw [hs]; exact ht)]
  exact ⟨hrest, h.last⟩

theorem advance {xs : List Token} (h : c.At (xs ++ ts)) (hxs : ∀ x ∈ xs, x.kind ≠ .endOfFile) :
    (c.advance xs.length).At ts := by
  induction xs generalizing c with
  | nil => exact h
  | cons x xs ih =>
    rw [List.forall_mem_cons] at hxs
    exact ih (h.next hxs.1) hxs.2

end At

/-! ## The first cursor -/

/-- Comments and attributes get no stop of their own. -/
theorem map_token_foldr_cons (tokens : List Token) {stops : List Stop} (h : stops ≠ []) :
    (tokens.foldr Stop.cons stops).map (·.token) =
        tokens.filter (!·.kind.isComment) ++ stops.map (·.token) ∧
      tokens.foldr Stop.cons stops ≠ [] := by
  induction tokens with
  | nil => exact ⟨rfl, h⟩
  | cons t tokens ih =>
    obtain ⟨ihmap, ihne⟩ := ih
    obtain ⟨s, rest, hrest⟩ := List.exists_cons_of_ne_nil ihne
    rw [hrest, List.map_cons] at ihmap
    rw [List.foldr_cons, List.filter_cons, hrest]
    unfold Stop.cons
    cases hcomment : t.kind.isComment with
    | true => simp [ihmap]
    | false => simp [ihmap]

/-- The cursor before a whole token list sees its visible tokens. -/
theorem ofTokens_at {front : List Token} {eof : Token} (heof : eof.kind = .endOfFile)
    (hfront : ∀ t ∈ front, t.kind ≠ .endOfFile) :
    (ofTokens (front ++ [eof])).At (Token.visible (front ++ [eof])) := by
  have hclosed : closed (front ++ [eof]) = front ++ [eof] := by
    unfold closed
    rw [List.getLast?_concat]
    exact if_pos heof
  have heofStop : [eof].foldr Stop.cons [] = [⟨[], eof⟩] := by
    simp [Stop.cons, heof, Kind.isComment]
  obtain ⟨hmap, hne⟩ := map_token_foldr_cons front (List.cons_ne_nil (⟨[], eof⟩ : Stop) [])
  have hvisible : Token.visible (front ++ [eof]) = front.filter (!·.kind.isComment) := by
    unfold Token.visible
    rw [List.filter_append]
    have heofGone : [eof].filter (fun t => !t.kind.isComment && t.kind != .endOfFile) = [] := by
      simp [heof]
    rw [heofGone, List.append_nil]
    refine List.filter_congr fun t ht => ?_
    simp [hfront t ht]
  unfold ofTokens
  rw [hclosed, List.foldr_append, heofStop, hvisible]
  obtain ⟨init, s, hstops⟩ := (List.eq_nil_or_concat _).resolve_left hne
  rw [List.concat_eq_append] at hstops
  rw [hstops, List.map_append] at hmap
  obtain ⟨hinit, hs⟩ := List.append_inj' hmap rfl
  rw [hstops]
  refine ⟨?_, ?_⟩
  · show (init ++ [s]).dropLast.map (·.token) = _
    rw [List.dropLast_concat]
    exact hinit
  · show ((init ++ [s]).getLast?.getD ⟨[], .endOfFile .start⟩).token.kind = _
    rw [List.getLast?_concat, Option.getD_some, show s.token = eof from (List.cons.inj hs).1]
    exact heof

end Cursor

namespace Source

theorem tokensFrom_ends {fuel : Nat} {cs : List Char} {p : Position} {before tokens : List Token}
    (hbefore : ∀ t ∈ before, t.kind ≠ .endOfFile) (h : tokensFrom fuel cs p before = .ok tokens) :
    ∃ front eof, tokens = front ++ [eof] ∧ eof.kind = .endOfFile ∧
      ∀ t ∈ front, t.kind ≠ .endOfFile := by
  induction fuel generalizing cs p before with
  | zero => cases h
  | succ fuel ih =>
    unfold tokensFrom at h
    simp only at h
    split at h
    · cases h
    · next l _ =>
      split at h
      · next hkind =>
        cases h
        refine ⟨before.reverse, _, List.reverse_cons, hkind, ?_⟩
        simpa using hbefore
      · next hkind =>
        refine ih ?_ h
        rw [List.forall_mem_cons]
        exact ⟨hkind, hbefore⟩

/-- A tokenized text ends with the end of the file, and has no other one. -/
theorem tokenize_ends {s : String} {tokens : List Token} (h : tokenize s = .ok tokens) :
    ∃ front eof, tokens = front ++ [eof] ∧ eof.kind = .endOfFile ∧
      ∀ t ∈ front, t.kind ≠ .endOfFile :=
  tokensFrom_ends (fun _ h => absurd h List.not_mem_nil) h

/-- The cursor before a tokenized text sees its visible tokens. -/
theorem tokenize_at {s : String} {tokens : List Token} (h : tokenize s = .ok tokens) :
    (Cursor.ofTokens tokens).At (Token.visible tokens) := by
  obtain ⟨front, eof, rfl, heof, hfront⟩ := tokenize_ends h
  exact Cursor.ofTokens_at heof hfront

end Source

end ScriptFront
