import ScriptFront.Proofs.Token.Places

/-!
# Cursors and the tokens they stand for

A cursor that has been made of a token list can be made again of the tokens that it has not read yet, so
what is left of a file is a token list again. `Cursor.Neat` is what such cursors have in common.
-/

namespace ScriptFront

namespace Stop

/-- Whether the tokens of a stop belong together: comments and attributes, and the token behind them. -/
structure Neat (s : Stop) : Prop where
  leading : ∀ t ∈ s.leading, t.kind.isComment = true
  token : s.token.kind.isComment = false

/-- The tokens of a stop in front of others make the stop again. -/
theorem Neat.foldr_cons {s : Stop} (h : s.Neat) (stops : List Stop) :
    s.tokens.foldr cons stops = s :: stops := by
  obtain ⟨leading, token⟩ := s
  obtain ⟨hleading, htoken⟩ := h
  dsimp only at hleading htoken
  unfold tokens
  rw [List.foldr_append]
  have hlast : [token].foldr cons stops = ⟨[], token⟩ :: stops := by
    simp [cons, htoken]
  rw [hlast]
  induction leading with
  | nil => rfl
  | cons t leading ih =>
    rw [List.forall_mem_cons] at hleading
    rw [List.foldr_cons, ih hleading.2]
    unfold cons
    rw [if_pos hleading.1]

theorem neat_cons (t : Token) {stops : List Stop} (h : ∀ s ∈ stops, s.Neat) :
    ∀ s ∈ cons t stops, s.Neat := by
  unfold cons
  by_cases ht : t.kind.isComment = true
  · rw [if_pos ht]
    cases stops with
    | nil => exact h
    | cons s rest =>
      obtain ⟨hs, hrest⟩ := List.forall_mem_cons.1 h
      exact List.forall_mem_cons.2 ⟨⟨List.forall_mem_cons.2 ⟨ht, hs.leading⟩, hs.token⟩, hrest⟩
  · rw [if_neg ht]
    exact List.forall_mem_cons.2 ⟨⟨List.forall_mem_nil _, Bool.eq_false_iff.2 ht⟩, h⟩

/-- A token in front of stops is the first of their tokens, if there is one that a comment can lead. -/
theorem tokens_cons (t : Token) {stops : List Stop} (h : stops ≠ []) :
    (cons t stops).flatMap tokens = t :: stops.flatMap tokens := by
  unfold cons
  split
  · obtain ⟨s, rest, rfl⟩ := List.exists_cons_of_ne_nil h
    rfl
  · rfl

end Stop

namespace Cursor

/-- Whether the cursor is what some tokens up to the end of a file make. -/
structure Neat (c : Cursor) : Prop where
  ahead : ∀ s ∈ c.ahead, s.Neat ∧ s.token.kind ≠ .endOfFile
  last : c.last.Neat
  closed : c.Closed

variable {c d : Cursor}

theorem Reaches.neat {n : Nat} (h : c.Reaches n d) (hc : c.Neat) : d.Neat := by
  obtain ⟨hlast, taken, htaken, -, -⟩ := h
  refine ⟨fun s hs => hc.ahead s ?_, hlast ▸ hc.last, ?_⟩
  · rw [htaken]
    exact List.mem_append_right _ hs
  · unfold Closed
    rw [hlast]
    exact hc.closed

theorem Neat.foldr_tokens (h : c.Neat) : c.tokens.foldr Stop.cons [] = c.ahead ++ [c.last] := by
  have hahead : ∀ (stops rest : List Stop), (∀ s ∈ stops, s.Neat) →
      (stops.flatMap Stop.tokens).foldr Stop.cons rest = stops ++ rest := by
    intro stops rest hstops
    induction stops with
    | nil => rfl
    | cons s stops ih =>
      rw [List.forall_mem_cons] at hstops
      rw [List.flatMap_cons, List.foldr_append, ih hstops.2, hstops.1.foldr_cons]
      rfl
  unfold tokens
  rw [List.foldr_append, h.last.foldr_cons, hahead _ _ fun s hs => (h.ahead s hs).1]

/-- A cursor is made again of the tokens that it has not read. -/
theorem Neat.ofTokens_tokens (h : c.Neat) : ofTokens c.tokens = c := by
  have hclosed : Cursor.closed c.tokens = c.tokens := by
    unfold Cursor.closed tokens Stop.tokens
    rw [← List.append_assoc, List.getLast?_concat]
    exact if_pos h.closed
  unfold ofTokens
  rw [hclosed, h.foldr_tokens]
  dsimp only
  rw [List.dropLast_concat, List.getLast?_concat]
  rfl

/-! ## Tokens in front of a cursor -/

theorem stops_ne_nil (c : Cursor) : c.ahead ++ [c.last] ≠ [] := by simp

section Front

variable (hd : d.Neat) (front : List Token)
include hd

/-- The stops of tokens in front of those that make a cursor. -/
theorem Neat.ofTokens_front :
    (ofTokens (front ++ d.tokens)).ahead ++ [(ofTokens (front ++ d.tokens)).last] =
      front.foldr Stop.cons (d.ahead ++ [d.last]) := by
  have hclosed : Cursor.closed (front ++ d.tokens) = front ++ d.tokens := by
    unfold Cursor.closed tokens Stop.tokens
    rw [← List.append_assoc, ← List.append_assoc, List.getLast?_concat]
    exact if_pos hd.closed
  obtain ⟨init, s, hstops⟩ := (List.eq_nil_or_concat _).resolve_left
    (map_token_foldr_cons front d.stops_ne_nil).2
  rw [List.concat_eq_append] at hstops
  unfold ofTokens
  rw [hclosed, List.foldr_append, hd.foldr_tokens, hstops]
  dsimp only
  rw [List.dropLast_concat, List.getLast?_concat]
  rfl

theorem Neat.stops_front :
    ∀ s ∈ (ofTokens (front ++ d.tokens)).ahead ++ [(ofTokens (front ++ d.tokens)).last], s.Neat := by
  rw [hd.ofTokens_front front]
  induction front with
  | nil =>
    exact List.forall_mem_append.2
      ⟨fun s hs => (hd.ahead s hs).1, List.forall_mem_singleton.2 hd.last⟩
  | cons t front ih => exact Stop.neat_cons t ih

theorem Neat.tokens_front : (ofTokens (front ++ d.tokens)).tokens = front ++ d.tokens := by
  have hstops : (front.foldr Stop.cons (d.ahead ++ [d.last])).flatMap Stop.tokens =
      front ++ d.tokens := by
    induction front with
    | nil =>
      rw [List.foldr_nil, List.flatMap_append, List.flatMap_singleton]
      rfl
    | cons t front ih =>
      have hne := (map_token_foldr_cons front d.stops_ne_nil).2
      rw [List.foldr_cons, Stop.tokens_cons t hne, ih]
      rfl
  rw [← hd.ofTokens_front front, List.flatMap_append, List.flatMap_singleton] at hstops
  exact hstops

theorem Neat.closed_front : (ofTokens (front ++ d.tokens)).Closed := by
  have htokens := (map_token_foldr_cons front d.stops_ne_nil).1
  rw [← hd.ofTokens_front front, List.map_append, List.map_append, ← List.append_assoc] at htokens
  have hlast := (List.append_inj' htokens rfl).2
  unfold Closed
  rw [show (ofTokens (front ++ d.tokens)).last.token = d.last.token from (List.cons.inj hlast).1]
  exact hd.closed

/-- If the tokens in front can be read, they do not end the file. -/
theorem Neat.neat_front {n : Nat} (h : (ofTokens (front ++ d.tokens)).Reaches n d) :
    (ofTokens (front ++ d.tokens)).Neat := by
  have hstops := hd.stops_front front
  have hclosed := hd.closed_front front
  obtain ⟨-, taken, htaken, -, hopen⟩ := h
  rw [List.forall_mem_append] at hstops
  refine ⟨fun s hs => ⟨hstops.1 s hs, ?_⟩, List.forall_mem_singleton.1 hstops.2, hclosed⟩
  rw [htaken] at hs
  obtain hs | hs := List.mem_append.1 hs
  · exact hopen s hs
  · exact (hd.ahead s hs).2

/-- Comments and attributes in front of another token lead it. -/
theorem Neat.ahead_front {gap more : List Token} {first : Token}
    (hfirst : (⟨gap, first⟩ : Stop).Neat) :
    (ofTokens (gap ++ first :: more ++ d.tokens)).ahead.head? = some ⟨gap, first⟩ := by
  have hstops := hd.ofTokens_front (gap ++ first :: more)
  have hne := (map_token_foldr_cons more d.stops_ne_nil).2
  have hcons := hfirst.foldr_cons (more.foldr Stop.cons (d.ahead ++ [d.last]))
  have hsplit : gap ++ first :: more = (⟨gap, first⟩ : Stop).tokens ++ more := by
    simp [Stop.tokens]
  rw [hsplit, List.foldr_append, hcons, ← hsplit] at hstops
  cases hahead : (ofTokens (gap ++ first :: more ++ d.tokens)).ahead with
  | nil =>
    rw [hahead] at hstops
    exact absurd (List.cons.inj hstops).2.symm hne
  | cons s stops =>
    rw [hahead] at hstops
    exact congrArg some (List.cons.inj hstops).1

end Front

/-- The cursor before a scanned text is neat, and has the whole text ahead. -/
theorem tokenize_neat {source : String} {tokens : List Token}
    (h : Source.tokenize source = .ok tokens) :
    (ofTokens tokens).Neat ∧ (ofTokens tokens).tokens = tokens := by
  have hat := Source.tokenize_at h
  obtain ⟨front, eof, rfl, heof, -⟩ := Source.tokenize_ends h
  have hend : Neat ⟨[], [], eof⟩ := by
    refine ⟨fun s hs => absurd hs List.not_mem_nil, ⟨List.forall_mem_nil _, ?_⟩, heof⟩
    show eof.kind.isComment = false
    rw [heof]
    rfl
  have hstops := List.forall_mem_append.1 (hend.stops_front front)
  refine ⟨⟨fun s hs => ⟨hstops.1 s hs, ?_⟩, List.forall_mem_singleton.1 hstops.2, hat.last⟩,
    hend.tokens_front front⟩
  have hvisible : s.token ∈ Token.visible (front ++ [eof]) := by
    rw [← hat.ahead]
    exact List.mem_map_of_mem hs
  unfold Token.visible at hvisible
  have hseen := (List.mem_filter.1 hvisible).2
  simp only [Bool.and_eq_true, bne_iff_ne] at hseen
  exact hseen.2

end Cursor

end ScriptFront
