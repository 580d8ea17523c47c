import Mathlib.Data.List.DropRight
import ScriptFront.Proofs.Cursor.Unread
import ScriptFront.Proofs.Erasure.Insertion

/-!
# Insertions into a token list

What is inserted between the tokens of a list gets the comments that stand before the place. They are
missing behind the place then, which the grammar does not see unless there are attributes among them.
-/

namespace ScriptFront

/-! ## Stops of a token list -/

namespace Stop

variable {stops : List Stop}

/-- Tokens that the grammar sees have their own stops. -/
theorem foldr_cons_of_seen {w : List Token} (h : ∀ t ∈ w, t.kind.isComment = false) (stops : List Stop) :
    w.foldr cons stops = w.map (mk []) ++ stops := by
  induction w with
  | nil => rfl
  | cons t w ih =>
    rw [List.forall_mem_cons] at h
    rw [List.foldr_cons, ih h.2]
    unfold cons
    rw [h.1]
    rfl

/-- Comments go to the stop behind them. -/
theorem foldr_cons_of_comments {gap : List Token} (h : ∀ t ∈ gap, t.kind.isComment = true) (s : Stop)
    (stops : List Stop) :
    gap.foldr cons (s :: stops) = { s with leading := gap ++ s.leading } :: stops := by
  induction gap with
  | nil => rfl
  | cons t gap ih =>
    rw [List.forall_mem_cons] at h
    rw [List.foldr_cons, ih h.2]
    unfold cons
    rw [h.1]
    rfl

theorem token_mem {front : List Token} {s : Stop} (h : s ∈ front.foldr cons []) : s.token ∈ front := by
  induction front generalizing s with
  | nil => cases h
  | cons t front ih =>
    rw [List.foldr_cons] at h
    cases hstops : front.foldr cons [] with
    | nil =>
      rw [hstops] at h
      unfold cons at h
      split at h
      · cases h
      · rw [List.mem_singleton.1 h]
        exact List.mem_cons_self
    | cons u rest =>
      have hmem (s : Stop) (hs : s = u ∨ s ∈ rest) : s.token ∈ t :: front :=
        List.mem_cons_of_mem t (ih (hstops ▸ List.mem_cons.2 hs))
      rw [hstops] at h
      unfold cons at h
      split at h
      · rcases List.mem_cons.1 h with rfl | h
        · exact hmem u (.inl rfl)
        · exact hmem s (.inr h)
      · rcases List.mem_cons.1 h with rfl | h
        · exact List.mem_cons_self
        · exact hmem s (List.mem_cons.1 h)

/-- Only the first of the stops behind a token changes with it. -/
theorem foldr_cons_append (h : stops ≠ []) (front : List Token) (rest : List Stop) :
    front.foldr cons (stops ++ rest) = front.foldr cons stops ++ rest := by
  induction front with
  | nil => rfl
  | cons t front ih =>
    obtain ⟨s, more, hmore⟩ := List.exists_cons_of_ne_nil (Cursor.map_token_foldr_cons front h).2
    rw [List.foldr_cons, ih, List.foldr_cons, hmore]
    unfold cons
    split <;> rfl

/-- Behind a token that the grammar sees, the stops do not depend on what is in front. -/
theorem foldr_cons_front {front : List Token} (h : ∀ t ∈ front.getLast?, t.kind.isComment = false)
    (stops : List Stop) : front.foldr cons stops = front.foldr cons [] ++ stops := by
  rcases List.eq_nil_or_concat front with rfl | ⟨init, t, rfl⟩
  · rfl
  · rw [List.concat_eq_append] at h ⊢
    have ht : t.kind.isComment = false := h t List.getLast?_concat
    have hcons (stops : List Stop) : (init ++ [t]).foldr cons stops = init.foldr cons ([⟨[], t⟩] ++ stops) := by
      rw [List.foldr_append, foldr_cons_of_seen (w := [t]) (List.forall_mem_singleton.2 ht)]
      rfl
    rw [hcons, hcons, List.append_nil, foldr_cons_append (by simp)]

end Stop

namespace Cursor

/-- What stands ahead, with the end of the file. -/
def stops (c : Cursor) : List Stop := c.ahead ++ [c.last]

theorem stops_inj {c d : Cursor} (h : c.stops = d.stops) : c = d := by
  obtain ⟨hahead, hlast⟩ := List.append_inj' h rfl
  obtain ⟨ahead, last⟩ := c
  cases hahead
  cases hlast
  rfl

theorem stops_ofTokens (tokens : List Token) : (ofTokens tokens).stops = (closed tokens).foldr Stop.cons [] := by
  obtain ⟨front, eof, htokens, heof⟩ := closed_ends tokens
  have hcomment : eof.kind.isComment = false := heof ▸ rfl
  rw [← ofTokens_closed, htokens, List.foldr_append,
    Stop.foldr_cons_of_seen (w := [eof]) (List.forall_mem_singleton.2 hcomment)]
  exact ofTokens_stops front heof

theorem closed_append {behind : List Token} (h : behind ≠ []) (before : List Token) :
    closed (before ++ behind) = before ++ closed behind := by
  obtain ⟨init, t, rfl⟩ := (List.eq_nil_or_concat behind).resolve_left h
  rw [List.concat_eq_append]
  unfold closed
  rw [← List.append_assoc, List.getLast?_concat, List.getLast?_concat]
  dsimp only
  split <;> simp only [List.append_assoc]

/-- Tokens behind others, where the last of the others is no comment. -/
theorem ofTokens_append {front behind : List Token} (hfront : ∀ t ∈ front.getLast?, t.kind.isComment = false)
    (h : behind ≠ []) : (ofTokens (front ++ behind)).stops = front.foldr Stop.cons [] ++ (ofTokens behind).stops := by
  rw [stops_ofTokens, stops_ofTokens, closed_append h, List.foldr_append, Stop.foldr_cons_front hfront]

theorem Alike.of_stops {c d : Cursor} (h : List.Forall₂ Stop.Alike c.stops d.stops) (hc : c.Closed) :
    c.Alike d := by
  have hlength : c.ahead.length = d.ahead.length := by
    have hstops := h.length_eq
    unfold stops at hstops
    rw [List.length_append, List.length_append] at hstops
    exact Nat.add_right_cancel hstops
  have hahead := List.forall₂_take_append _ _ _ h
  have hlast := List.forall₂_drop_append _ _ _ h
  rw [← hlength] at hahead hlast
  unfold stops at hahead hlast
  rw [List.take_left] at hahead
  rw [List.drop_left] at hlast
  exact ⟨hahead, (List.forall₂_cons.1 hlast).1, hc⟩

/-- Comments in front of tokens change nothing but comments. -/
theorem ofTokens_alike {gap behind : List Token} (hgap : ∀ t ∈ gap, t.kind.isComment = true)
    (hattributes : ∀ t ∈ gap, t.kind ≠ .attribute) (h : behind ≠ []) :
    (ofTokens (gap ++ behind)).Alike (ofTokens behind) := by
  refine .of_stops ?_ (ofTokens_shows _).closed
  obtain ⟨s, rest, hstops⟩ := List.exists_cons_of_ne_nil (ofTokens behind).stops_ne_nil
  have hbehind : (ofTokens behind).stops = s :: rest := hstops
  have hnone : gap.filter (·.kind = .attribute) = [] := by
    rw [List.filter_eq_nil_iff]
    simpa using hattributes
  rw [stops_ofTokens, closed_append h, List.foldr_append, ← stops_ofTokens, hbehind,
    Stop.foldr_cons_of_comments hgap]
  refine .cons ⟨rfl, ?_⟩ (List.forall₂_same.2 fun s _ => .refl s)
  rw [List.filter_append, hnone]
  rfl

end Cursor

/-! ## Insertions -/

namespace Token

/-- The comments and attributes at the end of a token list. -/
def trailing (tokens : List Token) : List Token := tokens.rtakeWhile fun t => t.kind.isComment

/-- A token list without the comments and attributes at its end. -/
def trimmed (tokens : List Token) : List Token := tokens.rdropWhile fun t => t.kind.isComment

theorem trimmed_append_trailing (tokens : List Token) : trimmed tokens ++ trailing tokens = tokens :=
  List.rdropWhile_append_rtakeWhile

theorem isComment_of_trailing {tokens : List Token} : ∀ t ∈ trailing tokens, t.kind.isComment = true :=
  fun t ht => List.mem_rtakeWhile_imp (p := fun t : Token => t.kind.isComment) (x := t) ht

theorem trimmed_getLast? (tokens : List Token) : ∀ t ∈ (trimmed tokens).getLast?, t.kind.isComment = false := by
  intro t ht
  obtain ⟨hne, rfl⟩ := List.mem_getLast?_eq_getLast ht
  exact Bool.eq_false_iff.2 (List.rdropWhile_last_not _ _ hne)

/-- Whether a type may be put between `before` and `behind`, with `opening` in front of it: it is not the end
of the file, nothing behind the place goes on with the type, and there is no other type. Attributes right
before the place would be lost. -/
structure Admits (before : List Token) (opening : Token) (behind : List Token) : Prop where
  before_kind : ∀ t ∈ before, t.kind ≠ .endOfFile
  gap : ∀ t ∈ trailing before, t.kind ≠ .attribute
  opening_kind : opening.kind = .mark .colon ∨ opening.isWord "as" = true
  behind_ne : behind ≠ []
  ends : (Cursor.ofTokens behind).peekKind.continuesType = false
  bare : opening.kind = .mark .colon → (Cursor.ofTokens behind).peekKind ≠ .mark .colon

namespace Admits

variable {before behind type : List Token} {opening : Token}

theorem alike (h : Admits before opening behind) :
    (Cursor.ofTokens (trailing before ++ behind)).Alike (Cursor.ofTokens behind) :=
  Cursor.ofTokens_alike isComment_of_trailing h.gap h.behind_ne

/-- The insertion of a type, with the stops that the tokens make. -/
def insertion (h : Admits before opening behind) (type : List Token) : Insertion where
  before := (trimmed before).foldr Stop.cons []
  opening := ⟨trailing before, opening⟩
  type := type.map (Stop.mk [])
  behind := Cursor.ofTokens (trailing before ++ behind)
  moved := Cursor.ofTokens behind
  before_kind _ hs := h.before_kind _ ((List.rdropWhile_prefix _ _).subset (Stop.token_mem hs))
  opening_kind := h.opening_kind
  alike := h.alike
  ends := h.alike.peekKind ▸ h.ends
  bare := h.alike.peekKind ▸ h.bare

theorem seen_opening (h : Admits before opening behind) : opening.kind.isComment = false := by
  rcases h.opening_kind with h | h
  · rw [h]
    rfl
  · rw [kind_of_isWord h]
    rfl

theorem ofTokens_without (h : Admits before opening behind) :
    Cursor.ofTokens (before ++ behind) = (h.insertion type).without (h.insertion type).before := by
  have hsplit : before ++ behind = trimmed before ++ (trailing before ++ behind) := by
    rw [← List.append_assoc, trimmed_append_trailing]
  refine Cursor.stops_inj ?_
  rw [hsplit, Cursor.ofTokens_append (trimmed_getLast? before) (by simp [h.behind_ne])]
  exact (List.append_assoc _ _ _).symm

theorem ofTokens_within (h : Admits before opening behind) (htype : ∀ t ∈ type, t.kind.isComment = false) :
    Cursor.ofTokens (before ++ opening :: (type ++ behind)) =
      (h.insertion type).within (h.insertion type).before := by
  have hinserted : ∀ t ∈ opening :: type, t.kind.isComment = false :=
    List.forall_mem_cons.2 ⟨h.seen_opening, htype⟩
  have hsplit : before ++ opening :: (type ++ behind) =
      trimmed before ++ (trailing before ++ (opening :: type ++ behind)) := by
    rw [← List.append_assoc, trimmed_append_trailing]
    rfl
  refine Cursor.stops_inj ?_
  rw [hsplit, Cursor.ofTokens_append (trimmed_getLast? before) (by simp), Cursor.stops_ofTokens,
    Cursor.closed_append (by simp), Cursor.closed_append h.behind_ne, List.foldr_append, List.foldr_append,
    ← Cursor.stops_ofTokens, Stop.foldr_cons_of_seen hinserted, List.map_cons, List.cons_append,
    Stop.foldr_cons_of_comments isComment_of_trailing, List.append_nil]
  simp [Cursor.stops, Insertion.within, insertion]

theorem remaining_within (h : Admits before opening behind) :
    ((h.insertion type).within (h.insertion type).before).remaining =
      ((h.insertion type).without (h.insertion type).before).remaining + (type.length + 1) := by
  have hmoved : (Cursor.ofTokens (trailing before ++ behind)).ahead.length =
      (Cursor.ofTokens behind).ahead.length := h.alike.length
  simp only [Insertion.within, Insertion.without, Insertion.past, Cursor.remaining, insertion, List.length_append,
    List.length_cons, List.length_map, hmoved]
  omega

/-- No comment is inserted. -/
theorem comments_eq (h : Admits before opening behind) (htype : ∀ t ∈ type, t.kind.isComment = false) :
    Comment.ofTokens (before ++ opening :: (type ++ behind)) = Comment.ofTokens (before ++ behind) := by
  have hnone {t : Token} (ht : t.kind.isComment = false) : Comment.ofToken? t = none := by
    unfold Comment.ofToken?
    split
    · next hkind => rw [hkind] at ht; cases ht
    · next hkind => rw [hkind] at ht; cases ht
    · rfl
  have hopening : opening.kind.isComment = false := h.seen_opening
  have htypes : type.filterMap Comment.ofToken? = [] :=
    List.filterMap_eq_nil_iff.2 fun t ht => hnone (htype t ht)
  unfold Comment.ofTokens
  rw [List.filterMap_append, List.filterMap_append, List.filterMap_cons_none (hnone hopening),
    List.filterMap_append, htypes, List.nil_append]

end Admits

end Token

end ScriptFront
