import ScriptFront.Proofs.Shift.Files

/-!
# Places are places of tokens

A parse makes up no place: whatever it stores and whatever it complains about stands where a token of its
input stands. For this the input is compared with itself, where a place is related to itself alone and only
if it is the place of a token.
-/

namespace ScriptFront

namespace Shift

variable {r : Shift}

/-! ## Cursors before token lists -/

theorem stop_cons {t u : Token} (ht : r.token t u) {ss ss' : List Stop}
    (h : List.Forall₂ r.stop ss ss') : List.Forall₂ r.stop (Stop.cons t ss) (Stop.cons u ss') := by
  unfold Stop.cons
  rw [ht.kind]
  split
  · cases h with
    | nil => exact .nil
    | cons hs hrest => exact .cons ⟨.cons ht hs.leading, hs.token⟩ hrest
  · exact .cons ⟨.nil, ht⟩ h

theorem stops_foldr {ts us : List Token} (h : List.Forall₂ r.token ts us) :
    List.Forall₂ r.stop (ts.foldr Stop.cons []) (us.foldr Stop.cons []) := by
  induction h with
  | nil => exact .nil
  | cons ht _ ih => exact stop_cons ht ih

/-- Lists that are the same up to places make cursors that are. -/
theorem cursor_ofTokens {ts us : List Token}
    (h : List.Forall₂ r.token (Cursor.closed ts) (Cursor.closed us))
    (hjoints : Token.joints (Token.significant (Cursor.closed ts)) =
      Token.joints (Token.significant (Cursor.closed us))) :
    r.cursor (Cursor.ofTokens ts) (Cursor.ofTokens us) := by
  have hsignificant : ∀ ts, (Cursor.ofTokens ts).stops.map (·.token) =
      Token.significant (Cursor.closed ts) := by
    intro ts
    have hshows := Cursor.ofTokens_shows ts
    have hstops := Stop.significant_tokens hshows.neat
    rw [← hshows.tokens, Cursor.stops, ← hstops]
    simp [Cursor.tokens]
  have hstops : List.Forall₂ r.stop (Cursor.ofTokens ts).stops (Cursor.ofTokens us).stops := by
    rw [Cursor.stops_ofTokens, Cursor.stops_ofTokens]
    exact stops_foldr h
  have hlength : (Cursor.ofTokens ts).ahead.length = (Cursor.ofTokens us).ahead.length := by
    simpa [Cursor.stops] using hstops.length_eq
  have hahead := List.forall₂_take_append _ _ _ hstops
  have hlast := List.forall₂_drop_append _ _ _ hstops
  rw [← hlength] at hahead hlast
  unfold Cursor.stops at hahead hlast
  rw [List.take_left] at hahead
  rw [List.drop_left] at hlast
  exact ⟨hahead, (List.forall₂_cons.1 hlast).1, by rw [hsignificant, hsignificant, hjoints]⟩

/-- Comments are told by their tokens. -/
theorem comments_ofTokens {ts us : List Token} (h : List.Forall₂ r.token ts us) :
    List.Forall₂ r.comment (Comment.ofTokens ts) (Comment.ofTokens us) := by
  refine List.rel_filterMap (fun t u ht => ?_) h
  unfold Comment.ofToken?
  rw [ht.kind, ht.text]
  split
  · exact .some ⟨ht.place, rfl, rfl⟩
  · exact .some ⟨ht.place, rfl, rfl⟩
  · exact .none

/-! ## Places that stay -/

/-- Relates the given places to themselves. -/
def among (places : List Position) : Shift where
  moves p q := p = q ∧ p ∈ places
  line h := congrArg _ h.1

variable {places : List Position}

theorem mem_of_among {ps : List Position} (h : List.Forall₂ (among places).moves ps ps) :
    ∀ p ∈ ps, p ∈ places :=
  fun p hp => (List.forall₂_same.1 h p hp).2

/-- Tokens at the given places are related to themselves. -/
theorem token_among {ts : List Token} (h : ∀ t ∈ ts, t.position ∈ places) :
    List.Forall₂ (among places).token ts ts :=
  List.forall₂_same.2 fun t ht => ⟨rfl, rfl, rfl, h t ht⟩

end Shift

theorem Cursor.mem_closed {tokens : List Token} {t : Token} (h : t ∈ tokens) : t ∈ closed tokens := by
  unfold closed
  split
  · simp_all
  · split
    · exact h
    · exact List.mem_append_left _ h

namespace Token

variable {α : Type}

/-- Whether the place of an error, or every place in an answer, is the place of a token of the list or of
the end of file that is put behind it. -/
def Places (tokens : List Token) (positions : α → List Position) : Except Error α → Prop
  | .ok a => ∀ p ∈ positions a, ∃ t ∈ Cursor.closed tokens, t.position = p
  | .error e => ∃ t ∈ Cursor.closed tokens, t.position = e.position

/-- The relation of a token list to itself. -/
abbrev among (tokens : List Token) : Shift := .among ((Cursor.closed tokens).map (·.position))

theorem cursor_among (tokens : List Token) :
    (among tokens).cursor (Cursor.ofTokens tokens) (Cursor.ofTokens tokens) :=
  Shift.cursor_ofTokens (Shift.token_among fun _ ht => List.mem_map_of_mem ht) rfl

theorem places_of_alike {tokens : List Token} {positions : α → List Position} {A : α → α → Prop}
    {x : Except Error α} (h : (among tokens).Alike A x x)
    (hA : ∀ {a}, A a a → List.Forall₂ (among tokens).moves (positions a) (positions a)) :
    Places tokens positions x := by
  cases x with
  | error e =>
    cases h with
    | error cause hplace => exact List.mem_map.1 hplace.2
  | ok a =>
    cases h with
    | ok ha => exact fun p hp => List.mem_map.1 (Shift.mem_of_among (hA ha) p hp)

/-- No place is made up. Whatever a file or an expression is read of, every place in it is the place of a
token, and so is the place of the error where there is none. -/
theorem places_of_parse (tokens : List Token) (path : String) (options : Options) :
    Places tokens File.positions (File.ofTokens tokens path options) ∧
      Places tokens Positions.expr (Expr.ofTokens tokens options) := by
  have hcursor := cursor_among tokens
  have htokens : List.Forall₂ (among tokens).token tokens tokens :=
    Shift.token_among fun t ht => List.mem_map_of_mem (Cursor.mem_closed ht)
  constructor
  · exact places_of_alike
      (Shift.alike_ofTokens hcursor (Shift.comments_ofTokens htokens) path options) Shift.file_positions
  · exact places_of_alike
      (Shift.alike_runOn (fun g => Shift.Matches.wholeExpression (g := g)) hcursor options) (·.places)

end Token

end ScriptFront
