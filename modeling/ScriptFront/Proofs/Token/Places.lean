import ScriptFront.Proofs.Production.Reads
import ScriptFront.Proofs.Token.Ahead
import ScriptFront.Proofs.Token.Extents

/-!
# Where tokens stand

The places of the tokens that the grammar sees are places of the token list, in its order, and what is
read is always a last part of them. As long as the counters of lines and columns do not overflow, a
scanned text places every token behind the ones before it.
-/

namespace ScriptFront

/-- In a text that is not too long for the counters every token stands behind the ones before it. -/
theorem Source.tokenize_places {s : String} {tokens : List Token} (hs : s.length + 1 < UInt32.size)
    (h : tokenize s = .ok tokens) :
    tokens.Pairwise fun t u => t.position.order u.position = .lt := by
  rw [← String.length_toList] at hs
  exact tokenize_increasing (.of_length hs) h

/-! ## Places ahead -/

namespace Cursor

/-- The places of the tokens that are not read yet. -/
def places (c : Cursor) : List Position := (c.ahead ++ [c.last]).map (·.token.position)

variable {c d : Cursor}

/-- What is read is a first part of the places ahead. -/
theorem Reaches.places {n : Nat} (h : c.Reaches n d) :
    ∃ read, c.places = read ++ d.places ∧ n ≤ read.length := by
  obtain ⟨hlast, taken, htaken, hn, -⟩ := h
  refine ⟨taken.map (·.token.position), ?_, by rwa [List.length_map]⟩
  unfold Cursor.places
  rw [htaken, hlast]
  simp

/-- The token here stands in the first of the places ahead. -/
theorem places_eq_cons (c : Cursor) : ∃ rest, c.places = c.peek.position :: rest := by
  unfold places peek peekNth
  cases c.ahead with
  | nil => exact ⟨[], rfl⟩
  | cons s rest => exact ⟨_, rfl⟩

/-- The stops of a token list that ends with the end of the file. -/
theorem ofTokens_stops (front : List Token) {eof : Token} (heof : eof.kind = .endOfFile) :
    (ofTokens (front ++ [eof])).ahead ++ [(ofTokens (front ++ [eof])).last] =
      front.foldr Stop.cons [⟨[], eof⟩] := by
  have hclosed : closed (front ++ [eof]) = front ++ [eof] := by
    unfold closed
    rw [List.getLast?_concat]
    exact if_pos heof
  have heofStop : [eof].foldr Stop.cons [] = [⟨[], eof⟩] := by
    simp [Stop.cons, heof, Kind.isComment]
  obtain ⟨init, s, hstops⟩ := (List.eq_nil_or_concat _).resolve_left
    (map_token_foldr_cons front (List.cons_ne_nil (⟨[], eof⟩ : Stop) [])).2
  rw [List.concat_eq_append] at hstops
  unfold ofTokens
  rw [hclosed, List.foldr_append, heofStop, hstops]
  dsimp only
  rw [List.dropLast_concat, List.getLast?_concat]
  rfl

/-- A cursor before a scanned text sees tokens of the text, in its order. -/
theorem tokenize_sublist {s : String} {tokens : List Token} (h : Source.tokenize s = .ok tokens) :
    (ofTokens tokens).places.Sublist (tokens.map (·.position)) := by
  obtain ⟨front, eof, rfl, heof, -⟩ := Source.tokenize_ends h
  have hseen := (map_token_foldr_cons front (List.cons_ne_nil (⟨[], eof⟩ : Stop) [])).1
  unfold places
  rw [ofTokens_stops front heof]
  refine (List.map_map (f := Stop.token) (g := Token.position)).symm ▸ ?_
  rw [hseen]
  exact (List.filter_sublist.append (.refl _)).map _

end Cursor

end ScriptFront
