import Mathlib.Data.List.Forall2
import ScriptFront.Production.SourceFile
import ScriptFront.Proofs.Production.Reads

/-!
# A token list with an insertion

A type is inserted into a token list, with a colon or the word `as` in front of it. A cursor before the
place of the insertion sees the tokens up to the place and then either what is behind it or what is
inserted; a cursor behind the place sees the same tokens with and without the insertion.

The comments around the place may belong to other tokens than before. The grammar does not see that, as
long as the attributes stay where they are.
-/

namespace ScriptFront

/-! ## Cursors that see the same -/

/-- Whether two stops differ in nothing but comments. -/
structure Stop.Alike (s s' : Stop) : Prop where
  token : s.token = s'.token
  attributes : s.leading.filter (·.kind = .attribute) = s'.leading.filter (·.kind = .attribute)

theorem Stop.Alike.refl (s : Stop) : s.Alike s := ⟨rfl, rfl⟩

/-- Whether two cursors before the end of the file differ in nothing but comments. -/
structure Cursor.Alike (c c' : Cursor) : Prop where
  ahead : List.Forall₂ Stop.Alike c.ahead c'.ahead
  last : c.last.Alike c'.last
  closed : c.Closed

namespace Cursor.Alike

variable {c c' : Cursor}

theorem length (h : c.Alike c') : c.ahead.length = c'.ahead.length := h.ahead.length_eq

theorem closed' (h : c.Alike c') : c'.Closed := by
  unfold Cursor.Closed
  rw [← h.last.token]
  exact h.closed

theorem map_token (h : c.Alike c') : c.ahead.map (·.token) = c'.ahead.map (·.token) := by
  obtain ⟨ahead, last⟩ := c
  obtain ⟨ahead', last'⟩ := c'
  obtain ⟨hahead, -, -⟩ := h
  simp only at hahead ⊢
  induction hahead with
  | nil => rfl
  | cons hs _ ih => rw [List.map_cons, List.map_cons, hs.token, ih]

theorem head (h : c.Alike c') : (c.ahead.head?.getD c.last).Alike (c'.ahead.head?.getD c'.last) := by
  obtain ⟨ahead, last⟩ := c
  obtain ⟨ahead', last'⟩ := c'
  cases h.ahead with
  | nil => exact h.last
  | cons hs _ => exact hs

theorem attributes (h : c.Alike c') : c.attributes = c'.attributes := h.head.attributes

theorem peekNth (h : c.Alike c') (n : Nat) : c.peekNth n = c'.peekNth n := by
  obtain ⟨ahead, last⟩ := c
  obtain ⟨ahead', last'⟩ := c'
  obtain ⟨hahead, hlast, -⟩ := h
  simp only at hahead hlast
  induction hahead generalizing n with
  | nil => exact hlast.token
  | cons hs _ ih =>
    cases n with
    | zero => exact hs.token
    | succ n => exact ih n

theorem peek (h : c.Alike c') : c.peek = c'.peek := h.peekNth 0

theorem peekKind (h : c.Alike c') : c.peekKind = c'.peekKind := congrArg Token.kind h.peek

theorem isAt (h : c.Alike c') (k : Kind) : c.isAt k = c'.isAt k := by
  unfold Cursor.isAt
  rw [h.peekKind]

theorem next (h : c.Alike c') : c.next.Alike c'.next := by
  obtain ⟨ahead, last⟩ := c
  obtain ⟨ahead', last'⟩ := c'
  obtain ⟨hahead, hlast, hclosed⟩ := h
  cases hahead with
  | nil => exact ⟨.nil, hlast, hclosed⟩
  | @cons s s' rest rest' hs hrest =>
    unfold Cursor.next
    simp only
    rw [hs.token]
    split
    · exact ⟨.cons hs hrest, hlast, hclosed⟩
    · exact ⟨hrest, hlast, hclosed⟩

end Cursor.Alike

/-- Tokens that do not end the file are read one after the other. -/
theorem Cursor.advance_append {taken rest : List Stop} {last : Stop}
    (h : ∀ s ∈ taken, s.token.kind ≠ .endOfFile) :
    (⟨taken ++ rest, last⟩ : Cursor).advance taken.length = ⟨rest, last⟩ := by
  induction taken with
  | nil => rfl
  | cons s taken ih =>
    rw [List.forall_mem_cons] at h
    exact (congrArg (Cursor.advance · taken.length) (if_neg h.1)).trans (ih h.2)

/-! ## Insertions -/

theorem Token.kind_of_isWord {t : Token} {w : String} (h : t.isWord w = true) : t.kind = .identifier := by
  unfold isWord at h
  exact beq_iff_eq.1 (Bool.and_eq_true_iff.1 h).1

/-- Whether an operand, a name or a question mark cannot end with a token of this kind. -/
def Kind.leadsOn : Kind → Bool
  | .mark .openParen | .mark .openBracket | .mark .less | .mark .comma | .mark .dot => true
  | _ => false

/-- Whether a type may go on with a token of this kind, or an arrow function before it. -/
def Kind.continuesType : Kind → Bool
  | .mark .bar | .mark .ampersand | .mark .dot | .mark .less | .mark .openBracket | .mark .arrow => true
  | _ => false

/-- Tokens between which a type is inserted, with a colon or the word `as` in front of it. What is behind
the place is given without the insertion and with it. -/
structure Insertion where
  before : List Stop
  opening : Stop
  type : List Stop
  behind : Cursor
  moved : Cursor
  before_kind : ∀ s ∈ before, s.token.kind ≠ .endOfFile
  opening_kind : opening.token.kind = .mark .colon ∨ opening.token.isWord "as" = true
  alike : behind.Alike moved
  ends : behind.peekKind.continuesType = false
  bare : opening.token.kind = .mark .colon → behind.peekKind ≠ .mark .colon

namespace Insertion

variable (P : Insertion)

/-- Behind the place, or at it. -/
def past (rest : List Stop) : Cursor := ⟨rest, P.behind.last⟩

/-- Before the place, without the insertion. -/
def without (front : List Stop) : Cursor := P.past (front ++ P.behind.ahead)

/-- Before the place, with the insertion. -/
def within (front : List Stop) : Cursor :=
  ⟨front ++ P.opening :: (P.type ++ P.moved.ahead), P.moved.last⟩

/-- Whether the insertion may be read behind the token before it. -/
def Fits : Prop := ∃ s, P.before.getLast? = some s ∧ s.token.kind.leadsOn = false

theorem behind_closed : P.behind.Closed := P.alike.closed

theorem past_closed (rest : List Stop) : (P.past rest).Closed := P.behind_closed

theorem without_closed (front : List Stop) : (P.without front).Closed := P.behind_closed

theorem within_closed (front : List Stop) : (P.within front).Closed := P.alike.closed'

variable {P} {s : Stop} {front : List Stop}

theorem past_inj {rest rest' : List Stop} (h : P.past rest = P.past rest') : rest = rest' :=
  congrArg Cursor.ahead h

theorem without_inj {front' : List Stop} (h : P.without front = P.without front') : front = front' :=
  List.append_cancel_right (past_inj h)

theorem without_ne_past {rest : List Stop} (hne : front ≠ []) (hrest : rest <:+ P.behind.ahead) :
    P.without front ≠ P.past rest := by
  intro h
  have hlength := congrArg List.length (past_inj h)
  rw [List.length_append] at hlength
  have := hrest.length_le
  have := List.length_pos_iff.2 hne
  omega

theorem eq_nil_of_without (h : P.without front = P.behind) : front = [] := without_inj h

/-- Where the reading comes back to, it has not left. -/
theorem eq_past_of_reaches {rest : List Stop} {d : Cursor} {m n : Nat}
    (h : (P.past rest).Reaches m d) (h' : d.Reaches n (P.past rest)) : d = P.past rest := by
  obtain ⟨hlast, taken, htaken, -, -⟩ := h
  have hle := h'.remaining_le
  have hlength := congrArg List.length htaken
  simp only [past, Cursor.remaining, List.length_append] at hle hlength
  have hnil : taken = [] := List.length_eq_zero_iff.1 (by omega)
  subst hnil
  obtain ⟨ahead, last⟩ := d
  cases hlast
  cases htaken
  rfl

/-- Where as many tokens are taken as there are before the place, the place is passed. -/
theorem exists_past_of_taken {d : Cursor} {taken : List Stop} (hlast : d.last = (P.without front).last)
    (htaken : (P.without front).ahead = taken ++ d.ahead) (hn : front.length ≤ taken.length) :
    ∃ rest, rest <:+ P.behind.ahead ∧ d = P.past rest := by
  obtain ⟨ahead, last⟩ := d
  cases hlast
  refine ⟨ahead, ?_, rfl⟩
  have hlength := congrArg List.length htaken
  simp only [without, past, List.length_append] at hlength htaken
  exact List.suffix_of_suffix_length_le ⟨taken, htaken.symm⟩
    (List.suffix_append front P.behind.ahead) (by omega)

theorem exists_past {d : Cursor} {n : Nat} (h : (P.without front).Reaches n d)
    (hn : front.length ≤ n) : ∃ rest, rest <:+ P.behind.ahead ∧ d = P.past rest := by
  obtain ⟨hlast, taken, htaken, htaken', -⟩ := h
  exact exists_past_of_taken hlast htaken (Nat.le_trans hn htaken')

/-! ### Looking and reading before the place -/

theorem kind_of_suffix (h : (s :: front) <:+ P.before) : s.token.kind ≠ .endOfFile :=
  P.before_kind s (h.subset List.mem_cons_self)

theorem peekKind_without (h : front <:+ P.before) (hne : front ≠ []) :
    (P.without front).peekKind ≠ .endOfFile := by
  obtain ⟨s, front, rfl⟩ := List.exists_cons_of_ne_nil hne
  exact kind_of_suffix h

theorem peek_eq (hne : front ≠ []) : (P.without front).peek = (P.within front).peek := by
  obtain ⟨s, front, rfl⟩ := List.exists_cons_of_ne_nil hne
  rfl

/-- The tokens before the place are seen from both sides. -/
theorem peekNth_eq {n : Nat} (h : n < front.length) :
    (P.without front).peekNth n = (P.within front).peekNth n := by
  unfold Cursor.peekNth without past within
  simp only
  rw [List.getElem?_append_left h, List.getElem?_append_left h, List.getElem?_eq_getElem h]
  rfl

theorem peekNth_within_length : (P.within front).peekNth front.length = P.opening.token := by
  unfold Cursor.peekNth within
  simp

theorem next_without (h : (s :: front) <:+ P.before) :
    (P.without (s :: front)).next = P.without front :=
  if_neg (kind_of_suffix h)

theorem next_within (h : (s :: front) <:+ P.before) :
    (P.within (s :: front)).next = P.within front :=
  if_neg (kind_of_suffix h)

/-! ### The tokens around the place -/

/-- The last token before the place is one that the insertion may stand behind. -/
theorem Fits.leadsOn (h : P.Fits) (hs : [s] <:+ P.before) : s.token.kind.leadsOn = false := by
  obtain ⟨s', hlast, hs'⟩ := h
  obtain ⟨init, hinit⟩ := hs
  rw [← hinit, List.getLast?_concat] at hlast
  cases hlast
  exact hs'

theorem fits_of_suffix (h : [s] <:+ P.before) (hs : s.token.kind.leadsOn = false) : P.Fits := by
  obtain ⟨init, hinit⟩ := h
  refine ⟨s, ?_, hs⟩
  rw [← hinit, List.getLast?_concat]

theorem opening_identifier (h : P.opening.token.isWord "as" = true) :
    P.opening.token.kind = .identifier :=
  Token.kind_of_isWord h

/-- The insertion starts with a colon or a word. -/
theorem opening_isAt {k : Kind} (hcolon : k ≠ .mark .colon) (hword : k ≠ .identifier) :
    P.opening.token.kind ≠ k := by
  rintro rfl
  rcases P.opening_kind with h | h
  · exact hcolon h
  · exact hword (opening_identifier h)

theorem not_word (h : P.opening.token.kind = .mark .colon) : ¬ P.opening.token.isWord "as" = true := by
  intro hword
  cases (opening_identifier hword).symm.trans h

/-- No word but `as` is inserted in front of the type. -/
theorem opening_isWord {w : String} (h : w ≠ "as") : P.opening.token.isWord w = false := by
  unfold Token.isWord
  rcases P.opening_kind with hcolon | hword
  · rw [hcolon]
    rfl
  · unfold Token.isWord at hword
    rw [Bool.and_eq_true, beq_iff_eq, beq_iff_eq] at hword
    rw [hword.2, beq_eq_false_iff_ne.2 (Ne.symm h), Bool.and_false]

theorem behind_ne_arrow : P.behind.peekKind ≠ .mark .arrow := by
  intro h
  have hends := P.ends
  rw [h] at hends
  cases hends

end Insertion

end ScriptFront
