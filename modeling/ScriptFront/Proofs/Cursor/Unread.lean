import ScriptFront.Proofs.Cursor.Machine
import ScriptFront.Proofs.Token.Stops

/-!
# The list of unread tokens as a machine

`Unread.machine` keeps the tokens that have not been read and nothing else. It finds a token ahead by
going through them, and it reads a token by dropping it, together with the comments and attributes
before it. `Unread.Taken` says how the record of a machine that starts with a whole list relates to the
tokens that it has dropped, and `Cursor.simulation` that a cursor does the same.
-/

namespace ScriptFront

/-- The comments that are no attributes. -/
def Kind.isPlainComment : Kind → Bool
  | .lineComment | .blockComment => true
  | _ => false

theorem Kind.isComment_of_plain {k : Kind} (h : k.isPlainComment = true) : k.isComment = true := by
  cases k <;> first | rfl | cases h

theorem Kind.isPlainComment_eq_false {k : Kind} (h : k.isComment = false) :
    k.isPlainComment = false := by
  cases hplain : k.isPlainComment with
  | false => rfl
  | true => rw [isComment_of_plain hplain] at h; exact h

/-- What is a comment is a plain one or an attribute. -/
theorem Kind.plain_of_isComment {k : Kind} (h : k.isComment = true) (hk : k ≠ .attribute) :
    k.isPlainComment = true := by
  cases k <;> first | rfl | exact absurd rfl hk | cases h

namespace Unread

/-- The `n`th token that is no comment, counting from zero; past the end the last of the list. -/
def peekNth (ts : List Token) (n : Nat) : Option Token := (Token.significant ts)[n]?.or ts.getLast?

/-- The first token that is no comment, and the tokens behind it. No token is read past the end of
the file. -/
def next (ts : List Token) : Option (Token × List Token) :=
  match ts.dropWhile (·.kind.isComment) with
  | [] => none
  | t :: rest => some (t, if t.kind = .endOfFile then ts else rest)

/-- The attribute with only plain comments before it, and the tokens behind it. -/
def nextAttribute (ts : List Token) : Option Token × List Token :=
  match ts.dropWhile (·.kind.isPlainComment) with
  | [] => (none, ts)
  | t :: rest => if t.kind = .attribute then (some t, rest) else (none, ts)

def machine : Machine (List Token) where
  peekNth := peekNth
  next := next
  nextAttribute ts := some (nextAttribute ts)

/-! ## The record -/

/-- What can be said of the `taken` tokens when of all tokens only the `unread` ones are left. They stand
in the order of the list, no token of it twice, and they are all that has been passed over but comments
and attributes; so there is no attribute among them that stands behind a significant token which is still
unread. -/
structure Taken (all unread taken : List Token) : Prop where
  passed : ∃ front, all = front ++ unread ∧ taken.Sublist front ∧
    Token.significant taken = Token.significant front
  inside : ∀ t ∈ taken, t.kind ≠ .endOfFile

variable {all unread taken gap rest : List Token} {t : Token}

theorem taken_nil (all : List Token) : Taken all all [] where
  passed := ⟨[], rfl, .slnil, rfl⟩
  inside := List.forall_mem_nil _

theorem significant_append (xs ys : List Token) :
    Token.significant (xs ++ ys) = Token.significant xs ++ Token.significant ys :=
  List.filter_append ..

theorem significant_eq_nil (h : ∀ t ∈ gap, t.kind.isComment = true) : Token.significant gap = [] := by
  apply List.filter_eq_nil_iff.2
  intro t ht
  simp [h t ht]

/-- Behind some comments a token more has been taken. -/
theorem Taken.snoc (h : Taken all (gap ++ t :: rest) taken)
    (hgap : ∀ x ∈ gap, x.kind.isComment = true) (ht : t.kind ≠ .endOfFile) :
    Taken all rest (taken ++ [t]) := by
  obtain ⟨⟨front, hall, hsub, hsignificant⟩, hinside⟩ := h
  constructor
  · exists front ++ (gap ++ [t])
    refine ⟨by rw [hall]; simp, ?_, ?_⟩
    · exact hsub.append (List.sublist_append_right gap [t])
    · rw [significant_append, significant_append front, significant_append gap, hsignificant,
        significant_eq_nil hgap, List.nil_append]
  · exact List.forall_mem_append.2 ⟨hinside, List.forall_mem_singleton.2 ht⟩

/-! ## What the machine finds -/

theorem next_of_comments (rest : List Token) (hgap : ∀ x ∈ gap, x.kind.isComment = true) (ht : t.kind.isComment = false) :
    next (gap ++ t :: rest) =
      some (t, if t.kind = .endOfFile then gap ++ t :: rest else rest) := by
  unfold next
  rw [List.dropWhile_append_of_pos hgap, List.dropWhile_cons_of_neg (by simp [ht])]

theorem nextAttribute_of_plain (hgap : ∀ x ∈ gap, x.kind.isPlainComment = true)
    (ht : t.kind.isPlainComment = false) :
    nextAttribute (gap ++ t :: rest) =
      if t.kind = .attribute then (some t, rest) else (none, gap ++ t :: rest) := by
  unfold nextAttribute
  rw [List.dropWhile_append_of_pos hgap, List.dropWhile_cons_of_neg (by simp [ht])]

end Unread

/-! ## The cursor -/

theorem Stop.significant_tokens {stops : List Stop} (h : ∀ s ∈ stops, s.Neat) :
    Token.significant (stops.flatMap Stop.tokens) = stops.map (·.token) := by
  induction stops with
  | nil => rfl
  | cons s stops ih =>
    obtain ⟨hs, hstops⟩ := List.forall_mem_cons.1 h
    have htoken : Token.significant [s.token] = [s.token] := by simp [Token.significant, hs.token]
    rw [List.flatMap_cons, Unread.significant_append, ih hstops]
    unfold Stop.tokens
    rw [Unread.significant_append, Unread.significant_eq_nil hs.leading, htoken]
    rfl

namespace Cursor

/-- Whether the stops of a cursor are made of the given tokens, which end with the end of a file. -/
structure Shows (c : Cursor) (ts : List Token) : Prop where
  tokens : c.tokens = ts
  neat : ∀ s ∈ c.ahead ++ [c.last], s.Neat
  closed : c.Closed

theorem closed_ends (tokens : List Token) :
    ∃ front eof, Cursor.closed tokens = front ++ [eof] ∧ eof.kind = .endOfFile := by
  unfold Cursor.closed
  cases hlast : tokens.getLast? with
  | none => exact ⟨[], _, rfl, rfl⟩
  | some t =>
    dsimp only
    by_cases ht : t.kind = .endOfFile
    · rw [if_pos ht]
      obtain ⟨front, hfront⟩ := List.getLast?_eq_some_iff.1 hlast
      exact ⟨front, t, hfront, ht⟩
    · rw [if_neg ht]
      exact ⟨tokens, _, rfl, rfl⟩

theorem ofTokens_closed (tokens : List Token) : ofTokens (Cursor.closed tokens) = ofTokens tokens := by
  have hclosed : Cursor.closed (Cursor.closed tokens) = Cursor.closed tokens := by
    obtain ⟨front, eof, htokens, heof⟩ := closed_ends tokens
    rw [htokens]
    unfold Cursor.closed
    rw [List.getLast?_concat]
    exact if_pos heof
  unfold ofTokens
  rw [hclosed]

theorem ofTokens_shows (tokens : List Token) : (ofTokens tokens).Shows (Cursor.closed tokens) := by
  obtain ⟨front, eof, htokens, heof⟩ := closed_ends tokens
  have hcomment : eof.kind.isComment = false := by
    rw [heof]
    rfl
  have hend : Neat ⟨[], [], eof⟩ :=
    ⟨fun s hs => absurd hs List.not_mem_nil, ⟨List.forall_mem_nil _, hcomment⟩, heof⟩
  rw [← ofTokens_closed, htokens]
  exact ⟨hend.tokens_front front, hend.stops_front front, hend.closed_front front⟩

namespace Shows

variable {c : Cursor} {s : Stop} {stops : List Stop} {last : Stop} {ts : List Token}

theorem ends (h : c.Shows ts) : ts.getLast? = some c.last.token := by
  rw [← h.tokens]
  unfold Cursor.tokens Stop.tokens
  rw [← List.append_assoc, List.getLast?_concat]

theorem significant (h : c.Shows ts) :
    Token.significant ts = c.ahead.map (·.token) ++ [c.last.token] := by
  have hstops := Stop.significant_tokens h.neat
  rw [List.flatMap_append, List.flatMap_singleton, List.map_append] at hstops
  rw [← h.tokens]
  exact hstops

theorem peekNth (h : c.Shows ts) (n : Nat) : Unread.peekNth ts n = some (c.peekNth n) := by
  unfold Unread.peekNth Cursor.peekNth
  rw [h.significant, h.ends]
  by_cases hn : n < c.ahead.length
  · rw [List.getElem?_append_left (by simpa using hn), List.getElem?_map,
      List.getElem?_eq_getElem hn]
    rfl
  · have hlast : ([c.last.token][n - c.ahead.length]?.or (some c.last.token)) =
        some c.last.token := by
      cases n - c.ahead.length <;> rfl
    rw [List.getElem?_append_right (by simpa using hn), List.length_map, hlast,
      List.getElem?_eq_none (Nat.le_of_not_lt hn)]
    rfl

/-- Where something is ahead, the tokens of the first stop come first. -/
theorem cons (h : Shows ⟨s :: stops, last⟩ ts) :
    s.Neat ∧ ∃ rest, ts = s.leading ++ s.token :: rest ∧ Shows ⟨stops, last⟩ rest ∧
      ∀ leading, (∀ x ∈ leading, x.kind.isComment = true) →
        Shows ⟨⟨leading, s.token⟩ :: stops, last⟩ (leading ++ s.token :: rest) := by
  obtain ⟨htokens, hneat, hclosed⟩ := h
  obtain ⟨hs, hstops⟩ := List.forall_mem_cons.1 hneat
  have hrest : Shows ⟨stops, last⟩ (Cursor.tokens ⟨stops, last⟩) := ⟨rfl, hstops, hclosed⟩
  refine ⟨hs, _, ?_, hrest, fun leading hleading => ⟨?_, ?_, hclosed⟩⟩
  · rw [← htokens]
    simp [Cursor.tokens, Stop.tokens]
  · simp [Cursor.tokens, Stop.tokens]
  · exact List.forall_mem_cons.2 ⟨⟨hleading, hs.token⟩, hstops⟩

theorem nil (h : Shows ⟨[], last⟩ ts) :
    last.Neat ∧ last.token.kind = .endOfFile ∧ ts = last.leading ++ [last.token] ∧
      ∀ leading, (∀ x ∈ leading, x.kind.isComment = true) →
        Shows ⟨[], ⟨leading, last.token⟩⟩ (leading ++ [last.token]) := by
  obtain ⟨htokens, hneat, hclosed⟩ := h
  have hlast := List.forall_mem_singleton.1 hneat
  refine ⟨hlast, hclosed, htokens.symm, fun leading hleading => ⟨rfl, ?_, hclosed⟩⟩
  exact List.forall_mem_singleton.2 ⟨hleading, hlast.token⟩

end Shows

/-! ### Attributes -/

section Attributes

variable {leading more rest : List Token} {t token : Token}

theorem splitAttribute_eq_some (hleading : ∀ x ∈ leading, x.kind.isComment = true)
    (h : splitAttribute leading = some (t, more)) :
    t.kind = .attribute ∧
      ∃ plain, leading = plain ++ t :: more ∧ ∀ x ∈ plain, x.kind.isPlainComment = true := by
  induction leading with
  | nil => cases h
  | cons x leading ih =>
    obtain ⟨hx, hleading⟩ := List.forall_mem_cons.1 hleading
    unfold splitAttribute at h
    by_cases hattribute : x.kind = .attribute
    · rw [if_pos hattribute] at h
      cases h
      exact ⟨hattribute, [], rfl, List.forall_mem_nil _⟩
    · rw [if_neg hattribute] at h
      obtain ⟨ht, plain, rfl, hplain⟩ := ih hleading h
      refine ⟨ht, x :: plain, rfl, List.forall_mem_cons.2 ⟨?_, hplain⟩⟩
      exact Kind.plain_of_isComment hx hattribute

theorem splitAttribute_eq_none (hleading : ∀ x ∈ leading, x.kind.isComment = true)
    (h : splitAttribute leading = none) : ∀ x ∈ leading, x.kind.isPlainComment = true := by
  induction leading with
  | nil => exact List.forall_mem_nil _
  | cons x leading ih =>
    obtain ⟨hx, hleading⟩ := List.forall_mem_cons.1 hleading
    unfold splitAttribute at h
    by_cases hattribute : x.kind = .attribute
    · rw [if_pos hattribute] at h
      cases h
    · rw [if_neg hattribute] at h
      exact List.forall_mem_cons.2 ⟨Kind.plain_of_isComment hx hattribute, ih hleading h⟩

/-- Splitting off the attribute before a token is what the list machine does in front of it. -/
theorem nextAttribute_front (rest : List Token) (hleading : ∀ x ∈ leading, x.kind.isComment = true)
    (htoken : token.kind.isComment = false) :
    Unread.nextAttribute (leading ++ token :: rest) =
      ((splitAttribute leading).map (·.1),
        (((splitAttribute leading).map (·.2)).getD leading) ++ token :: rest) := by
  cases hsplit : splitAttribute leading with
  | none =>
    have hattribute : token.kind ≠ .attribute := by
      intro hkind
      rw [hkind] at htoken
      cases htoken
    rw [Unread.nextAttribute_of_plain (splitAttribute_eq_none hleading hsplit)
      (Kind.isPlainComment_eq_false htoken), if_neg hattribute]
    rfl
  | some r =>
    obtain ⟨ht, plain, hplain, hplain'⟩ := splitAttribute_eq_some hleading hsplit
    have hnot : r.1.kind.isPlainComment = false := by
      rw [ht]
      rfl
    rw [hplain, List.append_assoc, List.cons_append, Unread.nextAttribute_of_plain hplain' hnot,
      if_pos ht]
    rfl

/-- What is left behind an attribute that has been taken. -/
theorem splitAttribute_taken {all taken : List Token}
    (h : Unread.Taken all (leading ++ token :: rest) taken)
    (hleading : ∀ x ∈ leading, x.kind.isComment = true)
    (hsplit : splitAttribute leading = some (t, more)) :
    (∀ x ∈ more, x.kind.isComment = true) ∧
      Unread.Taken all (more ++ token :: rest) (taken ++ [t]) := by
  obtain ⟨ht, plain, rfl, hplain⟩ := splitAttribute_eq_some hleading hsplit
  obtain ⟨-, hmore⟩ := List.forall_mem_append.1 hleading
  rw [List.append_assoc] at h
  refine ⟨(List.forall_mem_cons.1 hmore).2, h.snoc ?_ ?_⟩
  · intro x hx
    exact Kind.isComment_of_plain (hplain x hx)
  · rw [ht]
    decide

end Attributes

/-! ### The cursor and the list -/

/-- Whether a cursor and a list machine with a record stand at the same place of a whole list. -/
def Follows (all : List Token) (c : Cursor) (s : List Token × List Token) : Prop :=
  c.Shows s.1 ∧ Unread.Taken all s.1 s.2

variable {all : List Token} {c : Cursor} {s : List Token × List Token}

theorem Follows.next (h : Follows all c s) :
    Machine.Agree (Follows all) (machine.next c) (Unread.machine.recording.next s) := by
  obtain ⟨ts, taken⟩ := s
  obtain ⟨ahead, last⟩ := c
  obtain ⟨hshows, htaken⟩ := h
  dsimp only at hshows htaken
  have hrecording : ∀ {t d}, Unread.next ts = some (t, d) →
      Unread.machine.recording.next (ts, taken) =
        some (t, d, if t.kind = .endOfFile then taken else taken ++ [t]) := by
    intro t d hnext
    simp only [Machine.recording, Unread.machine, hnext]
    rfl
  cases ahead with
  | nil =>
    obtain ⟨hlast, heof, hts, -⟩ := hshows.nil
    have hnext := Unread.next_of_comments [] hlast.leading hlast.token
    rw [← hts, if_pos heof] at hnext
    have hrun := hrecording hnext
    rw [if_pos heof] at hrun
    exact ⟨_, _, _, rfl, hrun, hshows, htaken⟩
  | cons s stops =>
    obtain ⟨hs, rest, hts, hrest, -⟩ := hshows.cons
    have hnext := Unread.next_of_comments rest hs.leading hs.token
    rw [← hts] at hnext
    have hrun := hrecording hnext
    by_cases heof : s.token.kind = .endOfFile
    · have hstay : Cursor.next ⟨s :: stops, last⟩ = ⟨s :: stops, last⟩ := if_pos heof
      rw [if_pos heof, if_pos heof] at hrun
      refine ⟨_, _, _, rfl, hrun, ?_, htaken⟩
      rw [hstay]
      exact hshows
    · have hmove : Cursor.next ⟨s :: stops, last⟩ = ⟨stops, last⟩ := if_neg heof
      rw [if_neg heof, if_neg heof] at hrun
      rw [hts] at htaken
      refine ⟨_, _, _, rfl, hrun, ?_, htaken.snoc hs.leading heof⟩
      rw [hmove]
      exact hrest

theorem Follows.nextAttribute (h : Follows all c s) :
    Machine.Agree (Follows all) (machine.nextAttribute c) (Unread.machine.recording.nextAttribute s) := by
  obtain ⟨ts, taken⟩ := s
  obtain ⟨ahead, last⟩ := c
  obtain ⟨hshows, htaken⟩ := h
  dsimp only at hshows htaken
  cases ahead with
  | nil =>
    obtain ⟨hlast, -, rfl, hleading⟩ := hshows.nil
    have hfront := nextAttribute_front [] hlast.leading hlast.token
    simp only [Machine.recording, Unread.machine, machine, Cursor.nextAttribute, hfront]
    cases hsplit : splitAttribute last.leading with
    | none => exact ⟨none, _, _, rfl, rfl, hshows, by simpa using htaken⟩
    | some r =>
      obtain ⟨hmore, htaken'⟩ := splitAttribute_taken htaken hlast.leading hsplit
      exact ⟨some r.1, _, _, rfl, rfl, hleading r.2 hmore, htaken'⟩
  | cons s stops =>
    obtain ⟨hs, rest, rfl, -, hleading⟩ := hshows.cons
    have hfront := nextAttribute_front rest hs.leading hs.token
    simp only [Machine.recording, Unread.machine, machine, Cursor.nextAttribute, hfront]
    cases hsplit : splitAttribute s.leading with
    | none => exact ⟨none, _, _, rfl, rfl, hshows, by simpa using htaken⟩
    | some r =>
      obtain ⟨hmore, htaken'⟩ := splitAttribute_taken htaken hs.leading hsplit
      exact ⟨some r.1, _, _, rfl, rfl, hleading r.2 hmore, htaken'⟩

/-- A cursor goes the way of the machine that keeps the unread tokens only. -/
theorem simulation (all : List Token) :
    Machine.Simulation machine Unread.machine.recording (Follows all) where
  peekNth h n := ⟨_, rfl, h.1.peekNth n⟩
  next := Follows.next
  nextAttribute := Follows.nextAttribute

end Cursor

end ScriptFront
