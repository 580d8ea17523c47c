import ScriptFront.Proofs.Cursor.Unread

/-!
# Cursors with indices

An `IndexedCursor` never lets go of a token. It keeps the whole list, a table of the places of the
significant tokens in it, and two indices: of the first unread token in the list and of the first unread
significant token in the table. Taking an attribute moves the first index only, so they agree not by
themselves but up to comments and attributes (`IndexedCursor.Sound`). Every place that is looked up is
there, and what is found is what `Cursor` and the bare list of unread tokens give
(`IndexedCursor.run_ofTokens`).
-/

namespace ScriptFront

structure IndexedCursor where
  tokens : List Token
  /-- The places of the tokens that are no comments or attributes. -/
  significant : List Nat
  /-- The place of the first unread token. -/
  index : Nat
  /-- Which of the places is that of the first unread significant token. -/
  nextSignificant : Nat

namespace IndexedCursor

/-- The places of the significant tokens in a list whose first token has the place `start`. -/
def placesFrom (start : Nat) (ts : List Token) : List Nat :=
  ((ts.zipIdx start).filter fun p => !p.1.kind.isComment).map (·.2)

def ofTokens (tokens : List Token) : IndexedCursor :=
  ⟨Cursor.closed tokens, placesFrom 0 (Cursor.closed tokens), 0, 0⟩

/-- The place of the `n`th significant token from here; past the end it is that of the last one. -/
def rawIndex (i : IndexedCursor) (n : Nat) : Option Nat :=
  i.significant[min (i.nextSignificant + n) (i.significant.length - 1)]?

def peekNth (i : IndexedCursor) (n : Nat) : Option Token := do
  let place ← i.rawIndex n
  i.tokens[place]?

def next (i : IndexedCursor) : Option (Token × IndexedCursor) := do
  let place ← i.rawIndex 0
  let t ← i.tokens[place]?
  if t.kind = .endOfFile then return (t, i)
  else return (t, { i with index := place + 1, nextSignificant := i.nextSignificant + 1 })

def nextAttribute (i : IndexedCursor) : Option (Option Token × IndexedCursor) := do
  guard (i.index ≤ i.tokens.length)
  match (i.tokens.drop i.index).findIdx? fun t => !t.kind.isPlainComment with
  | none => return (none, i)
  | some offset =>
    let t ← i.tokens[i.index + offset]?
    if t.kind = .attribute then return (some t, { i with index := i.index + offset + 1 })
    else return (none, i)

def machine : Machine IndexedCursor where
  peekNth := peekNth
  next := next
  nextAttribute := nextAttribute

/-! ## The table -/

section Table

variable {start n place : Nat} {gap rest ts xs ys : List Token} {t : Token}

theorem length_placesFrom : (placesFrom start ts).length = (Token.significant ts).length := by
  have hfst : Token.significant ((ts.zipIdx start).map Prod.fst) = Token.significant ts := by
    rw [List.zipIdx_map_fst]
  unfold Token.significant at hfst
  rw [List.filter_map] at hfst
  unfold placesFrom Token.significant
  rw [List.length_map, ← hfst, List.length_map]
  rfl

theorem placesFrom_append :
    placesFrom start (xs ++ ys) = placesFrom start xs ++ placesFrom (start + xs.length) ys := by
  unfold placesFrom
  rw [List.zipIdx_append, List.filter_append, List.map_append]

theorem placesFrom_cons (ht : t.kind.isComment = false) :
    placesFrom start (t :: rest) = start :: placesFrom (start + 1) rest := by
  simp [placesFrom, ht]

theorem placesFrom_comments (hgap : ∀ x ∈ gap, x.kind.isComment = true) :
    placesFrom start gap = [] := by
  apply List.eq_nil_of_length_eq_zero
  rw [length_placesFrom, Unread.significant_eq_nil hgap]
  rfl

/-- At the `n`th place of the table stands the `n`th significant token. -/
theorem getElem?_placesFrom (h : (placesFrom start ts)[n]? = some place) :
    start ≤ place ∧ ts[place - start]? = (Token.significant ts)[n]? := by
  have hfst : Token.significant ((ts.zipIdx start).map Prod.fst) = Token.significant ts := by
    rw [List.zipIdx_map_fst]
  unfold Token.significant at hfst
  rw [List.filter_map] at hfst
  unfold placesFrom at h
  rw [List.getElem?_map, Option.map_eq_some_iff] at h
  obtain ⟨p, hp, rfl⟩ := h
  have hmem := (List.mem_filter.1 (List.mem_of_getElem? hp)).1
  obtain ⟨hle, hts⟩ := List.mem_zipIdx_iff_le_and_getElem?_sub.1 hmem
  refine ⟨hle, ?_⟩
  unfold Token.significant
  rw [hts, ← hfst, List.getElem?_map]
  exact (congrArg (Option.map Prod.fst) hp).symm

end Table

/-! ## The way through the list -/

/-- Whether the indices stand where only the tokens `ts` are left. -/
structure Walks (i : IndexedCursor) (ts : List Token) : Prop where
  table : i.significant = placesFrom 0 i.tokens
  indices : ∃ front, i.tokens = front ++ ts ∧ i.index = front.length ∧
    i.nextSignificant = (Token.significant front).length

variable {i : IndexedCursor} {gap rest ts : List Token} {t : Token}

theorem ofTokens_walks (tokens : List Token) : (ofTokens tokens).Walks (Cursor.closed tokens) :=
  ⟨rfl, [], rfl, rfl, rfl⟩

namespace Walks

theorem rawIndex (h : i.Walks ts) (hts : Token.significant ts ≠ []) (n : Nat) :
    i.rawIndex n =
      (placesFrom i.index ts)[min n ((Token.significant ts).length - 1)]? := by
  obtain ⟨htable, front, htokens, hindex, hnext⟩ := h
  have hpos := List.length_pos_iff.2 hts
  unfold IndexedCursor.rawIndex
  rw [htable, htokens, placesFrom_append, Nat.zero_add, ← hindex, List.length_append,
    length_placesFrom, length_placesFrom, hnext]
  rw [show min ((Token.significant front).length + n)
      ((Token.significant front).length + (Token.significant ts).length - 1) =
      (Token.significant front).length + min n ((Token.significant ts).length - 1) by omega]
  rw [List.getElem?_append_right (by rw [length_placesFrom]; omega), length_placesFrom,
    Nat.add_sub_cancel_left]

theorem nextSignificant_lt (h : i.Walks ts) (hts : Token.significant ts ≠ []) :
    i.nextSignificant < i.significant.length := by
  obtain ⟨htable, front, htokens, -, hnext⟩ := h
  have hpos := List.length_pos_iff.2 hts
  rw [htable, length_placesFrom, htokens, Unread.significant_append, List.length_append, hnext]
  omega

theorem getElem? (h : i.Walks ts) (n : Nat) : i.tokens[i.index + n]? = ts[n]? := by
  obtain ⟨-, front, htokens, hindex, -⟩ := h
  rw [htokens, hindex, List.getElem?_append_right (Nat.le_add_right _ _), Nat.add_sub_cancel_left]

theorem drop (h : i.Walks ts) : i.tokens.drop i.index = ts := by
  obtain ⟨-, front, htokens, hindex, -⟩ := h
  rw [htokens, hindex, List.drop_left]

theorem index_le (h : i.Walks ts) : i.index ≤ i.tokens.length := by
  obtain ⟨-, front, htokens, hindex, -⟩ := h
  rw [htokens, hindex, List.length_append]
  exact Nat.le_add_right _ _

section Gap

variable (h : i.Walks (gap ++ t :: rest))
include h

/-- The place of the first significant token is behind the comments and attributes. -/
theorem rawIndex_zero (hgap : ∀ x ∈ gap, x.kind.isComment = true) (ht : t.kind.isComment = false) :
    i.rawIndex 0 = some (i.index + gap.length) := by
  have hts : Token.significant (gap ++ t :: rest) ≠ [] := by
    rw [Unread.significant_append]
    simp [Token.significant, ht]
  rw [h.rawIndex hts, Nat.zero_min, placesFrom_append, placesFrom_comments hgap, placesFrom_cons ht]
  rfl

theorem getElem?_gap : i.tokens[i.index + gap.length]? = some t := by
  rw [h.getElem?, List.getElem?_append_right (Nat.le_refl _), Nat.sub_self]
  rfl

/-- The indices behind the first significant token. -/
theorem behind (hgap : ∀ x ∈ gap, x.kind.isComment = true) (ht : t.kind.isComment = false) :
    Walks { i with index := i.index + gap.length + 1, nextSignificant := i.nextSignificant + 1 }
      rest := by
  obtain ⟨htable, front, htokens, hindex, hnext⟩ := h
  refine ⟨htable, front ++ (gap ++ [t]), ?_, ?_, ?_⟩
  · simp [htokens]
  · simp [hindex]
    omega
  · have hone : Token.significant [t] = [t] := by simp [Token.significant, ht]
    simp [Unread.significant_append, Unread.significant_eq_nil hgap, hone, hnext]

/-- The indices behind an attribute. -/
theorem behindAttribute (hgap : ∀ x ∈ gap, x.kind.isComment = true) (ht : t.kind.isComment = true) :
    Walks { i with index := i.index + gap.length + 1 } rest := by
  obtain ⟨htable, front, htokens, hindex, hnext⟩ := h
  refine ⟨htable, front ++ (gap ++ [t]), ?_, ?_, ?_⟩
  · simp [htokens]
  · simp [hindex]
    omega
  · have hnone : Token.significant [t] = [] := by simp [Token.significant, ht]
    simp [Unread.significant_append, Unread.significant_eq_nil hgap, hnone, hnext]

theorem nextAttribute (hgap : ∀ x ∈ gap, x.kind.isPlainComment = true)
    (ht : t.kind.isPlainComment = false) :
    i.nextAttribute =
      if t.kind = .attribute then some (some t, { i with index := i.index + gap.length + 1 })
      else some (none, i) := by
  have hfind : (gap ++ t :: rest).findIdx? (fun t => !t.kind.isPlainComment) = some gap.length := by
    have hnone : gap.findIdx? (fun t => !t.kind.isPlainComment) = none := by
      apply List.findIdx?_eq_none_iff.2
      intro x hx
      simp [hgap x hx]
    simp [List.findIdx?_append, hnone, List.findIdx?_cons, ht]
  have hguard : (guard (i.index ≤ i.tokens.length) : Option Unit) = some () := if_pos h.index_le
  unfold IndexedCursor.nextAttribute
  rw [h.drop, hfind, hguard]
  simp only [Option.bind_eq_bind, Option.bind_some, h.getElem?_gap]
  rfl

end Gap

end Walks

/-! ## The cursor and its indices -/

/-- Whether the indices stand where the cursor stands. -/
def Tells (i : IndexedCursor) (c : Cursor) : Prop := ∃ ts, i.Walks ts ∧ c.Shows ts

variable {c : Cursor}

namespace Tells

theorem significant_ne_nil (h : c.Shows ts) : Token.significant ts ≠ [] := by
  rw [h.significant]
  exact List.concat_ne_nil _ _

theorem peekNth (h : i.Tells c) (n : Nat) : i.peekNth n = some (c.peekNth n) := by
  obtain ⟨ts, hwalks, hshows⟩ := h
  have hne := significant_ne_nil hshows
  have hlength : (Token.significant ts).length = c.ahead.length + 1 := by
    rw [hshows.significant]
    simp
  have hplace : min n c.ahead.length < (placesFrom i.index ts).length := by
    rw [length_placesFrom, hlength]
    omega
  obtain ⟨hle, hget⟩ := getElem?_placesFrom (List.getElem?_eq_getElem hplace)
  have hraw := hwalks.rawIndex hne n
  rw [hlength, Nat.add_sub_cancel, List.getElem?_eq_getElem hplace] at hraw
  have htoken := hwalks.getElem? ((placesFrom i.index ts)[min n c.ahead.length] - i.index)
  rw [Nat.add_sub_cancel' hle, hget, hshows.significant] at htoken
  unfold IndexedCursor.peekNth Cursor.peekNth
  rw [hraw]
  show i.tokens[(placesFrom i.index ts)[min n c.ahead.length]]? = _
  rw [htoken]
  by_cases hn : n < c.ahead.length
  · rw [Nat.min_eq_left hn.le, List.getElem?_append_left (by simpa using hn), List.getElem?_map,
      List.getElem?_eq_getElem hn]
    rfl
  · rw [Nat.min_eq_right (Nat.le_of_not_lt hn), List.getElem?_append_right (by simp),
      List.length_map, Nat.sub_self, List.getElem?_eq_none (Nat.le_of_not_lt hn)]
    rfl

theorem next (h : i.Tells c) : Machine.Agree Tells (machine.next i) (Cursor.machine.next c) := by
  obtain ⟨ts, hwalks, hshows⟩ := h
  obtain ⟨ahead, last⟩ := c
  have hfind : ∀ {leading rest : List Token} {t : Token}, ts = leading ++ t :: rest →
      (∀ x ∈ leading, x.kind.isComment = true) → t.kind.isComment = false →
      machine.next i = if t.kind = .endOfFile then some (t, i) else
        some (t, ⟨i.tokens, i.significant, i.index + leading.length + 1, i.nextSignificant + 1⟩) := by
    intro leading rest t hts hleading ht
    subst hts
    simp only [machine, IndexedCursor.next, hwalks.rawIndex_zero hleading ht, hwalks.getElem?_gap,
      Option.bind_eq_bind, Option.bind_some]
    rfl
  cases ahead with
  | nil =>
    obtain ⟨hlast, heof, hts, -⟩ := hshows.nil
    have hnext := hfind hts hlast.leading hlast.token
    rw [if_pos heof] at hnext
    exact ⟨_, _, _, hnext, rfl, ts, hwalks, hshows⟩
  | cons s stops =>
    obtain ⟨hs, rest, hts, hrest, -⟩ := hshows.cons
    have hnext := hfind hts hs.leading hs.token
    by_cases heof : s.token.kind = .endOfFile
    · have hstay : Cursor.next ⟨s :: stops, last⟩ = ⟨s :: stops, last⟩ := if_pos heof
      rw [if_pos heof] at hnext
      refine ⟨_, _, _, hnext, rfl, ts, hwalks, ?_⟩
      rw [hstay]
      exact hshows
    · have hmove : Cursor.next ⟨s :: stops, last⟩ = ⟨stops, last⟩ := if_neg heof
      rw [if_neg heof] at hnext
      subst hts
      refine ⟨_, _, _, hnext, rfl, rest, hwalks.behind hs.leading hs.token, ?_⟩
      rw [hmove]
      exact hrest

/-- Before a token with these comments and attributes in front, an attribute is taken from the list where
it is split off the stop. -/
theorem takes_attribute {leading : List Token} (hwalks : i.Walks (leading ++ t :: rest))
    (hleading : ∀ x ∈ leading, x.kind.isComment = true) (ht : t.kind.isComment = false) :
    match Cursor.splitAttribute leading with
    | none => i.nextAttribute = some (none, i)
    | some (x, more) => (∀ y ∈ more, y.kind.isComment = true) ∧
        ∃ j, i.nextAttribute = some (some x, j) ∧ j.Walks (more ++ t :: rest) := by
  cases hsplit : Cursor.splitAttribute leading with
  | none =>
    have hattribute : t.kind ≠ .attribute := by
      intro hkind
      rw [hkind] at ht
      cases ht
    have hnone := hwalks.nextAttribute (Cursor.splitAttribute_eq_none hleading hsplit)
      (Kind.isPlainComment_eq_false ht)
    rwa [if_neg hattribute] at hnone
  | some r =>
    obtain ⟨x, more⟩ := r
    obtain ⟨hx, plain, rfl, hplain⟩ := Cursor.splitAttribute_eq_some hleading hsplit
    obtain ⟨hcomments, hmore⟩ := List.forall_mem_append.1 hleading
    obtain ⟨hcomment, hmore⟩ := List.forall_mem_cons.1 hmore
    rw [List.append_assoc, List.cons_append] at hwalks
    have hsome := hwalks.nextAttribute hplain (by rw [hx]; rfl)
    rw [if_pos hx] at hsome
    exact ⟨hmore, _, hsome, hwalks.behindAttribute hcomments hcomment⟩

theorem nextAttribute (h : i.Tells c) :
    Machine.Agree Tells (machine.nextAttribute i) (Cursor.machine.nextAttribute c) := by
  obtain ⟨ts, hwalks, hshows⟩ := h
  obtain ⟨ahead, last⟩ := c
  cases ahead with
  | nil =>
    obtain ⟨hlast, -, rfl, hleading⟩ := hshows.nil
    have htakes := takes_attribute hwalks hlast.leading hlast.token
    simp only [Cursor.machine, Cursor.nextAttribute]
    cases hsplit : Cursor.splitAttribute last.leading with
    | none =>
      rw [hsplit] at htakes
      exact ⟨none, _, _, htakes, rfl, _, hwalks, hshows⟩
    | some r =>
      rw [hsplit] at htakes
      obtain ⟨hmore, j, hj, hwalks'⟩ := htakes
      exact ⟨some r.1, _, _, hj, rfl, _, hwalks', hleading r.2 hmore⟩
  | cons s stops =>
    obtain ⟨hs, rest, rfl, -, hleading⟩ := hshows.cons
    have htakes := takes_attribute hwalks hs.leading hs.token
    simp only [Cursor.machine, Cursor.nextAttribute]
    cases hsplit : Cursor.splitAttribute s.leading with
    | none =>
      rw [hsplit] at htakes
      exact ⟨none, _, _, htakes, rfl, _, hwalks, hshows⟩
    | some r =>
      rw [hsplit] at htakes
      obtain ⟨hmore, j, hj, hwalks'⟩ := htakes
      exact ⟨some r.1, _, _, hj, rfl, _, hwalks', hleading r.2 hmore⟩

end Tells

/-- A cursor with indices goes the way of the cursor that keeps stops. -/
theorem simulation : Machine.Simulation machine Cursor.machine Tells where
  peekNth h n := ⟨_, h.peekNth n, rfl⟩
  next := Tells.next
  nextAttribute := Tells.nextAttribute

/-! ## What holds on the way -/

/-- What can be said of the indices wherever they stand. -/
structure Sound (i : IndexedCursor) : Prop where
  /-- From the first index to the place that the second one leads to there are comments and attributes
  only. -/
  between : ∃ place t, i.significant[i.nextSignificant]? = some place ∧ i.index ≤ place ∧
    i.tokens[place]? = some t ∧ t.kind.isComment = false ∧
    ∀ x ∈ (i.tokens.take place).drop i.index, x.kind.isComment = true
  /-- What asks for another kind than that of the current token changes nothing. -/
  refused : ∀ k t, i.peekNth 0 = some t → t.kind ≠ k →
    machine.perform i (.optional k) = some (.found none, i) ∧
      ∃ e, machine.perform i (.accept k) = some (.accepted (.error e), i)
  /-- A lookahead that has stepped over no end of a file sees the token that is the current one when the
  cursor has followed. -/
  committed : ∀ kinds, ∃ eaten n t t' j,
    machine.run i [.lookahead kinds true, .peekNth 0] = some ([.scanned eaten n t, .token t'], j) ∧
      ((.endOfFile, true) ∉ kinds.zip eaten → t' = t)

namespace Tells

theorem between (h : i.Tells c) :
    ∃ place t, i.significant[i.nextSignificant]? = some place ∧ i.index ≤ place ∧
      i.tokens[place]? = some t ∧ t.kind.isComment = false ∧
      ∀ x ∈ (i.tokens.take place).drop i.index, x.kind.isComment = true := by
  obtain ⟨ts, hwalks, hshows⟩ := h
  have hfront : ∃ gap t rest, ts = gap ++ t :: rest ∧ (∀ x ∈ gap, x.kind.isComment = true) ∧
      t.kind.isComment = false := by
    obtain ⟨ahead, last⟩ := c
    cases ahead with
    | nil =>
      obtain ⟨hlast, -, hts, -⟩ := hshows.nil
      exact ⟨_, _, [], hts, hlast.leading, hlast.token⟩
    | cons s stops =>
      obtain ⟨hs, rest, hts, -⟩ := hshows.cons
      exact ⟨_, _, rest, hts, hs.leading, hs.token⟩
  obtain ⟨gap, t, rest, rfl, hgap, ht⟩ := hfront
  refine ⟨i.index + gap.length, t, ?_, Nat.le_add_right _ _, hwalks.getElem?_gap, ht, ?_⟩
  · have hraw := hwalks.rawIndex_zero hgap ht
    have hlt := hwalks.nextSignificant_lt (significant_ne_nil hshows)
    unfold IndexedCursor.rawIndex at hraw
    rwa [Nat.add_zero, Nat.min_eq_left (by omega)] at hraw
  · rw [List.drop_take, hwalks.drop, Nat.add_sub_cancel_left, List.take_left]
    exact hgap

theorem refused (h : i.Tells c) (k : Kind) (hk : c.peek.kind ≠ k) :
    machine.perform i (.optional k) = some (.found none, i) ∧
      ∃ e, machine.perform i (.accept k) = some (.accepted (.error e), i) := by
  have hpeek : machine.peekNth i 0 = some c.peek := h.peekNth 0
  constructor
  · simp [Machine.perform, Machine.optional, hpeek, hk]
  · simp [Machine.perform, Machine.accept, hpeek, hk]

theorem committed (h : i.Tells c) (kinds : List Kind) :
    ∃ eaten n t t' j,
      machine.run i [.lookahead kinds true, .peekNth 0] = some ([.scanned eaten n t, .token t'], j) ∧
        ((.endOfFile, true) ∉ kinds.zip eaten → t' = t) := by
  obtain ⟨_, j, d, hrun, hrun', -⟩ := simulation.run h [.lookahead kinds true, .peekNth 0]
  rw [Cursor.run_machine] at hrun'
  cases hrun'
  obtain ⟨ts, -, hshows⟩ := h
  refine ⟨_, _, _, _, j, hrun, fun heaten => ?_⟩
  obtain ⟨m, hm, hpeek⟩ :=
    Lookahead.eatEach_followed hshows.closed (l := .ofCursor c) rfl rfl kinds heaten
  rw [show (Lookahead.ofCursor c).consumed = 0 from rfl, Nat.zero_add] at hm
  show (c.advance _).peek = _
  rw [hm]
  exact hpeek

theorem sound (h : i.Tells c) : i.Sound where
  between := h.between
  refused k t ht hk := by
    rw [h.peekNth] at ht
    cases ht
    exact h.refused k hk
  committed := h.committed

end Tells

/-- Whatever is done with a token list, a cursor with indices looks up nothing out of range, and tells
the same as the machine that keeps nothing but the unread tokens; so does `Cursor`. -/
theorem run_ofTokens (tokens : List Token) (ops : List Operation) :
    ∃ answers i c taken,
      machine.run (ofTokens tokens) ops = some (answers, i) ∧
      (Cursor.ofTokens tokens).run ops = (answers, c) ∧
      Unread.machine.recording.run (Cursor.closed tokens, []) ops = some (answers, c.tokens, taken) ∧
      i.Sound ∧ i.tokens.drop i.index = c.tokens ∧
      Unread.Taken (Cursor.closed tokens) c.tokens taken := by
  have hshows := Cursor.ofTokens_shows tokens
  obtain ⟨answers, i, c, hrun, hcursor, htells⟩ :=
    simulation.run ⟨_, ofTokens_walks tokens, hshows⟩ ops
  have hstart : Cursor.Follows (Cursor.closed tokens) (Cursor.ofTokens tokens)
      (Cursor.closed tokens, []) := ⟨hshows, Unread.taken_nil _⟩
  obtain ⟨answers', c', ⟨unread, taken⟩, hcursor', hunread, hfollows⟩ :=
    (Cursor.simulation (Cursor.closed tokens)).run hstart ops
  rw [Cursor.run_machine] at hcursor hcursor'
  have hsame := Option.some.inj (hcursor'.symm.trans hcursor)
  cases hsame
  obtain ⟨hshows', htaken⟩ := hfollows
  obtain ⟨ts, hwalks, hts⟩ := id htells
  dsimp only at hshows' htaken
  have hdrop := hwalks.drop
  rw [← hts.tokens] at hdrop
  rw [← hshows'.tokens] at hunread htaken
  exact ⟨answers, i, c, taken, hrun, Option.some.inj hcursor, hunread, htells.sound, hdrop, htaken⟩

end IndexedCursor

end ScriptFront
