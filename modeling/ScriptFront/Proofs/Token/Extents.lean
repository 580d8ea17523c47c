import ScriptFront.Proofs.Token.Spans

/-!
# The extents of tokens

A scan leaves nothing of a text out: the text is a sequence of `Piece`s, one for each token, each of them
blanks with the lexeme of the token behind them (`tokensFrom_pieces`). The position of a token is counted
from the characters before its lexeme (`Position.advanceAll_start`), so the tokens stand one behind the other
as long as the counters of lines and columns do not overflow.
-/

namespace ScriptFront

/-! ## Counting lines and columns -/

namespace Position

theorem order_eq_lt {p q : Position} :
    p.order q = .lt ↔ p.line.toNat < q.line.toNat ∨
      p.line.toNat = q.line.toNat ∧ p.column.toNat < q.column.toNat := by
  unfold order
  rw [Ordering.then_eq_lt, Std.compare_eq_lt, Std.compare_eq_iff_eq, Std.compare_eq_lt,
    UInt32.lt_iff_toNat_lt, UInt32.lt_iff_toNat_lt, ← UInt32.toNat_inj]

/-- The number of the line of what follows these characters. -/
def lineAfter (before : List Char) : Nat := 1 + before.count '\n'

/-- The number of the column of what follows these characters; those up to the last line feed are on the
lines above. -/
def columnAfter (before : List Char) : Nat := 1 + (before.reverse.takeWhile (· ≠ '\n')).length

/-- The position behind the first characters of a text counts them, with counters that start again when
they overflow. -/
theorem advanceAll_start (before : List Char) :
    start.advanceAll before =
      ⟨UInt32.ofNat (lineAfter before), UInt32.ofNat (columnAfter before)⟩ := by
  obtain ⟨cs, rfl⟩ : ∃ cs : List Char, before = cs.reverse := ⟨before.reverse, by simp⟩
  unfold lineAfter columnAfter
  rw [List.reverse_reverse, List.count_reverse]
  induction cs with
  | nil => rfl
  | cons c cs ih =>
    rw [List.reverse_cons, advanceAll_append, ih]
    show advance _ c = _
    unfold advance
    by_cases hc : c = '\n'
    · subst hc
      simp [← Nat.add_assoc, UInt32.ofNat_add]
    · simp [hc, ← Nat.add_assoc, UInt32.ofNat_add]

/-- What comes later stands on a later line, or on the same line in a later column. -/
theorem lineAfter_append (before : List Char) {cs : List Char} (hcs : cs ≠ []) :
    lineAfter before < lineAfter (before ++ cs) ∨
      lineAfter before = lineAfter (before ++ cs) ∧
        columnAfter before < columnAfter (before ++ cs) := by
  unfold lineAfter columnAfter
  rw [List.count_append, List.reverse_append]
  by_cases hline : '\n' ∈ cs
  · have := List.count_pos_iff.2 hline
    omega
  · have hall : ∀ c ∈ cs.reverse, decide (c ≠ '\n') = true := by
      intro c hc
      rw [decide_eq_true_eq]
      rintro rfl
      exact hline (List.mem_reverse.1 hc)
    have hpos := List.length_pos_iff.2 hcs
    rw [List.count_eq_zero_of_not_mem hline, List.takeWhile_append_of_pos hall, List.length_append,
      List.length_reverse]
    omega

/-- Whether the counters hold the line and the column of every place in a text. -/
def FitIn (cs : List Char) : Prop :=
  ∀ before, before <+: cs → lineAfter before < UInt32.size ∧ columnAfter before < UInt32.size

namespace FitIn

variable {cs before : List Char}

theorem line_eq (h : FitIn cs) (hbefore : before <+: cs) :
    (start.advanceAll before).line.toNat = lineAfter before := by
  rw [advanceAll_start]
  exact Nat.mod_eq_of_lt (h before hbefore).1

theorem column_eq (h : FitIn cs) (hbefore : before <+: cs) :
    (start.advanceAll before).column.toNat = columnAfter before := by
  rw [advanceAll_start]
  exact Nat.mod_eq_of_lt (h before hbefore).2

/-- Later places in a text come later in the order of positions. -/
theorem order_eq_lt {more : List Char} (h : FitIn cs) (hbefore : before ++ more <+: cs)
    (hmore : more ≠ []) :
    (start.advanceAll before).order (start.advanceAll (before ++ more)) = .lt := by
  have hfirst := (List.prefix_append before more).trans hbefore
  rw [Position.order_eq_lt, h.line_eq hfirst, h.column_eq hfirst, h.line_eq hbefore,
    h.column_eq hbefore]
  exact lineAfter_append before hmore

/-- The counters hold every place in a text that is not too long. -/
theorem of_length (h : cs.length + 1 < UInt32.size) : FitIn cs := by
  intro before hbefore
  have hlength := hbefore.length_le
  have hlines := List.count_le_length (a := '\n') (l := before)
  have hcolumns := (List.takeWhile_prefix (p := (· ≠ '\n')) (l := before.reverse)).length_le
  rw [List.length_reverse] at hcolumns
  unfold lineAfter columnAfter
  omega

end FitIn

end Position

/-! ## Pieces of a text -/

namespace Source

/-- A token with the characters that it accounts for: its lexeme and the blanks before it. -/
structure Piece where
  blanks : List Char
  lexeme : List Char
  token : Token

def Piece.chars (p : Piece) : List Char := p.blanks ++ p.lexeme

/-- Whether a piece is what a scan makes of the characters between two parts of a text. -/
structure Piece.Stands (before behind : List Char) (p : Piece) : Prop where
  blank : ∀ c ∈ p.blanks, isBlank c = true
  /-- The token is what is read where the lexeme starts. -/
  read : Lexeme.atStart (p.lexeme ++ behind) = .ok ⟨p.token.kind, p.token.text, p.lexeme.length⟩
  /-- Only the end of the text has no characters. -/
  ends : p.lexeme = [] ↔ p.token.kind = .endOfFile
  position : p.token.position = Position.start.advanceAll (before ++ p.blanks)

/-- Whether these are the pieces of what follows `before`. -/
def ArePieces (before : List Char) (pieces : List Piece) : Prop :=
  ∀ front p behind, pieces = front ++ p :: behind →
    p.Stands (before ++ front.flatMap Piece.chars) (behind.flatMap Piece.chars) ∧
      (p.token.kind = .endOfFile ↔ behind = [])

/-- A piece in front of others. -/
theorem ArePieces.cons {before : List Char} {p : Piece} {pieces : List Piece}
    (hp : p.Stands before (pieces.flatMap Piece.chars))
    (hlast : p.token.kind = .endOfFile ↔ pieces = [])
    (h : ArePieces (before ++ p.chars) pieces) : ArePieces before (p :: pieces) := by
  intro front q behind heq
  cases front with
  | nil =>
    obtain ⟨rfl, rfl⟩ := List.cons.inj heq
    rw [List.flatMap_nil, List.append_nil]
    exact ⟨hp, hlast⟩
  | cons r front =>
    obtain ⟨rfl, rfl⟩ := List.cons.inj heq
    rw [List.flatMap_cons, ← List.append_assoc]
    exact h front q behind rfl

/-- A scan splits the text into pieces, up to the end of the file. -/
theorem tokensFrom_pieces {fuel : Nat} {before cs : List Char} {scanned tokens : List Token}
    (h : tokensFrom fuel cs (Position.start.advanceAll before) scanned = .ok tokens) :
    ∃ pieces, tokens = scanned.reverse ++ pieces.map Piece.token ∧
      cs = pieces.flatMap Piece.chars ∧ pieces ≠ [] ∧ ArePieces before pieces := by
  induction fuel generalizing before cs scanned with
  | zero => cases h
  | succ fuel ih =>
    unfold tokensFrom at h
    simp only [← Position.advanceAll_append] at h
    generalize hblanks : cs.takeWhile isBlank = blanks at h
    generalize hrest : cs.drop blanks.length = rest at h
    obtain rfl : blanks ++ rest = cs := by
      rw [← hrest, ← hblanks]
      exact List.prefix_iff_eq_append.1 (List.takeWhile_prefix isBlank)
    have hblank : ∀ c ∈ blanks, isBlank c = true := by
      rw [← hblanks]
      exact fun c hc => List.mem_takeWhile_imp hc
    cases rest with
    | nil =>
      rw [Lexeme.atStart_nil] at h
      cases h
      refine ⟨[⟨blanks, [], .endOfFile (Position.start.advanceAll (before ++ blanks))⟩],
        List.reverse_cons, by simp [Piece.chars], List.cons_ne_nil _ _, .cons ?_ (by simp [Token.endOfFile]) ?_⟩
      · exact ⟨hblank, rfl, by simp [Token.endOfFile], rfl⟩
      · exact fun front _ _ heq => by simp at heq
    | cons c rest =>
      split at h
      · cases h
      · next l hread =>
        have hspans := Lexeme.spans_atStart hread
        rw [if_neg hspans.inside] at h
        generalize hlexeme : (c :: rest).take l.length = lexeme at h
        have hlength : lexeme.length = l.length := by
          rw [← hlexeme, List.length_take]
          exact Nat.min_eq_left hspans.le
        obtain ⟨pieces, rfl, hcs, hne, hpieces⟩ := ih h
        have hsplit : c :: rest = lexeme ++ pieces.flatMap Piece.chars := by
          rw [← hlexeme, ← hcs, List.take_append_drop]
        have hpos := hspans.pos
        refine ⟨⟨blanks, lexeme, l.kind, l.text, Position.start.advanceAll (before ++ blanks)⟩ :: pieces,
          ?_, ?_, List.cons_ne_nil _ _, .cons ⟨hblank, ?_, ?_, rfl⟩ ?_ ?_⟩
        · rw [List.reverse_cons, List.append_assoc]
          rfl
        · rw [List.flatMap_cons, Piece.chars, List.append_assoc, ← hsplit]
        · rw [← hsplit, hread, hlength]
        · refine iff_of_false (fun hnil => ?_) hspans.inside
          rw [show lexeme = [] from hnil, List.length_nil] at hlength
          omega
        · exact iff_of_false hspans.inside hne
        · rw [Piece.chars, ← List.append_assoc]
          exact hpieces

theorem ArePieces.tail {before : List Char} {p : Piece} {pieces : List Piece}
    (h : ArePieces before (p :: pieces)) : ArePieces (before ++ p.chars) pieces := by
  intro front q behind heq
  have hq := h (p :: front) q behind (by rw [heq, List.cons_append])
  rw [List.flatMap_cons, ← List.append_assoc] at hq
  exact hq

/-- The tokens of pieces stand one behind the other. -/
theorem ArePieces.increasing {text before : List Char} {pieces : List Piece}
    (hfits : Position.FitIn text) (htext : before ++ pieces.flatMap Piece.chars <+: text)
    (h : ArePieces before pieces) :
    (pieces.map Piece.token).Pairwise fun t u => t.position.order u.position = .lt := by
  induction pieces generalizing before with
  | nil => exact .nil
  | cons p pieces ih =>
    obtain ⟨hp, hlast⟩ := h [] p pieces rfl
    rw [List.flatMap_nil, List.append_nil] at hp
    rw [List.flatMap_cons, ← List.append_assoc] at htext
    refine List.pairwise_cons.2 ⟨fun t ht => ?_, ih htext h.tail⟩
    obtain ⟨q, hq, rfl⟩ := List.mem_map.1 ht
    obtain ⟨front, behind, rfl⟩ := List.append_of_mem hq
    have hlexeme : p.lexeme ≠ [] := by
      rw [Ne, hp.ends, hlast]
      simp
    rw [hp.position, (h.tail front q behind rfl).1.position, Piece.chars, List.append_assoc,
      List.append_assoc, List.append_assoc, ← List.append_assoc before p.blanks]
    refine hfits.order_eq_lt (.trans ?_ htext) (List.append_ne_nil_of_left_ne_nil hlexeme _)
    refine ⟨q.lexeme ++ behind.flatMap Piece.chars, ?_⟩
    simp [Piece.chars]

/-- Every token but the last one has a character of its own. -/
theorem ArePieces.length_le {before : List Char} {pieces : List Piece} (h : ArePieces before pieces) :
    pieces.length ≤ (pieces.flatMap Piece.chars).length + 1 := by
  induction pieces generalizing before with
  | nil => exact Nat.zero_le _
  | cons p pieces ih =>
    obtain ⟨hp, hlast⟩ := h [] p pieces rfl
    have hrest := ih h.tail
    rw [List.length_cons, List.flatMap_cons, List.length_append]
    cases pieces with
    | nil => exact Nat.succ_le_succ (Nat.zero_le _)
    | cons q pieces =>
      have hlexeme : 1 ≤ p.lexeme.length := by
        refine List.length_pos_iff.2 ?_
        rw [Ne, hp.ends, hlast]
        simp
      unfold Piece.chars at hrest ⊢
      rw [List.length_append]
      omega

/-- A scan never stalls: where it fails it is at a lexical error. -/
theorem tokensFrom_error {fuel : Nat} {cs : List Char} {p : Position} {scanned : List Token} {e : Error}
    (hfuel : cs.length < fuel) (h : tokensFrom fuel cs p scanned = .error e) :
    e.kind = .lexical := by
  induction fuel generalizing cs p scanned with
  | zero => exact absurd hfuel (Nat.not_lt_zero _)
  | succ fuel ih =>
    unfold tokensFrom at h
    simp only at h
    generalize hrest : cs.drop (cs.takeWhile isBlank).length = rest at h
    have hlength : rest.length ≤ cs.length := by
      rw [← hrest, List.length_drop]
      exact Nat.sub_le _ _
    split at h
    · next hread =>
      cases h
      exact Lexeme.kind_of_atStart_error hread
    · next l hread =>
      split at h
      · cases h
      · next hkind =>
        cases rest with
        | nil =>
          rw [Lexeme.atStart_nil] at hread
          cases hread
          exact absurd rfl hkind
        | cons c rest =>
          have hpos := (Lexeme.spans_atStart hread).pos
          refine ih ?_ h
          rw [List.length_drop]
          rw [List.length_cons] at hlength ⊢
          omega

theorem tokenize_arePieces {s : String} {tokens : List Token} (h : tokenize s = .ok tokens) :
    ∃ pieces, tokens = pieces.map Piece.token ∧ s.toList = pieces.flatMap Piece.chars ∧
      pieces ≠ [] ∧ ArePieces [] pieces := by
  have hstart : tokensFrom (s.toList.length + 1) s.toList (Position.start.advanceAll []) [] =
      .ok tokens := h
  obtain ⟨pieces, htokens, hs, hne, hpieces⟩ := tokensFrom_pieces hstart
  exact ⟨pieces, htokens, hs, hne, hpieces⟩

/-- In a text whose lines and columns can be counted every token stands behind the ones before it. -/
theorem tokenize_increasing {s : String} {tokens : List Token} (hfits : Position.FitIn s.toList)
    (h : tokenize s = .ok tokens) :
    tokens.Pairwise fun t u => t.position.order u.position = .lt := by
  obtain ⟨pieces, rfl, hs, -, hpieces⟩ := tokenize_arePieces h
  exact hpieces.increasing hfits (by rw [hs]; exact List.prefix_rfl)

/-- **Extents.** A scan ends with a lexical error or with tokens that account for the whole text: it is
their pieces one behind the other, the last of them the end of the file. There is at most one token more
than characters. Where the counters do not overflow, the position of a token is the line and the column of
its first character, and positions increase from token to token. -/
theorem tokenize_pieces (s : String) :
    (∀ e, tokenize s = .error e → e.kind = .lexical) ∧
      ∀ tokens, tokenize s = .ok tokens →
        tokens.length ≤ s.length + 1 ∧
          ∃ pieces, tokens = pieces.map Piece.token ∧ s.toList = pieces.flatMap Piece.chars ∧
            pieces ≠ [] ∧ ArePieces [] pieces ∧
            (Position.FitIn s.toList →
              (tokens.Pairwise fun t u => t.position.order u.position = .lt) ∧
                ∀ front p behind, pieces = front ++ p :: behind →
                  p.token.position.line.toNat =
                      Position.lineAfter (front.flatMap Piece.chars ++ p.blanks) ∧
                    p.token.position.column.toNat =
                      Position.columnAfter (front.flatMap Piece.chars ++ p.blanks)) := by
  refine ⟨fun e h => tokensFrom_error (Nat.lt_succ_self _) h, fun tokens h => ?_⟩
  obtain ⟨pieces, htokens, hs, hne, hpieces⟩ := tokenize_arePieces h
  refine ⟨?_, pieces, htokens, hs, hne, hpieces, fun hfits => ⟨tokenize_increasing hfits h, ?_⟩⟩
  · rw [htokens, List.length_map, ← String.length_toList, hs]
    exact hpieces.length_le
  · rintro front p behind rfl
    obtain ⟨hp, -⟩ := hpieces front p behind rfl
    rw [List.nil_append] at hp
    have hprefix : front.flatMap Piece.chars ++ p.blanks <+: s.toList := by
      refine ⟨p.lexeme ++ behind.flatMap Piece.chars, ?_⟩
      rw [hs]
      simp [Piece.chars]
    rw [hp.position]
    exact ⟨hfits.line_eq hprefix, hfits.column_eq hprefix⟩

/-- An escape of three characters, lines that end inside of a comment and a string, and a comment that is
left open. -/
theorem tokenize_pieces_lines :
    let text := "é/*\n*/ '\\x41'\r\n`p\nq`+/*"
    let tokens : List Token :=
      [⟨.identifier, "é", ⟨1, 1⟩⟩, ⟨.blockComment, "\n", ⟨1, 2⟩⟩, ⟨.rune, "A", ⟨2, 4⟩⟩,
        ⟨.string, "p\nq", ⟨3, 1⟩⟩, ⟨.mark .plus, "+", ⟨4, 3⟩⟩, ⟨.blockComment, "", ⟨4, 4⟩⟩,
        ⟨.endOfFile, "", ⟨4, 6⟩⟩]
    tokenize text = .ok tokens ∧ Position.FitIn text.toList ∧ tokens.length ≤ text.length + 1 ∧
      ∃ pieces, tokens = pieces.map Piece.token ∧ text.toList = pieces.flatMap Piece.chars ∧
        pieces ≠ [] ∧ ArePieces [] pieces ∧
        (tokens.Pairwise fun t u => t.position.order u.position = .lt) ∧
        ∀ front p behind, pieces = front ++ p :: behind →
          p.token.position.line.toNat =
              Position.lineAfter (front.flatMap Piece.chars ++ p.blanks) ∧
            p.token.position.column.toNat =
              Position.columnAfter (front.flatMap Piece.chars ++ p.blanks) := by
  intro text tokens
  have hscan : tokenize text = .ok tokens := by decide +kernel
  have hfits : Position.FitIn text.toList := .of_length (by decide +kernel)
  obtain ⟨hlength, pieces, htokens, htext, hne, hpieces, hplaces⟩ := (tokenize_pieces text).2 tokens hscan
  exact ⟨hscan, hfits, hlength, pieces, htokens, htext, hne, hpieces, hplaces hfits⟩

end Source

end ScriptFront
