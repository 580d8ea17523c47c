import ScriptFront.Proofs.Shift.Places
import ScriptFront.Proofs.Token.Marker
import ScriptFront.Proofs.Token.Scans

/-!
# Blanks around a sign

Blanks move what stands behind them on the line, and nothing that the grammar sees changes as long as no
lexeme is torn or joined by them. So a text can be written with or without blanks around an equals sign if
what stands before it does not run on (`File.ofSource_spaced`).
-/

namespace ScriptFront

/-! ## Places next to each other -/

namespace Position

theorem line_advanceAll (p : Position) (cs : List Char) :
    (p.advanceAll cs).line = p.line + UInt32.ofNat (cs.count '\n') := by
  induction cs generalizing p with
  | nil => simp [advanceAll]
  | cons c cs ih =>
    show ((p.advance c).advanceAll cs).line = _
    rw [ih]
    unfold advance
    by_cases hc : c = '\n'
    · simp [hc, UInt32.ofNat_add, UInt32.add_assoc, UInt32.add_comm 1]
    · simp [hc]

theorem advanceAll_of_not_mem {cs : List Char} (h : '\n' ∉ cs) (p : Position) :
    p.advanceAll cs = ⟨p.line, p.column + UInt32.ofNat cs.length⟩ := by
  induction cs generalizing p with
  | nil => simp [advanceAll]
  | cons c cs ih =>
    obtain ⟨hc, hcs⟩ := not_or.1 (mt List.mem_cons.2 h)
    show (p.advance c).advanceAll cs = _
    rw [ih hcs]
    unfold advance
    simp [Ne.symm hc, UInt32.ofNat_add, UInt32.add_assoc, UInt32.add_comm 1]

/-- Whether a place is next to an earlier one can be told from the characters between them, unless there
are so many lines that they cannot be counted. -/
theorem isAdjacentTo_advanceAll {cs : List Char} (h : cs.count '\n' < UInt32.size) (p : Position) :
    p.isAdjacentTo (p.advanceAll cs) = (!cs.contains '\n' && UInt32.ofNat cs.length == 1) := by
  unfold isAdjacentTo
  by_cases hline : '\n' ∈ cs
  · have hcount := List.count_pos_iff.2 hline
    have hne : p.line ≠ p.line + UInt32.ofNat (cs.count '\n') := by
      intro heq
      have hzero : UInt32.ofNat (cs.count '\n') = 0 := by simpa using heq.symm
      rw [← UInt32.toNat_inj, UInt32.toNat_ofNat_of_lt' h] at hzero
      exact absurd hzero (Nat.ne_of_gt hcount)
    rw [line_advanceAll, beq_eq_false_iff_ne.2 hne]
    simp [hline]
  · rw [advanceAll_of_not_mem hline]
    have hcolumn : (p.column + 1 = p.column + UInt32.ofNat cs.length) ↔ UInt32.ofNat cs.length = 1 := by
      rw [UInt32.add_right_inj, eq_comm]
    simp [hline, hcolumn]

end Position

/-! ## Findings on the same lines -/

namespace Source

variable {cs : List Char} {findings : List Finding}

theorem InOrder.sublist (h : InOrder cs findings) {some : List Finding} (hsome : some.Sublist findings) :
    InOrder cs some :=
  ⟨fun f hf => h.inside f (hsome.subset hf), h.ordered.sublist hsome⟩

/-- Two signs in a text that are next to each other are so wherever the text stands. -/
theorem Finding.joins_token {f g : Finding} (hg : g.2 <+: cs) (hfg : f.2 <+: g.2)
    (hlines : cs.count '\n' < UInt32.size) (p q : Position) :
    (f.token p).joins (g.token p) = (f.token q).joins (g.token q) := by
  obtain ⟨between, hbetween⟩ := hfg
  have hcount : between.count '\n' < UInt32.size := by
    have := hg.sublist.count_le '\n'
    rw [← hbetween, List.count_append] at this
    omega
  unfold Token.joins Finding.token
  dsimp only
  rw [← hbetween, Position.advanceAll_append, Position.advanceAll_append,
    Position.isAdjacentTo_advanceAll hcount, Position.isAdjacentTo_advanceAll hcount]

theorem joints_findings (h : InOrder cs findings) (hlines : cs.count '\n' < UInt32.size) (p q : Position) :
    Token.joints (findings.map (Finding.token p)) = Token.joints (findings.map (Finding.token q)) := by
  induction findings with
  | nil => rfl
  | cons f findings ih =>
    have hrest := ih (h.sublist (List.sublist_cons_self f findings))
    cases findings with
    | nil => rfl
    | cons g findings =>
      have hfg := List.rel_of_pairwise_cons h.ordered (List.mem_cons_self (a := g))
      have hg := h.inside g (List.mem_cons_of_mem _ List.mem_cons_self)
      exact congrArg₂ List.cons (Finding.joins_token hg hfg hlines p q) hrest

end Source

namespace Shift

/-- Keeps what stands on a line on that line. -/
def level : Shift := ⟨fun p q => p.line = q.line, id⟩

/-- Whether two lists are the same but for the columns of their tokens, with the same signs next to each
other. -/
structure Levelled (ts us : List Token) : Prop where
  tokens : List.Forall₂ level.token ts us
  joints : Token.joints (Token.significant ts) = Token.joints (Token.significant us)

theorem alike_scan {cs : List Char} {p q : Position} (hline : p.line = q.line)
    (hlines : cs.count '\n' < UInt32.size) : level.Alike Levelled (Source.scan cs p) (Source.scan cs q) := by
  have hplace : ∀ before : List Char, level.moves (p.advanceAll before) (q.advanceAll before) := by
    intro before
    show (p.advanceAll before).line = (q.advanceAll before).line
    rw [Position.line_advanceAll, Position.line_advanceAll, hline]
  rcases Source.scan_findings cs with ⟨cause, before, hscan⟩ | ⟨findings, hfindings, hscan⟩
  · rw [hscan, hscan]
    exact .error cause (hplace before)
  · rw [hscan, hscan]
    refine .ok ⟨?_, ?_⟩
    · rw [List.forall₂_map_left_iff, List.forall₂_map_right_iff]
      exact List.forall₂_same.2 fun f _ => ⟨rfl, rfl, hplace f.2⟩
    · unfold Token.significant
      rw [List.filter_map, List.filter_map]
      exact Source.joints_findings (hfindings.sublist List.filter_sublist) hlines p q

/-- A token that is no `>` sign joins nothing on either side of it. -/
theorem joints_behind {t u : Token} (ht : t.kind ≠ .mark .greater) (hu : u.kind ≠ .mark .greater)
    {ts us : List Token} (hlength : ts.length = us.length) (h : Token.joints ts = Token.joints us)
    (front : List Token) : Token.joints (front ++ t :: ts) = Token.joints (front ++ u :: us) := by
  have hright : ∀ {t v : Token}, t.kind ≠ .mark .greater → t.joins v = false := by
    intro t v ht
    simp [Token.joins, ht]
  have hleft : ∀ {t v : Token}, t.kind ≠ .mark .greater → v.joins t = false := by
    intro t v ht
    simp [Token.joins, ht]
  have hbehind : Token.joints (t :: ts) = Token.joints (u :: us) := by
    cases ts with
    | nil => rw [List.length_eq_zero_iff.1 hlength.symm]; rfl
    | cons t' ts =>
      obtain ⟨u', us, rfl⟩ := List.exists_cons_of_length_eq_add_one hlength.symm
      unfold Token.joints
      rw [hright ht, hright hu, h]
  induction front with
  | nil => exact hbehind
  | cons x front ih =>
    cases front with
    | nil =>
      refine congrArg₂ List.cons ?_ hbehind
      rw [hleft ht, hleft hu]
    | cons y front => exact congrArg (List.cons (x.joins y)) ih

/-- The same tokens may stand in front of both lists, with an equals sign or the like between them. -/
theorem Levelled.append {ts us : List Token} (h : Levelled ts us) {t u : Token} (htu : level.token t u)
    (ht : t.kind.isComment = false) (hgreater : t.kind ≠ .mark .greater) (front : List Token) :
    Levelled (front ++ t :: ts) (front ++ u :: us) := by
  have hu := ht
  rw [htu.kind] at hu
  constructor
  · refine List.rel_append (List.forall₂_same.2 fun t _ => ⟨rfl, rfl, rfl⟩) (.cons htu h.tokens)
  · have hseen : List.Forall₂ level.token (Token.significant ts) (Token.significant us) :=
      List.rel_filter (fun t u htu => by dsimp only; rw [htu.kind]) h.tokens
    have hjoints := joints_behind hgreater (htu.kind ▸ hgreater) hseen.length_eq h.joints (Token.significant front)
    unfold Token.significant at hjoints ⊢
    rw [List.filter_append, List.filter_append, List.filter_cons_of_pos (by simp [ht]),
      List.filter_cons_of_pos (by simp [hu])]
    exact hjoints

end Shift

/-! ## Files without places -/

/-- The file with everything at the same place. -/
def File.unplaced (f : File) : File :=
  { f with
    imports := f.imports.map fun i => { i with position := .start }
    statements := f.statements.map Rewriting.unplaced.stmt
    comments := f.comments.map fun c => { c with position := .start }
    globals := f.globals.map Rewriting.unplaced.stmt }

/-- What is read, or why nothing is, without the places. -/
def File.withoutPlaces : Except Error File → Except Cause File
  | .ok f => .ok f.unplaced
  | .error e => .error e.cause

namespace Shift

theorem map_eq {α β : Type} {A : α → α → Prop} {f : α → β} {as bs : List α} (h : List.Forall₂ A as bs)
    (hf : ∀ {a b}, A a b → f a = f b) : as.map f = bs.map f := by
  induction h with
  | nil => rfl
  | cons hab _ ih => rw [List.map_cons, List.map_cons, hf hab, ih]

theorem file.unplaced {r : Shift} {f f' : File} (h : r.file f f') : f.unplaced = f'.unplaced := by
  have himports := map_eq (f := fun i : Import => { i with position := .start }) h.imports fun h => by
    rw [h.path, h.localName, h.resolvedPath]
  have hcomments := map_eq (f := fun c : Comment => { c with position := .start }) h.comments fun h => by
    rw [h.multiLine, h.text]
  unfold File.unplaced
  rw [himports, hcomments, (Same.list h.statements).shape, (Same.list h.globals).shape, h.path, h.attributes]

theorem Alike.withoutPlaces {r : Shift} {x y : Except Error File} (h : r.Alike r.file x y) :
    File.withoutPlaces x = File.withoutPlaces y := by
  cases h with
  | ok hf => exact congrArg Except.ok hf.unplaced
  | error cause _ => rfl

variable {ts us : List Token}

/-- Files of lists that are the same but for columns. -/
theorem Levelled.alike (h : Levelled ts us) (hts : Cursor.closed ts = ts) (hus : Cursor.closed us = us)
    (path : String) (options : Options) :
    level.Alike level.file (File.ofTokens ts path options) (File.ofTokens us path options) := by
  refine alike_ofTokens (cursor_ofTokens ?_ ?_) (comments_ofTokens h.tokens) path options
  · rw [hts, hus]
    exact h.tokens
  · rw [hts, hus]
    exact h.joints

end Shift

/-! ## Texts with and without blanks -/

namespace Source

theorem closed_of_scan {cs : List Char} {p : Position} {tokens : List Token} (h : scan cs p = .ok tokens)
    (front : List Token) (t : Token) : Cursor.closed (front ++ t :: tokens) = front ++ t :: tokens := by
  obtain ⟨ts, eof, rfl, heof, -⟩ := tokensFrom_ends (fun _ h => absurd h List.not_mem_nil) h
  unfold Cursor.closed
  rw [← List.cons_append, ← List.append_assoc, List.getLast?_concat]
  exact if_pos heof

/-- An equals sign stands alone before anything but another one and `>`. -/
theorem scan_equals {cs : List Char} (h : ∀ c ∈ cs.head?, c ≠ '=' ∧ c ≠ '>') (p : Position) :
    scan ('=' :: cs) p = (scan cs (p.advance '=')).map (⟨.mark .equals, "=", p⟩ :: ·) := by
  have hread : Lexeme.atStart ('=' :: cs) = .ok ⟨.mark .equals, "=", 1⟩ := by
    cases cs with
    | nil => rfl
    | cons d cs =>
      obtain ⟨hequals, harrow⟩ := h d rfl
      have hmark : Mark.atStart? ('=' :: d :: cs) = some (['='], .equals) := by
        simp [Mark.atStart?, Mark.spellings, Mark.all, Mark.text, hequals.symm, harrow.symm]
      rw [Lexeme.atStart_of_plain _ (by decide)]
      unfold Lexeme.mark
      rw [hmark]
      rfl
  exact scan_lexeme p hread (List.cons_ne_nil _ _)

/-- Blanks around an equals sign leave the tokens of a text as they are, up to columns, if what stands
before the sign does not run on. -/
theorem alike_spaced {front cs : List Char} {tokens : List Token} {eof : Token} {p : Position}
    (hfront : scan front p = .ok (tokens ++ [eof])) (hend : EndApart front tokens)
    (hcs : ∀ c ∈ cs.head?, c ≠ '=' ∧ c ≠ '>') (hlines : cs.count '\n' < UInt32.size) :
    Shift.level.Alike (fun ts us => Shift.Levelled ts us ∧ Cursor.closed ts = ts ∧ Cursor.closed us = us)
      (scan (front ++ '=' :: cs) p) (scan (front ++ ' ' :: '=' :: ' ' :: cs) p) := by
  rw [scan_append (.inr rfl) _ hfront hend, scan_append (.inl rfl) _ hfront hend, scan_equals hcs,
    scan_blank (c := ' ') _ rfl, scan_equals (by simp), scan_blank (c := ' ') _ rfl]
  generalize p.advanceAll front = q
  have hsign : Shift.level.token ⟨.mark .equals, "=", q⟩ ⟨.mark .equals, "=", q.advance ' '⟩ := ⟨rfl, rfl, rfl⟩
  have halike : Shift.level.Alike Shift.Levelled (scan cs (q.advance '='))
      (scan cs (((q.advance ' ').advance '=').advance ' ')) := Shift.alike_scan rfl hlines
  generalize hts : scan cs (q.advance '=') = x at halike ⊢
  generalize hus : scan cs (((q.advance ' ').advance '=').advance ' ') = y at halike ⊢
  cases halike with
  | error cause hplace => exact .error cause hplace
  | ok h =>
    exact .ok ⟨h.append hsign rfl (by simp) tokens, closed_of_scan hts _ _, closed_of_scan hus _ _⟩

end Source

namespace File

open Source

variable {head e : String} {tokens : List Token} {eof : Token}

/-- What stands behind an equals sign may be written next to it, and the sign next to what stands before it
if that does not run on. -/
theorem ofSource_spaced (hhead : tokenize (prepare head) = .ok (tokens ++ [eof]))
    (hend : beforeMarker head.toList = head.toList → EndApart (prepare head).toList tokens)
    (he : ∀ c ∈ (prepare e).toList.head?, c ≠ '=' ∧ c ≠ '>')
    (hlines : (prepare e).toList.count '\n' < UInt32.size) (path : String) (options : Options) :
    withoutPlaces (ofSource (head ++ "=" ++ e) path options) =
      withoutPlaces (ofSource (head ++ " = " ++ e) path options) := by
  unfold ofSource
  rw [tokenize_eq_scan, tokenize_eq_scan, toList_prepare_sign (by decide) (by decide),
    toList_prepare_sign (by decide) (by decide)]
  by_cases hmarker : beforeMarker head.toList = head.toList
  · rw [if_pos hmarker, if_pos hmarker]
    have halike := alike_spaced hhead (hend hmarker) he hlines
    show withoutPlaces (scan ((prepare head).toList ++ '=' :: (prepare e).toList) .start >>= _) =
      withoutPlaces (scan ((prepare head).toList ++ ' ' :: '=' :: ' ' :: (prepare e).toList) .start >>= _)
    generalize scan ((prepare head).toList ++ '=' :: (prepare e).toList) .start = x at halike ⊢
    generalize scan ((prepare head).toList ++ ' ' :: '=' :: ' ' :: (prepare e).toList) .start = y at halike ⊢
    cases halike with
    | error cause _ => rfl
    | ok h => exact (h.1.alike h.2.1 h.2.2 path options).withoutPlaces
  · rw [if_neg hmarker, if_neg hmarker]

end File

end ScriptFront
