import ScriptFront.Proofs.Attribute.Constructs
import ScriptFront.Proofs.Production.FilesRead
import ScriptFront.Proofs.Token.Stops

/-!
# Files as sequences of constructs

A segment is a construct of a file with the comments and attributes before it. `Segments` says that a token
list is a sequence of segments, each of them a construct that can be read on its own, up to the end of the
file. `Segment.Stands` is the same of a single segment between two cursors.
-/

namespace ScriptFront

/-- A construct with the comments and attributes before it. -/
structure Segment where
  gap : List Token
  first : Token
  /-- Its tokens behind the first one, comments and attributes between them included. -/
  more : List Token
  /-- What it adds to a file, as far as it needs no attributes. -/
  adds : Draft

namespace Segment

section Parts

variable (s : Segment)

def tokens : List Token := s.gap ++ s.first :: s.more

/-- The attributes before the construct and behind the one before. -/
def attributes : List Token := s.gap.filter (·.kind = .attribute)

def imports : List Import := s.adds.imports.reverse

def statements : List Stmt := s.adds.statements.reverse

def globals : List Stmt := s.adds.globals.reverse

/-- Whether the construct declares a function or a class, exported or not. -/
def declares : Bool :=
  if s.first.kind = .keyword .exportWord then
    (s.more.find? (!·.kind.isComment)).any (·.kind.isAttributed)
  else s.first.kind.isAttributed

end Parts

/-- Whether the construct goes from its first token that is no comment and no attribute to its last one. -/
structure Proper (s : Segment) : Prop where
  gap : ∀ t ∈ s.gap, t.kind.isComment = true
  first : s.first.kind.isComment = false
  more : ∀ t, s.more.getLast? = some t → t.kind.isComment = false

end Segment

/-- Whether the tokens are those of the segments, each of which is read as a construct of its own, and
those of `rest` before the end of the file. -/
inductive Segments (g : Grammar) (ctx : Context) : List Segment → List Token → List Token → Prop where
  | last {rest : List Token} {eof : Token} (hrest : ∀ t ∈ rest, t.kind.isComment = true)
      (heof : eof.kind = .endOfFile) : Segments g ctx [] rest (rest ++ [eof])
  | more {s : Segment} {segments : List Segment} {rest tokens : List Token} (hproper : s.Proper)
      (hfirst : s.first.kind ≠ .endOfFile)
      (hread : g.construct .empty s.first ctx (Cursor.ofTokens (s.tokens ++ tokens)) =
        .ok (s.adds, Cursor.ofTokens tokens))
      (h : Segments g ctx segments rest tokens) :
      Segments g ctx (s :: segments) rest (s.tokens ++ tokens)

/-- Whether no import comes behind a statement. -/
def ImportsFirst (segments : List Segment) : Prop :=
  segments.Pairwise fun s t => t.first.kind = .keyword .importWord → s.adds.statements = []

/-! ## Segments between cursors -/

namespace Segment

/-- Whether the tokens of the segment are those from `c` to `d`. -/
def Stands (s : Segment) (c d : Cursor) : Prop :=
  d.last = c.last ∧ ∃ stops, c.ahead = ⟨s.gap, s.first⟩ :: stops ++ d.ahead ∧
    s.more = stops.flatMap Stop.tokens ∧ (s.first.kind = .keyword .exportWord → stops ≠ [])

namespace Stands

variable {s : Segment} {c d : Cursor}

theorem tokens (h : s.Stands c d) : c.tokens = s.tokens ++ d.tokens := by
  obtain ⟨hlast, stops, hahead, hmore, -⟩ := h
  unfold Cursor.tokens Segment.tokens
  rw [hahead, hmore, hlast]
  simp [Stop.tokens]

theorem peek (h : s.Stands c d) : c.peek = s.first := by
  obtain ⟨-, stops, hahead, -⟩ := h
  unfold Cursor.peek Cursor.peekNth
  rw [hahead]
  rfl

theorem attributes (h : s.Stands c d) : c.attributes = s.attributes := by
  obtain ⟨-, stops, hahead, -⟩ := h
  unfold Cursor.attributes
  rw [hahead]
  rfl

theorem remaining (h : s.Stands c d) : d.remaining < c.remaining := by
  obtain ⟨-, stops, hahead, -⟩ := h
  unfold Cursor.remaining
  rw [hahead, List.length_append, List.length_cons]
  omega

theorem proper (h : s.Stands c d) (hc : c.Neat) : s.Proper := by
  obtain ⟨-, stops, hahead, hmore, -⟩ := h
  have hneat : ∀ stop ∈ (⟨s.gap, s.first⟩ : Stop) :: stops, stop.Neat := by
    intro stop hstop
    refine (hc.ahead stop ?_).1
    rw [hahead]
    exact List.mem_append_left _ hstop
  obtain ⟨hfirst, hstops⟩ := List.forall_mem_cons.1 hneat
  refine ⟨hfirst.leading, hfirst.token, fun t ht => ?_⟩
  rw [hmore] at ht
  obtain rfl | ⟨init, stop, rfl⟩ := List.eq_nil_or_concat stops
  · cases ht
  · rw [List.concat_eq_append, List.flatMap_append, List.flatMap_singleton] at ht
    unfold Stop.tokens at ht
    rw [← List.append_assoc, List.getLast?_concat] at ht
    cases ht
    exact (hstops stop (by simp)).token

/-- The two tokens that tell a declaration of a function or a class are both in its segment. -/
theorem startsAttributed (h : s.Stands c d) (hc : c.Neat) : c.startsAttributed = s.declares := by
  have hpeek := congrArg Token.kind h.peek
  obtain ⟨-, stops, hahead, hmore, hexport⟩ := h
  have hsecond : s.first.kind = .keyword .exportWord →
      s.more.find? (!·.kind.isComment) = some (c.peekNth 1) := by
    intro hkind
    obtain ⟨stop, stops, rfl⟩ := List.exists_cons_of_ne_nil (hexport hkind)
    have hstop : stop.Neat := by
      refine (hc.ahead stop ?_).1
      rw [hahead]
      simp
    unfold Cursor.peekNth
    rw [hahead, hmore, List.flatMap_cons]
    unfold Stop.tokens
    rw [List.find?_append, List.find?_append]
    have hleading : stop.leading.find? (!·.kind.isComment) = none := by
      rw [List.find?_eq_none]
      intro t ht
      simp [hstop.leading t ht]
    rw [hleading]
    simp [hstop.token]
  unfold Cursor.startsAttributed declares Cursor.peekKind
  rw [hpeek]
  by_cases hkind : s.first.kind = .keyword .exportWord
  · rw [if_pos hkind, if_pos hkind, hsecond hkind]
    rfl
  · rw [if_neg hkind, if_neg hkind]

end Stands

/-- What a construct reads is a segment. -/
theorem stands_of_construct {g : Grammar} [g.Progress] {ctx : Context} {c d : Cursor} {adds : Draft}
    (hc : c.Neat) (h : g.construct .empty c.peek ctx c = .ok (adds, d)) :
    ∃ s : Segment, s.Stands c d ∧ s.adds = adds := by
  have hreads : c.Reaches 1 d := Production.Consumes.reads.reaches hc.closed h
  obtain ⟨hlast, taken, htaken, hlength, -⟩ := hreads
  obtain ⟨stop, stops, rfl⟩ := List.exists_cons_of_length_pos hlength
  refine ⟨⟨stop.leading, stop.token, stops.flatMap Stop.tokens, adds⟩, ⟨hlast, stops, htaken, rfl, ?_⟩, rfl⟩
  intro hkind hnil
  have hpeek : c.peek = stop.token := by
    unfold Cursor.peek Cursor.peekNth
    rw [htaken]
    rfl
  obtain ⟨-, taken', htaken', hlength', -⟩ :=
    (Grammar.construct_reads_export (hpeek ▸ hkind)).reaches hc.closed h
  have hsame := congrArg List.length (htaken.symm.trans htaken')
  rw [hnil, List.length_append, List.length_append, List.length_singleton] at hsame
  omega

/-- A segment in front of a cursor is the first thing that a cursor before both reads. -/
theorem stands_front {g : Grammar} [g.Progress] {ctx : Context} {s : Segment} {d : Cursor} (hd : d.Neat)
    (hproper : s.Proper)
    (hread : g.construct .empty s.first ctx (Cursor.ofTokens (s.tokens ++ d.tokens)) = .ok (s.adds, d)) :
    (Cursor.ofTokens (s.tokens ++ d.tokens)).Neat ∧
      s.Stands (Cursor.ofTokens (s.tokens ++ d.tokens)) d := by
  have hclosed := hd.closed_front s.tokens
  have htokens := hd.tokens_front s.tokens
  have hhead : (Cursor.ofTokens (s.tokens ++ d.tokens)).ahead.head? = some ⟨s.gap, s.first⟩ :=
    hd.ahead_front ⟨hproper.gap, hproper.first⟩
  have hneat := hd.neat_front s.tokens (Production.Consumes.reads.reaches hclosed hread)
  generalize Cursor.ofTokens (s.tokens ++ d.tokens) = c at *
  obtain ⟨stops, hstops⟩ := List.head?_eq_some_iff.1 hhead
  have hpeek : c.peek = s.first := by
    unfold Cursor.peek Cursor.peekNth
    rw [hstops]
    rfl
  obtain ⟨s', hstands, hadds⟩ := stands_of_construct hneat (hpeek ▸ hread)
  suffices s' = s from ⟨hneat, this ▸ hstands⟩
  have hsame := htokens.symm.trans hstands.tokens
  obtain ⟨-, _, hahead, -⟩ := hstands
  rw [hstops] at hahead
  have hstop := (List.cons.inj hahead).1
  have hgap : s.gap = s'.gap := congrArg Stop.leading hstop
  have hfirst : s.first = s'.first := congrArg Stop.token hstop
  unfold Segment.tokens at hsame
  rw [hgap, hfirst] at hsame
  have hmore : s.more = s'.more := by simpa using hsame
  cases s
  cases s'
  simp_all

end Segment

/-- The cursor behind all segments. -/
theorem Cursor.neat_last {rest : List Token} {eof : Token}
    (hrest : ∀ t ∈ rest, t.kind.isComment = true) (heof : eof.kind = .endOfFile) :
    Neat ⟨[], rest, eof⟩ ∧ ofTokens (rest ++ [eof]) = ⟨[], rest, eof⟩ := by
  have hend : Neat ⟨[], rest, eof⟩ := by
    refine ⟨fun s hs => absurd hs List.not_mem_nil, ⟨hrest, ?_⟩, heof⟩
    show eof.kind.isComment = false
    rw [heof]
    rfl
  exact ⟨hend, hend.ofTokens_tokens⟩

variable {g : Grammar} [g.Progress] {ctx : Context} {segments : List Segment} {rest tokens : List Token}

/-- A cursor before segments is neat, and has all their tokens ahead. -/
theorem Segments.neat (h : Segments g ctx segments rest tokens) :
    (Cursor.ofTokens tokens).Neat ∧ (Cursor.ofTokens tokens).tokens = tokens := by
  induction h with
  | @last rest eof hrest heof =>
    obtain ⟨hend, hmake⟩ := Cursor.neat_last hrest heof
    rw [hmake]
    exact ⟨hend, rfl⟩
  | @more s segments rest tokens hproper _ hread _ ih =>
    obtain ⟨hneat, htokens⟩ := ih
    generalize Cursor.ofTokens tokens = d at hread hneat htokens
    rw [← htokens] at hread ⊢
    exact ⟨(Segment.stands_front hneat hproper hread).1, hneat.tokens_front s.tokens⟩

/-- A segment stands before the segments behind it, if it is read on its own up to them. -/
theorem Segments.stands {s : Segment} (h : Segments g ctx segments rest tokens) (hproper : s.Proper)
    (hread : g.construct .empty s.first ctx (Cursor.ofTokens (s.tokens ++ tokens)) =
      .ok (s.adds, Cursor.ofTokens tokens)) :
    (Cursor.ofTokens (s.tokens ++ tokens)).Neat ∧
      s.Stands (Cursor.ofTokens (s.tokens ++ tokens)) (Cursor.ofTokens tokens) := by
  obtain ⟨hneat, htokens⟩ := h.neat
  have hstart := Segment.stands_front hneat hproper (by rw [htokens]; exact hread)
  rwa [htokens] at hstart

end ScriptFront
