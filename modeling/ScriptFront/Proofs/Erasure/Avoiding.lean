import ScriptFront.Proofs.Brackets.Files
import ScriptFront.Proofs.Erasure.Statements

/-!
# The whole grammar beside an insertion
-/

namespace ScriptFront

/-! ## The avoiding grammar -/

/-- The grammar with `gq` inside every construct, which refuses to read at a slot. Where a statement starts
with `type` right before a cast, it is read with `g`. -/
def Slot.around (s : Slot) (g gq : Grammar) : Grammar :=
  { gq.around with
    item := s.behind ["type"] g.blockItem gq.blockItem
    ascription := if s.cast then gq.around.ascription else s.refuse gq.around.ascription
    casts := if s.cast then s.refuse gq.around.casts else gq.around.casts }

/-- The grammar that can be entered `n` times and refuses to read at a slot. -/
def Grammar.avoiding (s : Slot) : Nat → Grammar
  | 0 => empty
  | n + 1 => s.around (ofDepth n) (avoiding s n)

namespace Slot

/-- The words that start a declaration in a file. -/
def declarationWords : List String := ["type", "declare", "namespace"]

/-- Everything up to the end of the file, with `gq`. Where a construct starts with a word for declarations
right before a cast, it is read with `g`. -/
def constructs (s : Slot) (g gq : Grammar) : Production Draft :=
  Grammar.constructsOf fun d t => s.behind declarationWords (g.construct d t) (gq.construct d t)

end Slot

namespace Production

variable {P : Insertion}

/-- Whether a type production reads the inserted type, or is too deep for it. -/
def ReadsInserted (P : Insertion) (t : Production Unit) : Prop :=
  ∀ ctx, t ctx ⟨P.type ++ P.moved.ahead, P.moved.last⟩ = .ok ((), P.moved) ∨
    TooDeep (t ctx ⟨P.type ++ P.moved.ahead, P.moved.last⟩)

/-- A production that refuses to read at the slot meets the place. -/
theorem Meets.refuse {α : Type} {p q p' : Production α} [hp : Tracks P p q p']
    (hplace : ∀ {ctx : Context} {a : α} {d : Cursor}, p ctx P.behind = .ok (a, d) →
      EndsLike (p' ctx (P.within [])) a d ∨ TooDeep (p' ctx (P.within []))) :
    Meets P p (P.slot.refuse q) p' where
  before := by
    intro ctx front a d hfront hfits hok
    rcases List.eq_nil_or_concat front with rfl | ⟨init, s, rfl⟩
    · obtain ⟨⟨rest, hrest, hd⟩, -⟩ := hp.after (List.suffix_refl _) hok
      exact .visited rest hrest hd (hfits rfl) (hplace hok)
    · have hne : (P.without (init.concat s)).remaining ≠ P.slot.remaining := by
        rw [Insertion.remaining_without, List.concat_eq_append, List.length_append]
        simp [Insertion.slot]
      unfold Slot.refuse
      rw [if_neg hne]
      exact hp.before hfront (by simp) hok
  after := by
    intro ctx rest a d hrest hne hok
    have hremaining : (P.past rest).remaining ≠ P.slot.remaining := by
      intro h
      exact hne (hrest.eq_of_length h)
    unfold Slot.refuse
    rw [if_neg hremaining]
    exact hp.after hrest hok
  plain := hp.plain

/-- A colon and a type, inserted where no type is written. -/
theorem ascribedType_meets {t tq t' : Production Unit} [Types P t tq t']
    (hcolon : P.opening.token.kind = .mark .colon) (hreads : ReadsInserted P t') :
    Meets P (ascribedType t) (P.slot.refuse (ascribedType tq)) (ascribedType t') := by
  refine .refuse fun {ctx a d} hok => ?_
  have hnot : P.behind.isAt (.mark .colon) = false := beq_eq_false_iff_ne.2 (P.bare hcolon)
  have hat : (P.within []).isAt (.mark .colon) = true := beq_iff_eq.2 hcolon
  have hnext : (P.within []).next = ⟨P.type ++ P.moved.ahead, P.moved.last⟩ :=
    if_neg (by rw [hcolon]; simp)
  unfold ascribedType at hok ⊢
  rw [run_bind_of_ok (run_skips_of_not ctx hnot)] at hok
  rw [run_bind_of_ok (run_skips_of_isAt ctx hat), hnext]
  cases hok
  exact (hreads ctx).imp_left fun h => ⟨P.moved, P.alike, h⟩

/-- One type more that an operand is taken as. -/
theorem asTypes_meets {t tq t' : Production Unit} [ht : Types P t tq t']
    (hword : P.opening.token.isWord "as" = true) (hreads : ReadsInserted P t') :
    Meets P (asTypes t) (P.slot.refuse (asTypes tq)) (asTypes t') := by
  refine .refuse fun {ctx a d} hok => ?_
  have hend : P.opening.token.kind ≠ .endOfFile := by
    rw [Insertion.opening_identifier hword]
    simp
  have hnext : (P.within []).next = ⟨P.type ++ P.moved.ahead, P.moved.last⟩ := if_neg hend
  have hat : (P.within []).peek.isWord "as" = true := hword
  have hrounds : (P.behind.last :: P.behind.ahead).length ≤ (P.within []).ahead.length := by
    simp only [Insertion.within, List.length_cons, List.length_append, List.nil_append, P.alike.length]
    omega
  have htypes : Types P t t t' := ⟨rfl, ht.tracks, ht.consumes⟩
  unfold asTypes at hok ⊢
  rcases hreads ctx with hread | hdeep
  · refine .inl ?_
    unfold rounds
    rw [run_loop_of_again (d := P.moved)]
    · exact Tracks.rounds_plain (P := P) P.alike hrounds hok
    · refine run_bind_of_ok (a := true) ?_
      rw [run_isAtWord_bind, hat, if_pos rfl, run_discard_next_bind, hnext, run_bind_of_ok hread]
      rfl
  · refine .inr (TooDeep.rounds ?_)
    rw [run_isAtWord_bind, hat, if_pos rfl, run_discard_next_bind, hnext]
    exact hdeep.bind

end Production

/-! ## The grammars side by side -/

namespace Grammar

open Production

variable {P : Insertion}

theorem sides_empty (g' : Grammar) : Sides P empty empty g' := by
  have hstop {α : Type} : Fails (do Production.fail .stalled (← peek).position : Production α) :=
    inferInstance
  have htracks {α : Type} {q p' : Production α} :
      Tracks P (do Production.fail .stalled (← peek).position) q p' := .of_fails
  exact {
    value := htracks
    expression := htracks
    binary := fun _ => htracks
    unary := htracks
    block := htracks
    block_arrives := @Arrives.of_fails _ _ _ _ _ hstop
    item := htracks
    type := ⟨rfl, htracks, progress_empty.type⟩
    ascription := @Meets.of_tracks _ _ _ _ _ htracks
    casts := @Meets.of_tracks _ _ _ _ _ htracks
    ascription_word := fun _ => ⟨rfl, htracks⟩
    casts_colon := fun _ => htracks
    casts_stays := fun _ _ _ => @Carries.of_fails _ _ _ _ _ _ _ hstop
    value_clears := fun _ => @Clears.of_fails _ _ _ _ _ _ hstop
    value_passes := fun _ _ _ _ _ _ => @Carries.of_fails _ _ _ _ _ _ _ hstop }

section Around

variable {g gq g' : Grammar} [hp : g.Progress] [hb : g.Brackets] [hg : Sides P g gq g']

/-- No cast is read in front of a question mark. -/
theorem asTypes_stays {t tq t' : Production Unit} {u : Stop} (hu : u.token.kind = .mark .question) :
    Carries P [u] [u] (asTypes t) (asTypes tq) (asTypes t') := by
  have hword : (P.without [u]).peek.isWord "as" = false := by
    unfold Token.isWord
    rw [show (P.without [u]).peek = u.token from rfl, hu]
    rfl
  have hdone (t : Production Unit) (ctx : Context) :
      asTypes t ctx (P.without [u]) = .ok ((), P.without [u]) := by
    unfold asTypes rounds
    refine run_loop_of_done ((run_bind_of_ok (a := false) (d := P.without [u]) ?_).trans rfl)
    rw [run_isAtWord_bind, hword]
    rfl
  exact .of_run fun ctx => ⟨(), hdone t ctx, hdone tq ctx⟩

omit hp hb hg in
theorem around_ascription : (P.slot.around g gq).ascription =
    if P.opening.token.isWord "as" then ascribedType gq.type else P.slot.refuse (ascribedType gq.type) := rfl

omit hp hb hg in
theorem around_casts : (P.slot.around g gq).casts =
    if P.opening.token.isWord "as" then P.slot.refuse (asTypes gq.type) else asTypes gq.type := rfl

theorem sides_around (hreads : ReadsInserted P g'.type) :
    Sides P g.around (P.slot.around g gq) g'.around where
  value := inferInstanceAs (Tracks P g.valueExpression gq.valueExpression g'.valueExpression)
  expression := inferInstanceAs (Tracks P g.conditional gq.conditional g'.conditional)
  binary least := inferInstanceAs
    (Tracks P (g.binaryExpression least) (gq.binaryExpression least) (g'.binaryExpression least))
  unary := inferInstanceAs (Tracks P g.unaryExpression gq.unaryExpression g'.unaryExpression)
  block := inferInstanceAs (Tracks P g.blockBody gq.blockBody g'.blockBody)
  block_arrives := inferInstanceAs (Arrives P g.blockBody gq.blockBody g'.blockBody)
  item := by
    have hitem : TracksBut P ["type"] g.blockItem gq.blockItem g'.blockItem := inferInstance
    exact hitem.tracks inferInstance
  type := inferInstanceAs (Types P (unionType g.type) (unionType gq.type) (unionType g'.type))
  ascription := by
    rw [around_ascription]
    by_cases hword : P.opening.token.isWord "as" = true
    · rw [if_pos hword]
      exact inferInstanceAs (Meets P (ascribedType g.type) (ascribedType gq.type) (ascribedType g'.type))
    · rw [if_neg hword]
      exact ascribedType_meets (P.opening_kind.resolve_right hword) hreads
  casts := by
    rw [around_casts]
    by_cases hword : P.opening.token.isWord "as" = true
    · rw [if_pos hword]
      exact asTypes_meets hword hreads
    · rw [if_neg hword]
      exact inferInstanceAs (Meets P (asTypes g.type) (asTypes gq.type) (asTypes g'.type))
  ascription_word hword := by
    rw [around_ascription, if_pos hword]
    have htypes : Types P g.type g.type g'.type := ⟨rfl, hg.type.tracks, hg.type.consumes⟩
    refine ⟨?_, inferInstanceAs (Tracks P (ascribedType g.type) (ascribedType g.type) (ascribedType g'.type))⟩
    exact congrArg ascribedType hg.type.eq
  casts_colon hcolon := by
    rw [around_casts, if_neg (Insertion.not_word hcolon)]
    exact inferInstanceAs (Tracks P (asTypes g.type) (asTypes gq.type) (asTypes g'.type))
  casts_stays hcolon u hu := by
    rw [around_casts, if_neg (Insertion.not_word hcolon)]
    exact asTypes_stays hu
  value_clears hcolon := valueExpression_clears hcolon
  value_passes hcolon s u hfront hs hu := valueExpression_passes hcolon hfront hs hu

end Around

theorem sides_avoiding {n m : Nat} (h : ∀ k, m ≤ k → ReadsInserted P (ofDepth k).type) :
    Sides P (ofDepth n) (avoiding P.slot n) (ofDepth (n + m)) := by
  induction n with
  | zero => exact sides_empty _
  | succ n ih =>
    rw [ofDepth_succ, Nat.add_right_comm, ofDepth_succ]
    exact sides_around (h _ (Nat.le_add_left m n))

end Grammar

end ScriptFront
