import ScriptFront.Attribute.Run

/-!
# Runs of attributes

Of the attributes that stand before a construct, those on consecutive lines that end right above it are
its run, and `before` are the others. An `AttributeRun` that all of them have been pushed to gives out just
that run and leaves the others to the file.
-/

namespace ScriptFront

namespace Token

/-- The place where tokens that lead to `p` start. -/
def startOf (p : Position) : List Token → Position
  | [] => p
  | t :: _ => t.position

/-- Whether the tokens stand on consecutive lines and the last one on the line above `p`. -/
def LeadTo (p : Position) : List Token → Prop
  | [] => True
  | t :: ts => t.position.isLineAbove (startOf p ts) = true ∧ LeadTo p ts

theorem leadTo_concat {p : Position} {ts : List Token} {t : Token} (hts : LeadTo t.position ts)
    (ht : t.position.isLineAbove p = true) : LeadTo p (ts ++ [t]) := by
  induction ts with
  | nil => exact ⟨ht, trivial⟩
  | cons u ts ih =>
    refine ⟨?_, ih hts.2⟩
    cases ts with
    | nil => exact hts.1
    | cons _ _ => exact hts.1

theorem line_of_leadTo {p : Position} {t : Token} {before ts : List Token}
    (h : LeadTo p (before ++ [t] ++ ts)) : t.position.isLineAbove (startOf p ts) = true := by
  induction before with
  | nil => exact h.1
  | cons _ before ih => exact ih h.2

end Token

/-- Whether `run` are those of the attributes `before ++ run` that stand on consecutive lines and end right
above `p`. -/
structure RunAbove (p : Position) (before run : List Token) : Prop where
  leads : Token.LeadTo p run
  /-- The attribute before them is not on the line above. -/
  maximal : ∀ t, before.getLast? = some t → t.position.isLineAbove (Token.startOf p run) = false

/-- Which attributes are right above a place is settled by the attributes. -/
theorem RunAbove.unique {p : Position} {before run before' run' : List Token}
    (h : RunAbove p before run) (h' : RunAbove p before' run')
    (hsame : before ++ run = before' ++ run') : before = before' ∧ run = run' := by
  -- If one of the runs were longer, its tokens would go on above the other one.
  have hshorter : ∀ {before run before' : List Token} (more : List Token) {run' : List Token},
      RunAbove p before run → RunAbove p before' run' → before = before' ++ more → run' = more ++ run →
      more = [] := by
    intro before run before' more run' h h' hbefore hrun
    obtain rfl | ⟨init, t, rfl⟩ := List.eq_nil_or_concat more
    · rfl
    have hlast : before.getLast? = some t := by
      rw [hbefore, List.concat_eq_append, ← List.append_assoc, List.getLast?_concat]
    have hlead := h'.leads
    rw [hrun, List.concat_eq_append] at hlead
    have hline := Token.line_of_leadTo hlead
    rw [h.maximal t hlast] at hline
    cases hline
  obtain ⟨more, hbefore, hrun⟩ | ⟨more, hbefore, hrun⟩ := List.append_eq_append_iff.1 hsame
  · cases hshorter more h' h hbefore hrun
    exact ⟨by simpa using hbefore.symm, by simpa using hrun⟩
  · cases hshorter more h h' hbefore hrun
    exact ⟨by simpa using hbefore, by simpa using hrun.symm⟩

/-- Whether the last of the attributes is on the line above `p`. -/
def EndAbove (p : Position) (attributes : List Token) : Prop :=
  ∃ t, attributes.getLast? = some t ∧ t.position.isLineAbove p = true

namespace AttributeRun

variable {r : AttributeRun} {ofFile : List String} {pushed before : List Token} {p : Position}

theorem isAbove_iff : r.isAbove p = true ↔ ∃ t, r.run.head? = some t ∧ t.position.isLineAbove p = true := by
  unfold isAbove
  cases r.run with
  | nil => simp
  | cons t run => simp

/-- Whether `r` is what has become of the attributes `pushed` with `before` left to the file, behind what
the file had before. -/
structure Holds (ofFile : List String) (pushed before : List Token) (r : AttributeRun) : Prop where
  split : pushed = before ++ r.run.reverse
  ofFile : r.ofFile = ofFile ++ before.map Token.text
  leads : ∀ {p}, r.isAbove p = true → Token.LeadTo p r.run.reverse
  maximal : ∀ {t u}, before.getLast? = some t → r.run.getLast? = some u →
    t.position.isLineAbove u.position = false
  last : pushed.getLast? = r.run.head?

namespace Holds

theorem empty (hr : r.run = []) : Holds r.ofFile [] [] r where
  split := by simp [hr]
  ofFile := by simp
  leads _ := by
    rw [hr]
    trivial
  maximal h := nomatch h
  last := by simp [hr]

/-- Another attribute goes on with the run, or starts a new one. -/
theorem push (h : Holds ofFile pushed before r) (t : Token) :
    ∃ before, Holds ofFile (pushed ++ [t]) before (r.push t) := by
  unfold AttributeRun.push
  by_cases habove : r.isAbove t.position = true
  · rw [if_pos habove]
    refine ⟨before, ?_, h.ofFile, fun {p} hp => ?_, fun {v u} hv hu => ?_, ?_⟩
    · rw [h.split, List.append_assoc, List.reverse_cons]
    · obtain ⟨_, hhead, hline⟩ := isAbove_iff.1 hp
      cases hhead
      rw [List.reverse_cons]
      exact Token.leadTo_concat (h.leads habove) hline
    · obtain ⟨w, hw, -⟩ := isAbove_iff.1 habove
      obtain ⟨rest, hrest⟩ := List.head?_eq_some_iff.1 hw
      refine h.maximal hv ?_
      replace hu : (t :: r.run).getLast? = some u := hu
      rw [hrest, List.getLast?_cons_cons] at hu
      rw [hrest, hu]
    · simp
  · rw [if_neg habove]
    refine ⟨pushed, ?_, ?_, fun {p} hp => ?_, fun {v u} hv hu => ?_, ?_⟩
    · rfl
    · show r.ofFile ++ r.texts = _
      rw [h.ofFile, h.split, List.append_assoc, List.map_append]
      rfl
    · obtain ⟨_, hhead, hline⟩ := isAbove_iff.1 hp
      cases hhead
      exact ⟨hline, trivial⟩
    · cases hu
      rw [h.last] at hv
      rw [← Bool.not_eq_true]
      exact fun hline => habove (isAbove_iff.2 ⟨v, hv, hline⟩)
    · simp

theorem foldl_push (h : Holds ofFile pushed before r) (attributes : List Token) :
    ∃ before, Holds ofFile (pushed ++ attributes) before (attributes.foldl AttributeRun.push r) := by
  induction attributes generalizing pushed before r with
  | nil =>
    rw [List.append_nil]
    exact ⟨before, h⟩
  | cons t attributes ih =>
    obtain ⟨before, h⟩ := h.push t
    rw [List.append_cons]
    exact ih h

/-- What is in the run and in the file together is all that has been pushed. -/
theorem flush (h : Holds ofFile pushed before r) : r.flush = ⟨[], ofFile ++ pushed.map Token.text⟩ := by
  unfold AttributeRun.flush texts
  rw [h.ofFile, h.split, List.map_append, List.append_assoc]

theorem isAbove_iff_endAbove (h : Holds ofFile pushed before r) :
    r.isAbove p = true ↔ EndAbove p pushed := by
  unfold EndAbove
  rw [isAbove_iff, h.last]

end Holds

section Constructs

variable (attributes : List Token) (p : Position)

/-- A function or a class gets the run above it, and the file the others. -/
theorem exists_takeFor_foldl (hr : r.run = []) :
    ∃ before run, attributes = before ++ run ∧ RunAbove p before run ∧
      (attributes.foldl push r).takeFor p =
        (run.map Token.text, ⟨[], r.ofFile ++ before.map Token.text⟩) := by
  obtain ⟨before, h⟩ := (Holds.empty hr).foldl_push attributes
  rw [List.nil_append] at h
  unfold takeFor
  by_cases habove : (attributes.foldl push r).isAbove p = true
  · rw [if_pos habove]
    refine ⟨before, _, h.split, ⟨h.leads habove, fun t ht => ?_⟩, ?_⟩
    · obtain ⟨u, hu, -⟩ := isAbove_iff.1 habove
      obtain ⟨rest, hrest⟩ := List.head?_eq_some_iff.1 hu
      obtain ⟨v, run, hrun⟩ := List.exists_cons_of_ne_nil
        (List.reverse_ne_nil_iff.2 (hrest ▸ List.cons_ne_nil u rest))
      rw [hrun]
      refine h.maximal ht ?_
      rw [← List.head?_reverse, hrun]
      rfl
    · unfold texts
      rw [h.ofFile]
  · rw [if_neg habove]
    refine ⟨attributes, [], by simp, ⟨trivial, fun t ht => ?_⟩, ?_⟩
    · rw [← Bool.not_eq_true]
      exact fun hline => habove (h.isAbove_iff_endAbove.2 ⟨t, ht, hline⟩)
    · rw [h.flush]
      rfl

theorem takeFor_foldl {before run : List Token} (hr : r.run = []) (h : RunAbove p before run) :
    ((before ++ run).foldl push r).takeFor p =
      (run.map Token.text, ⟨[], r.ofFile ++ before.map Token.text⟩) := by
  obtain ⟨before', run', hsame, h', htaken⟩ := exists_takeFor_foldl (before ++ run) p hr
  obtain ⟨rfl, rfl⟩ := h.unique h' hsame
  exact htaken

/-- Right above another construct attributes are an error, unless nothing comes before them. -/
theorem settle_foldl (started : Bool) (hr : r.run = []) :
    (started = true ∧ EndAbove p attributes →
      ∃ q, (attributes.foldl push r).settle p started = .error ⟨.invalidAttribute, q⟩) ∧
    (¬(started = true ∧ EndAbove p attributes) →
      (attributes.foldl push r).settle p started = .ok ⟨[], r.ofFile ++ attributes.map Token.text⟩) := by
  obtain ⟨before, h⟩ := (Holds.empty hr).foldl_push attributes
  rw [List.nil_append] at h
  rw [← h.isAbove_iff_endAbove]
  unfold settle
  cases hfirst : (attributes.foldl push r).run.getLast? with
  | none =>
    refine ⟨fun habove => ?_, fun _ => congrArg Except.ok h.flush⟩
    obtain ⟨t, ht, -⟩ := isAbove_iff.1 habove.2
    rw [List.getLast?_eq_none_iff.1 hfirst] at ht
    cases ht
  | some first =>
    dsimp only
    rw [← Bool.and_eq_true]
    refine ⟨fun habove => ⟨first.position, if_pos habove⟩, fun hfree => ?_⟩
    rw [if_neg hfree, h.flush]

theorem flush_foldl (hr : r.run = []) :
    (attributes.foldl push r).flush = ⟨[], r.ofFile ++ attributes.map Token.text⟩ := by
  obtain ⟨before, h⟩ := (Holds.empty hr).foldl_push attributes
  exact h.flush

end Constructs

end AttributeRun

end ScriptFront
