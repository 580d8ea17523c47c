import ScriptFront.Production.Statement
import ScriptFront.Proofs.Production.Runs

/-!
# Parameter lists as they are written

A parameter list is written as entries with commas between them, each a name with what may stand around
it. The list takes the rest of the arguments if its last entry is written with `...`, and also if `...`
stands behind its entries with no name (`Grammar.parameters_ok`). The second form should not be accepted:
what takes the rest has no name then.
-/

namespace ScriptFront

open Production

namespace Parameters

/-! ## Entries -/

structure Entry where
  /-- Written with `...` in front of the name. -/
  dots : Bool
  field : Parameter
deriving DecidableEq, Repr

/-- Whether an entry stands between two cursors: a name with `...` in front of it or not, a question mark
or none, and the type that `ascription` reads. -/
structure Entry.Stands (ascription : Production Unit) (ctx : Context) (c : Cursor) (e : Entry)
    (d : Cursor) : Prop where
  dots : e.dots = c.isAt (.mark .ellipsis)
  name : (c.past (.mark .ellipsis)).isAt .identifier = true
  field : e.field = ⟨(c.past (.mark .ellipsis)).peek.position, (c.past (.mark .ellipsis)).peek.text,
    (c.past (.mark .ellipsis)).next.isAt (.mark .question)⟩
  type : ascription ctx ((c.past (.mark .ellipsis)).next.past (.mark .question)) = .ok ((), d)

/-- Whether entries stand between two cursors, with `...` and no name behind them if they are `dangling`.
Only the last one may be written with `...`. -/
inductive Entries (ascription : Production Unit) (ctx : Context) :
    Cursor → List Entry → (dangling : Bool) → Cursor → Prop where
  | stop {c : Cursor} (hname : (c.past (.mark .ellipsis)).isAt .identifier = false) :
      Entries ascription ctx c [] (c.isAt (.mark .ellipsis)) (c.past (.mark .ellipsis))
  | last {c d : Cursor} {e : Entry} (h : e.Stands ascription ctx c d)
      (hcomma : d.isAt (.mark .comma) = false) : Entries ascription ctx c [e] false d
  | more {c d d' : Cursor} {e : Entry} {entries : List Entry} {dangling : Bool}
      (h : e.Stands ascription ctx c d) (hdots : e.dots = false) (hcomma : d.isAt (.mark .comma) = true)
      (hrest : Entries ascription ctx d.next entries dangling d') :
      Entries ascription ctx c (e :: entries) dangling d'

/-- Whether the last entry is written with `...`. -/
def lastDots (entries : List Entry) : Bool := entries.getLast?.any (·.dots)

theorem lastDots_cons {e : Entry} (he : e.dots = false) (entries : List Entry) :
    lastDots (e :: entries) = lastDots entries := by
  cases entries with
  | nil => exact he
  | cons e' entries => rfl

variable {ascription : Production Unit} {ctx : Context} {c d : Cursor} {entries : List Entry}
  {dangling : Bool}

/-- Where `...` stands behind the entries, none of them is written with it. -/
theorem Entries.lastDots_of_dangling (h : Entries ascription ctx c entries dangling d)
    (hdangling : dangling = true) : lastDots entries = false := by
  induction h with
  | stop => rfl
  | last => cases hdangling
  | more _ hdots _ _ ih => rw [lastDots_cons hdots, ih hdangling]

/-! ## Lists in a file -/

/-- How a parameter list is written in a file: a single name in front of an arrow, or entries in
parentheses. -/
inductive Written (file : Cursor) : Parameters → List Entry → (dangling : Bool) → Prop where
  | name {c : Cursor} (hc : file.Reaches 0 c) (hname : c.isAt .identifier = true)
      (harrow : c.next.isAt (.mark .arrow) = true) :
      Written file ⟨c.peek.position, [⟨c.peek.position, c.peek.text, false⟩], false⟩
        [⟨false, c.peek.position, c.peek.text, false⟩] false
  | list {c d : Cursor} {n : Nat} {ctx : Context} {entries : List Entry} {dangling : Bool}
      (hc : file.Reaches 0 c) (hopen : c.isAt (.mark .openParen) = true)
      (hentries : Entries (Grammar.ofDepth n).ascription ctx c.next entries dangling d)
      (hclose : d.isAt (.mark .closeParen) = true) :
      Written file ⟨c.peek.position, entries.map (·.field), dangling || lastDots entries⟩ entries dangling

/-- Whether a parameter list is written somewhere in a file. -/
def IsWritten (file : Cursor) (ps : Parameters) : Prop :=
  ∃ entries dangling, ps.Written file entries dangling

variable {file : Cursor} {ps : Parameters}

theorem Written.fields (h : ps.Written file entries dangling) : ps.fields = entries.map (·.field) := by
  cases h <;> rfl

theorem Written.variadic (h : ps.Written file entries dangling) :
    ps.variadic = (dangling || lastDots entries) := by
  cases h <;> rfl

theorem Written.lastDots_of_dangling (h : ps.Written file entries dangling) (hdangling : dangling = true) :
    lastDots entries = false := by
  cases h with
  | name => cases hdangling
  | list _ _ hentries => exact hentries.lastDots_of_dangling hdangling

end Parameters

/-! ## Reading them -/

namespace Grammar

open Parameters (Entry Entries lastDots)

variable {g : Grammar} {ctx : Context} {c d : Cursor}

/-- One round of `parameters`. -/
def parameterRound (g : Grammar) (fields : List Parameter) :
    Production (Turn (List Parameter) (List Parameter × Bool)) := do
  let variadic ← skips (.mark .ellipsis)
  if !(← isAt .identifier) then return .done (fields.reverse, variadic)
  let name ← identifier
  let optional ← skips (.mark .question)
  g.ascription
  let fields := ⟨name.position, name.text, optional⟩ :: fields
  if variadic then
    if ← isAt (.mark .comma) then fail .parameterAfterVariadic (← peekNth 1).position
    return .done (fields.reverse, true)
  if ← skips (.mark .comma) then return .again fields
  return .done (fields.reverse, false)

theorem parameters_eq :
    g.parameters = (do
      let paren ← accept (.mark .openParen)
      let (fields, variadic) ← loop g.parameterRound []
      discard (accept (.mark .closeParen))
      return ⟨paren.position, fields, variadic⟩) := rfl

/-- A round reads one entry, and goes on behind a comma. -/
theorem parameterRound_ok {fields : List Parameter}
    {t : Turn (List Parameter) (List Parameter × Bool)}
    (h : g.parameterRound fields ctx c = .ok (t, d)) :
    ((c.past (.mark .ellipsis)).isAt .identifier = false ∧
      t = .done (fields.reverse, c.isAt (.mark .ellipsis)) ∧ d = c.past (.mark .ellipsis)) ∨
    ∃ (e : Entry) (d' : Cursor), e.Stands g.ascription ctx c d' ∧
      ((d'.isAt (.mark .comma) = false ∧ t = .done ((e.field :: fields).reverse, e.dots) ∧ d = d') ∨
        (d'.isAt (.mark .comma) = true ∧ e.dots = false ∧ t = .again (e.field :: fields) ∧
          d = d'.next)) := by
  unfold parameterRound at h
  obtain ⟨_, _, hskips, h⟩ := bind_ok.1 h
  obtain ⟨rfl, rfl⟩ := skips_ok.1 hskips
  rw [run_isAt_bind] at h
  cases hname : (c.past (.mark .ellipsis)).isAt .identifier with
  | false =>
    rw [hname] at h
    obtain ⟨rfl, rfl⟩ := pure_ok.1 h
    exact .inl ⟨rfl, rfl, rfl⟩
  | true =>
    refine .inr ?_
    rw [hname] at h
    obtain ⟨_, _, hread, h⟩ := bind_ok.1 h
    obtain ⟨-, rfl, rfl⟩ := identifier_ok.1 hread
    obtain ⟨_, _, hread, h⟩ := bind_ok.1 h
    obtain ⟨rfl, rfl⟩ := skips_ok.1 hread
    obtain ⟨_, d', htype, h⟩ := bind_ok.1 h
    cases hdots : c.isAt (.mark .ellipsis) with
    | true =>
      rw [hdots] at h
      change (isAt (.mark .comma) >>= _) ctx d' = _ at h
      rw [run_isAt_bind] at h
      refine ⟨⟨true, _⟩, d', ⟨hdots.symm, hname, rfl, htype⟩, .inl ?_⟩
      cases hcomma : d'.isAt (.mark .comma) with
      | true =>
        rw [hcomma] at h
        cases h
      | false =>
        rw [hcomma] at h
        obtain ⟨rfl, rfl⟩ := pure_ok.1 h
        exact ⟨rfl, rfl, rfl⟩
    | false =>
      rw [hdots] at h
      obtain ⟨_, _, hread, h⟩ := bind_ok.1 h
      obtain ⟨rfl, rfl⟩ := skips_ok.1 hread
      refine ⟨⟨false, _⟩, d', ⟨hdots.symm, hname, rfl, htype⟩, ?_⟩
      cases hcomma : d'.isAt (.mark .comma) with
      | true =>
        rw [hcomma] at h
        obtain ⟨rfl, rfl⟩ := pure_ok.1 h
        exact .inr ⟨rfl, rfl, rfl, d'.past_of_isAt hcomma⟩
      | false =>
        rw [hcomma] at h
        obtain ⟨rfl, rfl⟩ := pure_ok.1 h
        exact .inl ⟨rfl, rfl, d'.past_of_not hcomma⟩

/-- The rounds read entries, and say that the rest is taken if they end with `...` in one way or the
other. -/
theorem parameterRounds_ok {rounds : List Stop} {fields fields' : List Parameter} {variadic : Bool}
    (h : loopFrom g.parameterRound rounds fields ctx c = .ok ((fields', variadic), d)) :
    ∃ entries dangling, Entries g.ascription ctx c entries dangling d ∧
      fields' = fields.reverse ++ entries.map (·.field) ∧ variadic = (dangling || lastDots entries) := by
  induction rounds generalizing fields c with
  | nil => cases h
  | cons stop rounds ih =>
    rcases loopFrom_ok.1 h with hdone | ⟨s, c', hagain, hrest⟩
    · rcases parameterRound_ok hdone with ⟨hname, hturn, rfl⟩ | ⟨e, d', he, hturn⟩
      · cases hturn
        exact ⟨[], _, .stop hname, by simp, by simp [lastDots]⟩
      · rcases hturn with ⟨hcomma, hturn, rfl⟩ | ⟨_, _, hturn, _⟩
        · cases hturn
          exact ⟨[e], false, .last he hcomma, by simp, by simp [lastDots]⟩
        · cases hturn
    · rcases parameterRound_ok hagain with ⟨_, hturn, _⟩ | ⟨e, d', he, hturn⟩
      · cases hturn
      · rcases hturn with ⟨_, hturn, _⟩ | ⟨hcomma, hdots, hturn, rfl⟩
        · cases hturn
        · cases hturn
          obtain ⟨entries, dangling, hentries, rfl, rfl⟩ := ih hrest
          exact ⟨e :: entries, dangling, .more he hdots hcomma hentries, by simp,
            by rw [Parameters.lastDots_cons hdots]⟩

/-- Parameters are read as entries in parentheses. -/
theorem parameters_ok {parameters : Parameters} (h : g.parameters ctx c = .ok (parameters, d)) :
    c.isAt (.mark .openParen) = true ∧ ∃ entries dangling d',
      Entries g.ascription ctx c.next entries dangling d' ∧ d'.isAt (.mark .closeParen) = true ∧
      d = d'.next ∧
      parameters = ⟨c.peek.position, entries.map (·.field), dangling || lastDots entries⟩ := by
  rw [parameters_eq] at h
  simp only [bind_ok, accept_ok, discard_ok, pure_ok] at h
  obtain ⟨_, _, ⟨hopen, rfl, rfl⟩, ⟨fields, variadic⟩, d', hloop, _, _, ⟨_, hclose, _, rfl⟩, rfl, rfl⟩ := h
  obtain ⟨entries, dangling, hentries, rfl, rfl⟩ := parameterRounds_ok hloop
  exact ⟨hopen, entries, dangling, d', hentries, hclose, rfl, rfl⟩

end Grammar

end ScriptFront
