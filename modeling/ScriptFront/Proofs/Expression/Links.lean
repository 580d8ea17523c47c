import ScriptFront.Proofs.Expression.ReadBack
import ScriptFront.Proofs.Production.Runs
import ScriptFront.Proofs.Progress.Expressions

/-!
# The links of a postfix chain

What is read behind an expression is a sequence of links up to the first token that starts none, and the
links are put around the expression one after the other (`Grammar.chain_links`). The expression itself is
not looked into: its own marks, if it is a chain in parentheses, stay what they are.
-/

namespace ScriptFront

open Production

/-! ## Links -/

/-- A link of a postfix chain, apart from what stands in front of it. -/
inductive Link where
  | selector (member : Ident) (isOptional : Bool)
  | index (bracket : Position) (key : Expr) (isOptional : Bool)
  | call (paren : Position) (arguments : List Expr) (spread isOptional : Bool)

namespace Link

/-- The link with `target` in front of it. -/
def behind (outermost : Bool) (target : Expr) : Link → Expr
  | selector member isOptional => .selector target member isOptional outermost
  | index bracket key isOptional => .index target bracket key isOptional outermost
  | call paren arguments spread isOptional =>
    .call ⟨target, paren, arguments, spread, isOptional, outermost⟩

/-- An expression with links behind it. The last one is marked, and no other. -/
def chained (e : Expr) : List Link → Expr
  | [] => e
  | l :: links => chained (l.behind links.isEmpty e) links

theorem markOutermost_behind (l : Link) (target : Expr) :
    (l.behind false target).markOutermost = l.behind true target := by
  cases l <;> simp [behind, Expr.markOutermost]

end Link

/-! ## Where links stand -/

namespace Cursor

variable {c : Cursor} {m : Mark}

def startsLink (c : Cursor) : Bool :=
  [Kind.mark .dot, .mark .questionDot, .mark .openBracket, .mark .openParen].contains c.peekKind

/-- Behind the `?.` that may stand here. -/
def behindQuestion (c : Cursor) : Cursor := c.past (.mark .questionDot)

theorem behindQuestion_of_isAt (h : c.isAt (.mark m) = true) (hm : m ≠ .questionDot) :
    c.behindQuestion = c := by
  refine if_neg fun hquestion => hm ?_
  cases (beq_iff_eq.1 h).symm.trans (beq_iff_eq.1 hquestion)
  rfl

theorem startsLink_of_isAt (h : c.isAt (.mark m) = true)
    (hm : m ∈ [.dot, .questionDot, .openBracket, .openParen]) : c.startsLink = true := by
  unfold startsLink
  rw [beq_iff_eq.1 h]
  simpa using hm

theorem startsLink_of_behindQuestion (h : c.behindQuestion.isAt (.mark m) = true)
    (hm : m ∈ [.openBracket, .openParen]) : c.startsLink = true := by
  unfold behindQuestion past at h
  split at h
  · next hquestion => exact startsLink_of_isAt hquestion (by decide)
  · exact startsLink_of_isAt h (List.mem_cons_of_mem _ (List.mem_cons_of_mem _ hm))

/-- What starts a link and has no bracket is a point. -/
theorem isAt_point (h : c.startsLink = true) (hcall : ¬ c.behindQuestion.isAt (.mark .openParen) = true)
    (hindex : ¬ c.behindQuestion.isAt (.mark .openBracket) = true) :
    c.isAt (.mark .dot) = true ∨ c.isAt (.mark .questionDot) = true := by
  have hmem := List.contains_iff_mem.1 h
  simp only [List.mem_cons, List.not_mem_nil, or_false] at hmem
  rcases hmem with h | h | h | h
  · exact .inl (beq_iff_eq.2 h)
  · exact .inr (beq_iff_eq.2 h)
  · rw [behindQuestion_of_isAt (beq_iff_eq.2 h) (by decide)] at hindex
    exact absurd (beq_iff_eq.2 h) hindex
  · rw [behindQuestion_of_isAt (beq_iff_eq.2 h) (by decide)] at hcall
    exact absurd (beq_iff_eq.2 h) hcall

/-- A point with a name behind it has no bracket. -/
theorem not_isAt_of_name (hpoint : c.isAt (.mark .dot) = true ∨ c.isAt (.mark .questionDot) = true)
    (hname : c.next.peekKind.isName = true) (hm : m ≠ .dot) :
    ¬ c.behindQuestion.isAt (.mark m) = true := by
  intro h
  rcases hpoint with hdot | hquestion
  · rw [behindQuestion_of_isAt hdot (by decide)] at h
    cases (beq_iff_eq.1 hdot).symm.trans (beq_iff_eq.1 h)
    exact hm rfl
  · unfold behindQuestion at h
    rw [past_of_isAt hquestion] at h
    rw [beq_iff_eq.1 h] at hname
    cases hname

end Cursor

variable {g : Grammar} {ctx : Context} {c d : Cursor} {l : Link} {links : List Link} {e e' : Expr}

/-- Whether a link stands between two cursors. It is optional just when it is written with `?.`. -/
inductive Link.Stands (g : Grammar) (ctx : Context) (c : Cursor) : Link → Cursor → Prop where
  | selector {d : Cursor}
      (hpoint : c.isAt (.mark .dot) = true ∨ c.isAt (.mark .questionDot) = true)
      (hname : c.next.peekKind.isName = true)
      (harguments : genericArguments ctx c.next.next = .ok ((), d)) :
      Stands g ctx c (.selector c.next.peek.ident (c.isAt (.mark .questionDot))) d
  | index {key : Expr} {d : Cursor}
      (hopen : c.behindQuestion.isAt (.mark .openBracket) = true)
      (hkey : g.expression ctx c.behindQuestion.next = .ok (key, d))
      (hclose : d.isAt (.mark .closeBracket) = true) :
      Stands g ctx c (.index c.behindQuestion.peek.position key (c.isAt (.mark .questionDot))) d.next
  | call {arguments : List Expr} {spread : Bool} {d : Cursor}
      (hopen : c.behindQuestion.isAt (.mark .openParen) = true)
      (harguments : g.arguments ctx c.behindQuestion.next = .ok ((arguments, spread), d)) :
      Stands g ctx c
        (.call c.behindQuestion.peek.position arguments spread (c.isAt (.mark .questionDot))) d

theorem Link.Stands.startsLink (h : l.Stands g ctx c d) : c.startsLink = true := by
  cases h with
  | selector hpoint =>
    rcases hpoint with h | h
    · exact Cursor.startsLink_of_isAt h (by decide)
    · exact Cursor.startsLink_of_isAt h (by decide)
  | index hopen => exact Cursor.startsLink_of_behindQuestion hopen (by decide)
  | call hopen => exact Cursor.startsLink_of_behindQuestion hopen (by decide)

/-- Whether links stand between two cursors, one behind the other. -/
inductive Links (g : Grammar) (ctx : Context) : Cursor → List Link → Cursor → Prop where
  | nil (c : Cursor) : Links g ctx c [] c
  | cons {c d e : Cursor} {l : Link} {links : List Link} (h : l.Stands g ctx c d)
      (hrest : Links g ctx d links e) : Links g ctx c (l :: links) e

namespace Grammar

/-! ## One link -/

section Forms

variable {isOptional : Bool}

theorem selector_ok :
    selector e isOptional ctx c = .ok (e', d) ↔ c.peekKind.isName = true ∧
      genericArguments ctx c.next = .ok ((), d) ∧
        e' = (Link.selector c.peek.ident isOptional).behind false e := by
  simp only [selector, bind_ok, name_ok, pure_ok]
  constructor
  · rintro ⟨-, -, ⟨hname, rfl, rfl⟩, _, _, harguments, rfl, rfl⟩
    exact ⟨hname, harguments, rfl⟩
  · rintro ⟨hname, harguments, rfl⟩
    exact ⟨_, _, ⟨hname, rfl, rfl⟩, (), d, harguments, rfl, rfl⟩

theorem index_ok :
    g.index e isOptional ctx c = .ok (e', d) ↔ c.isAt (.mark .openBracket) = true ∧
      ∃ key d', g.expression ctx c.next = .ok (key, d') ∧ d'.isAt (.mark .closeBracket) = true ∧
        d = d'.next ∧ e' = (Link.index c.peek.position key isOptional).behind false e := by
  simp only [index, bind_ok, accept_ok, discard_ok, pure_ok]
  constructor
  · rintro ⟨-, -, ⟨hopen, rfl, rfl⟩, key, d', hkey, -, -, ⟨-, hclose, -, rfl⟩, rfl, rfl⟩
    exact ⟨hopen, key, d', hkey, hclose, rfl, rfl⟩
  · rintro ⟨hopen, key, d', hkey, hclose, rfl, rfl⟩
    exact ⟨_, _, ⟨hopen, rfl, rfl⟩, key, d', hkey, (), _, ⟨_, hclose, rfl, rfl⟩, rfl, rfl⟩

theorem call_ok :
    g.call e isOptional ctx c = .ok (e', d) ↔ c.isAt (.mark .openParen) = true ∧
      ∃ arguments spread, g.arguments ctx c.next = .ok ((arguments, spread), d) ∧
        e' = (Link.call c.peek.position arguments spread isOptional).behind false e := by
  simp only [call, bind_ok, accept_ok, pure_ok]
  constructor
  · rintro ⟨-, -, ⟨hopen, rfl, rfl⟩, ⟨arguments, spread⟩, d, harguments, rfl, rfl⟩
    exact ⟨hopen, arguments, spread, harguments, rfl⟩
  · rintro ⟨hopen, arguments, spread, harguments, rfl⟩
    exact ⟨_, _, ⟨hopen, rfl, rfl⟩, (arguments, spread), d, harguments, rfl, rfl⟩

end Forms

/-- A link by the tokens that it starts with: the bracket may stand behind a `?.`, and what stands
behind a point otherwise is a member. -/
theorem run_link :
    g.link e ctx c =
      if c.startsLink then
        if c.behindQuestion.isAt (.mark .openParen) then
          (some <$> g.call e (c.isAt (.mark .questionDot))) ctx c.behindQuestion
        else if c.behindQuestion.isAt (.mark .openBracket) then
          (some <$> g.index e (c.isAt (.mark .questionDot))) ctx c.behindQuestion
        else (some <$> selector e (c.isAt (.mark .questionDot))) ctx c.next
      else .ok (none, c) := by
  unfold link Cursor.startsLink Cursor.behindQuestion Cursor.past Cursor.isAt
  rw [run_peekKind_bind]
  generalize hkind : c.peekKind = k
  split
  · simp only [↓reduceIte, beq_iff_eq, Kind.mark.injEq, reduceCtorEq, hkind, List.contains_cons, BEq.rfl,
      Bool.true_or]
    rfl
  · simp only [run_discard_next_bind, run_peekKind_bind, ↓reduceIte, BEq.rfl, beq_iff_eq,
      List.contains_cons, Bool.true_or, Bool.or_true]
    generalize c.next.peekKind = k'
    split
    · simp only [↓reduceIte]
      rfl
    · simp only [↓reduceIte, Kind.mark.injEq, reduceCtorEq]
      rfl
    · next hcall hindex =>
      rw [if_neg hcall, if_neg hindex]
      rfl
  · simp only [↓reduceIte, beq_iff_eq, Kind.mark.injEq, reduceCtorEq, hkind, List.contains_cons, BEq.rfl,
      Bool.true_or, Bool.or_true]
    rfl
  · simp only [↓reduceIte, beq_iff_eq, Kind.mark.injEq, reduceCtorEq, hkind, List.contains_cons, BEq.rfl,
      Bool.true_or, Bool.or_true]
    rfl
  · next hdot hquestion hindex hcall =>
    rw [if_neg (by simpa using ⟨hdot, hquestion, hindex, hcall⟩)]
    rfl

/-- A link is read just where one stands, and is put around the expression in front of it. -/
theorem link_ok {r : Option Expr} :
    g.link e ctx c = .ok (r, d) ↔
      (c.startsLink = false ∧ r = none ∧ d = c) ∨
        ∃ l : Link, l.Stands g ctx c d ∧ r = some (l.behind false e) := by
  rw [run_link]
  constructor
  · intro h
    split at h
    · next hstarts =>
      refine .inr ?_
      split at h
      · next hopen =>
        obtain ⟨e', hcall, rfl⟩ := map_ok.1 h
        obtain ⟨-, arguments, spread, harguments, rfl⟩ := call_ok.1 hcall
        exact ⟨_, .call hopen harguments, rfl⟩
      · next hcall =>
        split at h
        · next hopen =>
          obtain ⟨e', hindex, rfl⟩ := map_ok.1 h
          obtain ⟨-, key, d, hkey, hclose, rfl, rfl⟩ := index_ok.1 hindex
          exact ⟨_, .index hopen hkey hclose, rfl⟩
        · next hindex =>
          obtain ⟨e', hselector, rfl⟩ := map_ok.1 h
          obtain ⟨hname, harguments, rfl⟩ := selector_ok.1 hselector
          exact ⟨_, .selector (Cursor.isAt_point hstarts hcall hindex) hname harguments, rfl⟩
    · next hstarts =>
      cases h
      exact .inl ⟨Bool.eq_false_iff.2 hstarts, rfl, rfl⟩
  · rintro (⟨hstarts, rfl, rfl⟩ | ⟨l, hl, rfl⟩)
    · rw [if_neg (Bool.eq_false_iff.1 hstarts)]
    · rw [if_pos hl.startsLink]
      cases hl with
      | selector hpoint hname harguments =>
        rw [if_neg (Cursor.not_isAt_of_name hpoint hname (by decide)),
          if_neg (Cursor.not_isAt_of_name hpoint hname (by decide))]
        exact map_ok.2 ⟨_, selector_ok.2 ⟨hname, harguments, rfl⟩, rfl⟩
      | index hopen hkey hclose =>
        have hcall : ¬ c.behindQuestion.isAt (.mark .openParen) = true := by
          intro h
          cases (beq_iff_eq.1 hopen).symm.trans (beq_iff_eq.1 h)
        rw [if_neg hcall, if_pos hopen]
        exact map_ok.2 ⟨_, index_ok.2 ⟨hopen, _, _, hkey, hclose, rfl, rfl⟩, rfl⟩
      | call hopen harguments =>
        rw [if_pos hopen]
        exact map_ok.2 ⟨_, call_ok.2 ⟨hopen, _, _, harguments, rfl⟩, rfl⟩

/-! ## Chains -/

/-- A round of a chain reads one link, or ends and marks the last link if there was one. -/
theorem chainRound_ok {s : Expr × Bool} {t : Turn (Expr × Bool) Expr} :
    g.chainRound s ctx c = .ok (t, d) ↔
      (c.startsLink = false ∧ t = .done (if s.2 then s.1.markOutermost else s.1) ∧ d = c) ∨
        ∃ l : Link, l.Stands g ctx c d ∧ t = .again (l.behind false s.1, true) := by
  unfold chainRound
  simp only [bind_ok, link_ok, pure_ok]
  constructor
  · rintro ⟨r, d', ⟨hstarts, rfl, rfl⟩ | ⟨l, hl, rfl⟩, rfl, rfl⟩
    · exact .inl ⟨hstarts, rfl, rfl⟩
    · exact .inr ⟨l, hl, rfl⟩
  · rintro (⟨hstarts, rfl, rfl⟩ | ⟨l, hl, rfl⟩)
    · exact ⟨none, d, .inl ⟨hstarts, rfl, rfl⟩, rfl, rfl⟩
    · exact ⟨_, d, .inr ⟨l, hl, rfl⟩, rfl, rfl⟩

/-- Behind a link, the rounds of a chain read the links that follow it, if there are rounds enough. -/
theorem rounds_ok {rounds : List Stop} {target : Expr} :
    loopFrom g.chainRound rounds (l.behind false target, true) ctx c = .ok (e, d) ↔
      ∃ links, links.length < rounds.length ∧ Links g ctx c links d ∧ d.startsLink = false ∧
        e = Link.chained target (l :: links) := by
  induction rounds generalizing l target c with
  | nil =>
    constructor
    · intro h
      cases h
    · rintro ⟨links, hlength, -⟩
      exact absurd hlength (Nat.not_lt_zero _)
  | cons stop rounds ih =>
    simp only [loopFrom_ok, chainRound_ok]
    constructor
    · rintro ((⟨hstarts, hdone, rfl⟩ | ⟨l', hl', hdone⟩) |
        ⟨s, c', ⟨hstarts, hagain, rfl⟩ | ⟨l', hl', hagain⟩, hrest⟩)
      · cases hdone
        exact ⟨[], Nat.succ_pos _, .nil _, hstarts, l.markOutermost_behind target⟩
      · cases hdone
      · cases hagain
      · cases hagain
        obtain ⟨links, hlength, hlinks, hstarts, rfl⟩ := ih.1 hrest
        exact ⟨l' :: links, Nat.succ_lt_succ hlength, .cons hl' hlinks, hstarts, rfl⟩
    · rintro ⟨links, hlength, hlinks, hstarts, rfl⟩
      cases hlinks with
      | nil =>
        exact .inl (.inl ⟨hstarts, congrArg Turn.done (l.markOutermost_behind target).symm, rfl⟩)
      | cons hl' hlinks =>
        have hlength := Nat.lt_of_succ_lt_succ hlength
        exact .inr ⟨_, _, .inr ⟨_, hl', rfl⟩, ih.2 ⟨_, hlength, hlinks, hstarts, rfl⟩⟩

/-- What a chain with rounds enough answers: the links up to the first token that starts none. -/
theorem chain_ok :
    g.chain e ctx c = .ok (e', d) ↔
      ∃ links, links.length ≤ c.remaining ∧ Links g ctx c links d ∧ d.startsLink = false ∧
        e' = Link.chained e links := by
  rw [chain_eq]
  show loopFrom g.chainRound (c.last :: c.ahead) (e, false) ctx c = _ ↔ _
  simp only [loopFrom_ok, chainRound_ok]
  constructor
  · rintro ((⟨hstarts, hdone, rfl⟩ | ⟨l, hl, hdone⟩) |
      ⟨s, c', ⟨hstarts, hagain, rfl⟩ | ⟨l, hl, hagain⟩, hrest⟩)
    · cases hdone
      exact ⟨[], Nat.zero_le _, .nil _, hstarts, rfl⟩
    · cases hdone
    · cases hagain
    · cases hagain
      obtain ⟨links, hlength, hlinks, hstarts, rfl⟩ := rounds_ok.1 hrest
      exact ⟨l :: links, hlength, .cons hl hlinks, hstarts, rfl⟩
  · rintro ⟨links, hlength, hlinks, hstarts, rfl⟩
    cases hlinks with
    | nil => exact .inl (.inl ⟨hstarts, rfl, rfl⟩)
    | cons hl hlinks =>
      exact .inr ⟨_, _, .inr ⟨_, hl, rfl⟩, rounds_ok.2 ⟨_, hlength, hlinks, hstarts, rfl⟩⟩

/-- There is a token at least to a link. -/
theorem links_reach [g.Progress] (h : Links g ctx c links d) (hc : c.Closed) :
    c.Reaches links.length d := by
  induction h with
  | nil c => exact .refl c
  | cons hl _ ih =>
    have hrun := (link_ok (e := .undefinedAt .start)).2 (.inr ⟨_, hl, rfl⟩)
    have hfirst := (link_pays _).reaches hc hrun
    exact (hfirst.trans (ih (hfirst.closed hc))).weaken (by simp [Nat.add_comm])

/-- Behind an expression a chain reads links, as many as there are, and answers the expression with the
links behind it. The other way round, every sequence of links that no further link follows is read. -/
theorem chain_links (g : Grammar) (e : Expr) (ctx : Context) (c : Cursor) :
    (∀ e' d, g.chain e ctx c = .ok (e', d) →
      ∃ links, Links g ctx c links d ∧ d.startsLink = false ∧ e' = Link.chained e links) ∧
    (g.Progress → c.Closed → ∀ links d, Links g ctx c links d → d.startsLink = false →
      g.chain e ctx c = .ok (Link.chained e links, d)) := by
  constructor
  · intro e' d h
    obtain ⟨links, -, hlinks⟩ := chain_ok.1 h
    exact ⟨links, hlinks⟩
  · intro hg hc links d hlinks hstarts
    have hlength := (links_reach hlinks hc).remaining_le
    exact chain_ok.2 ⟨links, by omega, hlinks, hstarts, rfl⟩

/-- The chain `(a.b)?.c.d`: the link in the parentheses keeps its mark, and of the two behind them the
last one gets one. -/
theorem chain_links_parentheses :
    let place (column : UInt32) : Position := ⟨1, column⟩
    let inner := Expr.selector (.identifier ⟨place 2, "a"⟩) ⟨place 4, "b"⟩ false true
    let c := Cursor.ofTokens [⟨.mark .questionDot, "?.", place 6⟩, ⟨.identifier, "c", place 8⟩,
      ⟨.mark .dot, ".", place 9⟩, ⟨.identifier, "d", place 10⟩]
    let tree := Expr.selector (.selector inner ⟨place 8, "c"⟩ true false) ⟨place 10, "d"⟩ false true
    ∃ d, (ofDepth 1).chain inner ⟨false, 0⟩ c = .ok (tree, d) ∧
      ∃ links, Links (ofDepth 1) ⟨false, 0⟩ c links d ∧ d.startsLink = false ∧
        tree = Link.chained inner links := by
  intro place inner c tree
  have hfirst : (Link.selector ⟨place 8, "c"⟩ true).Stands (ofDepth 1) ⟨false, 0⟩ c (c.advance 2) :=
    .selector (.inr rfl) rfl rfl
  have hsecond : (Link.selector ⟨place 10, "d"⟩ false).Stands (ofDepth 1) ⟨false, 0⟩ (c.advance 2)
      (c.advance 4) := .selector (.inl rfl) rfl rfl
  have hrun := (chain_links (ofDepth 1) inner ⟨false, 0⟩ c).2 inferInstance rfl _ _
    (.cons hfirst (.cons hsecond (.nil _))) rfl
  exact ⟨c.advance 4, hrun, (chain_links _ _ _ _).1 _ _ hrun⟩

end Grammar

end ScriptFront
