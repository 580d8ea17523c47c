import Mathlib.Data.List.Forall2
import Mathlib.Data.Option.Basic
import ScriptFront.Production.SourceFile
import ScriptFront.Proofs.Erasure.Admitted
import ScriptFront.Proofs.Shift.Trees

/-!
# Tokens in different places

Two cursors are related if their tokens are the same up to related places, and if two `>` signs that stand
next to each other do so in both. Nothing else that the grammar sees of a cursor depends on columns.
-/

namespace ScriptFront

/-! ## Signs that stand next to each other -/

namespace Token

/-- Whether two `>` signs make a shift operator. -/
def joins (t u : Token) : Bool :=
  t.kind == .mark .greater && u.kind == .mark .greater && t.position.isAdjacentTo u.position

/-- For each token but the last whether it makes a shift operator with the next one. -/
def joints : List Token → List Bool
  | t :: u :: rest => t.joins u :: joints (u :: rest)
  | _ => []

theorem joints_tail {t : Token} {rest : List Token} : joints rest = (joints (t :: rest)).tail := by
  cases rest <;> rfl

end Token

theorem Position.isAdjacentTo_self (p : Position) : p.isAdjacentTo p = false := by
  simp [isAdjacentTo]

namespace Shift

variable {r : Shift}

/-! ## The relations -/

structure token (r : Shift) (t u : Token) : Prop where
  kind : t.kind = u.kind
  text : t.text = u.text
  place : r.moves t.position u.position

structure stop (r : Shift) (s s' : Stop) : Prop where
  leading : List.Forall₂ r.token s.leading s'.leading
  token : r.token s.token s'.token

structure cursor (r : Shift) (c c' : Cursor) : Prop where
  ahead : List.Forall₂ r.stop c.ahead c'.ahead
  last : r.stop c.last c'.last
  joints : Token.joints (c.stops.map (·.token)) = Token.joints (c'.stops.map (·.token))

theorem token.isWord {t u : Token} (h : r.token t u) (w : String) : t.isWord w = u.isWord w := by
  unfold Token.isWord
  rw [h.kind, h.text]

theorem token.describe {t u : Token} (h : r.token t u) : t.describe = u.describe := by
  unfold Token.describe
  rw [h.kind, h.text]

/-! ## Looking and reading -/

namespace cursor

variable {c c' : Cursor}

theorem peekNth (h : r.cursor c c') (n : Nat) : r.token (c.peekNth n) (c'.peekNth n) := by
  have hstop : ∀ {ss ss' : List Stop}, List.Forall₂ r.stop ss ss' → ∀ n : Nat,
      r.stop (ss[n]?.getD c.last) (ss'[n]?.getD c'.last) := by
    intro ss ss' hss
    induction hss with
    | nil => exact fun _ => by simpa using h.last
    | cons hs _ ih =>
      intro n
      cases n with
      | zero => simpa using hs
      | succ n => simpa using ih n
  exact (hstop h.ahead n).token

theorem peek (h : r.cursor c c') : r.token c.peek c'.peek := h.peekNth 0

theorem kind_peekNth (h : r.cursor c c') (n : Nat) : (c.peekNth n).kind = (c'.peekNth n).kind :=
  (h.peekNth n).kind

theorem isWord_peekNth (h : r.cursor c c') (n : Nat) (w : String) :
    (c.peekNth n).isWord w = (c'.peekNth n).isWord w :=
  (h.peekNth n).isWord w

theorem peekKind (h : r.cursor c c') : c.peekKind = c'.peekKind := h.peek.kind

theorem isAt (h : r.cursor c c') (k : Kind) : c.isAt k = c'.isAt k := by
  unfold Cursor.isAt
  rw [h.peekKind]

theorem next (h : r.cursor c c') : r.cursor c.next c'.next := by
  obtain ⟨ahead, last⟩ := c
  obtain ⟨ahead', last'⟩ := c'
  obtain ⟨hahead, hlast, hjoints⟩ := h
  cases hahead with
  | nil => exact ⟨.nil, hlast, hjoints⟩
  | @cons s s' rest rest' hs hrest =>
    unfold Cursor.next
    dsimp only
    rw [hs.token.kind]
    split
    · exact ⟨.cons hs hrest, hlast, hjoints⟩
    · refine ⟨hrest, hlast, ?_⟩
      unfold Cursor.stops at hjoints ⊢
      rw [List.cons_append, List.map_cons, List.cons_append, List.map_cons] at hjoints
      rw [Token.joints_tail (t := s.token), hjoints, ← Token.joints_tail]

theorem advance (h : r.cursor c c') (n : Nat) : r.cursor (c.advance n) (c'.advance n) := by
  induction n generalizing c c' with
  | zero => exact h
  | succ n ih => exact ih h.next

/-- Two signs make a shift operator here in both cursors or in none. -/
theorem joins (h : r.cursor c c') :
    (c.peekNth 0).joins (c.peekNth 1) = (c'.peekNth 0).joins (c'.peekNth 1) := by
  have hself : ∀ t : Token, t.joins t = false := by
    simp [Token.joins, Position.isAdjacentTo_self]
  obtain ⟨ahead, last⟩ := c
  obtain ⟨ahead', last'⟩ := c'
  obtain ⟨hahead, hlast, hjoints⟩ := h
  unfold Cursor.stops at hjoints
  cases hahead with
  | nil =>
    show last.token.joins last.token = last'.token.joins last'.token
    rw [hself, hself]
  | cons hs hrest =>
    cases hrest with
    | nil => exact (List.cons.inj hjoints).1
    | cons hs' hrest' => exact (List.cons.inj hjoints).1

theorem binaryOperator? (h : r.cursor c c') : c.binaryOperator? = c'.binaryOperator? := by
  have hjoins := h.joins
  have hkind := h.kind_peekNth 0
  have hkind' := h.kind_peekNth 1
  unfold Cursor.binaryOperator? Cursor.peek
  dsimp only
  rw [← hkind, ← hkind']
  generalize hk : (c.peekNth 0).kind = k
  split
  · unfold Token.joins at hjoins
    rw [← hkind, ← hkind', hk] at hjoins
    by_cases hgreater : (c.peekNth 1).kind = .mark .greater
    · rw [hgreater] at hjoins
      simp only [beq_self_eq_true, Bool.true_and] at hjoins
      simp only [hgreater, true_and, hjoins]
    · simp only [hgreater, false_and]
  · rfl
  · rfl

theorem attributes (h : r.cursor c c') : List.Forall₂ r.token c.attributes c'.attributes := by
  have hleading : List.Forall₂ r.token (c.ahead.head?.getD c.last).leading
      (c'.ahead.head?.getD c'.last).leading := by
    obtain ⟨ahead, last⟩ := c
    obtain ⟨ahead', last'⟩ := c'
    obtain ⟨hahead, hlast, -⟩ := h
    cases hahead with
    | nil => exact hlast.leading
    | cons hs _ => exact hs.leading
  unfold Cursor.attributes
  generalize (c.ahead.head?.getD c.last).leading = ts at hleading ⊢
  generalize (c'.ahead.head?.getD c'.last).leading = us at hleading ⊢
  induction hleading with
  | nil => exact .nil
  | cons ht _ ih =>
    rw [List.filter_cons, List.filter_cons, ht.kind]
    split
    · exact .cons ht ih
    · exact ih

end cursor

end Shift

/-! ## Looking ahead -/

namespace Lookahead

/-- A lookahead without the places of its tokens and without what stands before them. -/
def kinds (l : Lookahead) : List Kind × Kind × Nat :=
  (l.ahead.map (·.token.kind), l.last.token.kind, l.consumed)

/-- Whether two lookaheads take what they take in the same way. -/
def Agree (f : Lookahead → Option Lookahead) : Prop :=
  ∀ l l' : Lookahead, l.kinds = l'.kinds → (f l).map kinds = (f l').map kinds

variable {f g : Lookahead → Option Lookahead}

theorem kind_peek {l l' : Lookahead} (h : l.kinds = l'.kinds) : l.peek.kind = l'.peek.kind := by
  obtain ⟨ahead, last, consumed⟩ := l
  obtain ⟨ahead', last', consumed'⟩ := l'
  simp only [kinds, Prod.mk.injEq] at h
  obtain ⟨hahead, hlast, -⟩ := h
  cases ahead <;> cases ahead' <;> simp_all [peek]

theorem agree_eat (k : Kind) : Agree (·.eat k) := by
  intro l l' h
  unfold eat
  dsimp only
  rw [kind_peek h]
  split
  · simp only [kinds, Prod.mk.injEq] at h
    simp [kinds, List.map_tail, h]
  · rfl

theorem Agree.bind (hf : Agree f) (hg : Agree g) : Agree fun l => f l >>= g := by
  intro l l' h
  have hl := hf l l' h
  dsimp only
  cases hfl : f l <;> cases hfl' : f l' <;> rw [hfl, hfl'] at hl
  · cases hl
  · cases hl
  · exact hg _ _ (Option.some.inj hl)

theorem Agree.eatAll (k : Kind) (hf : Agree f) : Agree (·.eatAll k f) := by
  have hrounds : ∀ rounds rounds' : List Stop, rounds.length = rounds'.length →
      ∀ l l' : Lookahead, l.kinds = l'.kinds →
        (whileEat k f rounds l).map kinds = (whileEat k f rounds' l').map kinds := by
    intro rounds
    induction rounds with
    | nil =>
      intro rounds' hlength l l' h
      rw [List.length_eq_zero_iff.1 hlength.symm]
      exact congrArg some h
    | cons s rounds ih =>
      intro rounds' hlength l l' h
      obtain ⟨s', rounds', rfl⟩ : ∃ s' rest, rounds' = s' :: rest :=
        List.exists_cons_of_length_eq_add_one hlength.symm
      have heat := agree_eat k l l' h
      unfold whileEat
      dsimp only at heat
      cases hl : l.eat k <;> cases hl' : l'.eat k <;> rw [hl, hl'] at heat
      · exact congrArg some h
      · cases heat
      · cases heat
      · next m m' =>
        have hmore := hf m m' (Option.some.inj heat)
        dsimp only
        cases hm : f m <;> cases hm' : f m' <;> rw [hm, hm'] at hmore
        · cases hmore
        · cases hmore
        · exact ih rounds' (Nat.succ.inj hlength) _ _ (Option.some.inj hmore)
  intro l l' h
  refine hrounds _ _ ?_ l l' h
  simp only [kinds, Prod.mk.injEq] at h
  simpa using congrArg List.length h.1

theorem Agree.ite (k : Kind) (hf : Agree f) (hg : Agree g) :
    Agree fun l => if l.peek.kind = k then f l else g l := by
  intro l l' h
  dsimp only
  rw [kind_peek h]
  split
  · exact hf l l' h
  · exact hg l l' h

theorem Agree.typeReference (hf : Agree f) : Agree (typeReference f) := by
  have hbrackets : Agree (·.eatAll (.mark .openBracket) (·.eat (.mark .closeBracket))) :=
    Agree.eatAll _ (agree_eat _)
  exact (agree_eat _).bind ((Agree.eatAll _ (agree_eat _)).bind
    (Agree.ite _ (hf.bind hbrackets) hbrackets))

theorem agree_typeArguments (n : Nat) : Agree (typeArguments n) := by
  induction n with
  | zero => exact fun _ _ _ => rfl
  | succ n ih =>
    exact (agree_eat _).bind (ih.typeReference.bind ((Agree.eatAll _ ih.typeReference).bind (agree_eat _)))

end Lookahead

theorem Shift.cursor.kinds_ofCursor {r : Shift} {c c' : Cursor} (h : r.cursor c c') :
    (Lookahead.ofCursor c).kinds = (Lookahead.ofCursor c').kinds := by
  have hahead : List.Forall₂ (· = ·) (c.ahead.map (·.token.kind)) (c'.ahead.map (·.token.kind)) := by
    simpa [List.forall₂_map_left_iff, List.forall₂_map_right_iff] using
      h.ahead.imp fun _ _ hs => hs.token.kind
  simp [Lookahead.kinds, Lookahead.ofCursor, List.forall₂_eq_eq_eq ▸ hahead, h.last.token.kind]

end ScriptFront
