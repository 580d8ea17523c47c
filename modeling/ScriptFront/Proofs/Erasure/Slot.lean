import ScriptFront.Proofs.Erasure.Arriving
import ScriptFront.Proofs.Erasure.Passing

/-!
# Refusing to read at a place

A slot is a place between two tokens where the type of a variable or a cast may be inserted. The grammar
that avoids a slot reads as the grammar does, but fails where it would read at the slot what the insertion
could be part of. A file that is accepted has such a slot where the avoiding grammar refuses it.

Behind the word `type` alone there is no slot for a cast at the start of a statement: with the cast, the
statement would be read as the declaration of a type. The same goes for `declare` and `namespace` in a
file.
-/

namespace ScriptFront

/-- A place in a token list. -/
structure Slot where
  /-- The number of tokens behind it. -/
  remaining : Nat
  /-- Whether it is a cast that may be inserted, and not the type of a variable. -/
  cast : Bool

namespace Slot

variable {α : Type} (s : Slot)

/-- Fails at the slot. -/
def refuse (p : Production α) : Production α := fun ctx c =>
  if c.remaining = s.remaining then Production.failHere .unexpected ctx c else p ctx c

/-- Whether one of some words stands right before a cast. -/
def follows (ws : List String) (c : Cursor) : Bool :=
  s.cast && c.remaining == s.remaining + 1 && ws.any c.peek.isWord

/-- Reads with `p` where one of some words stands right before a cast, and with `q` elsewhere. -/
def behind (ws : List String) (p q : Production α) : Production α := fun ctx c =>
  if s.follows ws c then p ctx c else q ctx c

end Slot

namespace Insertion

/-- Whether one of some words is all that stands between `front` and an inserted cast. -/
def Behind (P : Insertion) (ws : List String) (front : List Stop) : Prop :=
  P.opening.token.isWord "as" = true ∧ ∃ t, front = [t] ∧ ws.any t.token.isWord = true

/-- The slot of an insertion. -/
def slot (P : Insertion) : Slot := ⟨P.behind.remaining, P.opening.token.isWord "as"⟩

variable {P : Insertion} {front rest : List Stop} {ws : List String}

theorem remaining_without : (P.without front).remaining = front.length + P.behind.remaining :=
  List.length_append

theorem follows_without : P.slot.follows ws (P.without front) = true ↔ P.Behind ws front := by
  unfold Slot.follows Behind slot
  simp only [remaining_without, Bool.and_eq_true, beq_iff_eq]
  constructor
  · rintro ⟨⟨hword, hlength⟩, hany⟩
    obtain ⟨t, rfl⟩ := List.length_eq_one_iff.1 (by omega : front.length = 1)
    exact ⟨hword, t, rfl, hany⟩
  · rintro ⟨hword, t, rfl, hany⟩
    exact ⟨⟨hword, Nat.add_comm ..⟩, hany⟩

theorem follows_past (h : rest <:+ P.behind.ahead) : P.slot.follows ws (P.past rest) = false := by
  have hlength : (P.past rest).remaining ≤ P.behind.remaining := h.length_le
  have hne : ((P.past rest).remaining == P.behind.remaining + 1) = false :=
    beq_eq_false_iff_ne.2 (by omega)
  unfold Slot.follows slot
  rw [hne, Bool.and_false]
  rfl

end Insertion

namespace Production

variable {α β : Type} {P : Insertion} {p q p' : Production α} {ws : List String}

/-- The same as `Tracks`, except where one of some words stands right before a cast. -/
class TracksBut (P : Insertion) (ws : List String) (p q p' : Production α) : Prop where
  before : ∀ {ctx : Context} {front : List Stop} {a : α} {d : Cursor}, front <:+ P.before →
    front ≠ [] → ¬ P.Behind ws front → p ctx (P.without front) = .ok (a, d) →
    Pace P front a d (q ctx (P.without front)) (p' ctx (P.within front))
  after : ∀ {ctx : Context} {rest : List Stop} {a : α} {d : Cursor}, rest <:+ P.behind.ahead →
    p ctx (P.past rest) = .ok (a, d) →
    (∃ rest', rest' <:+ rest ∧ d = P.past rest') ∧ q ctx (P.past rest) = .ok (a, d)
  plain : ∀ {ctx : Context} {c c' : Cursor} {a : α} {d : Cursor}, c.Alike c' → p ctx c = .ok (a, d) →
    EndsLike (p' ctx c') a d

namespace TracksBut

instance of_tracks [hp : Tracks P p q p'] : TracksBut P ws p q p' where
  before := fun hfront hne _ hok => hp.before hfront hne hok
  after := hp.after
  plain := hp.plain

instance ite {c : Prop} [Decidable c] {r rq r' : Production α} [hp : TracksBut P ws p q p']
    [hr : TracksBut P ws r rq r'] :
    TracksBut P ws (if c then p else r) (if c then q else rq) (if c then p' else r') := by
  split
  · exact hp
  · exact hr

/-- Where a word stands right before a cast, the place is passed with all that is read. -/
theorem tracks [hp : TracksBut P ws p q p'] (hr : ConsumesInside p) :
    Tracks P p (P.slot.behind ws p q) p' where
  before := by
    intro ctx front a d hfront hne hok
    unfold Slot.behind
    by_cases hbehind : P.Behind ws front
    · rw [if_pos (Insertion.follows_without.2 hbehind)]
      obtain ⟨-, t, rfl, -⟩ := hbehind
      have hpasses : Passes P [t] p p p' := .of_reads hr.reads hfront hne (Nat.le_refl 1)
      exact hpasses.pace hok
    · rw [if_neg (fun h => hbehind (Insertion.follows_without.1 h))]
      exact hp.before hfront hne hbehind hok
  after := by
    intro ctx rest a d hrest hok
    unfold Slot.behind
    rw [Insertion.follows_past hrest]
    exact hp.after hrest hok
  plain := hp.plain

/-- Both sides tell alike whether a declaration starts with a word, but for a name that is the only
token before the place. -/
theorem startsDeclaration_sides {w : String} (hw : w ∈ ws) {front : List Stop} (hne : front ≠ [])
    (hbehind : ¬ P.Behind ws front) :
    Cursor.startsDeclaration w (P.without front) = Cursor.startsDeclaration w (P.within front) ∨
      Cursor.startsDeclaration w (P.without front) = true ∧ front.length ≤ 1 := by
  obtain ⟨t, front, rfl⟩ := List.exists_cons_of_ne_nil hne
  cases front with
  | cons u front => exact .inl rfl
  | nil =>
    cases hwithout : Cursor.startsDeclaration w (P.without [t]) with
    | true => exact .inr ⟨rfl, Nat.le_refl 1⟩
    | false =>
      refine .inl (Eq.symm (eq_false_of_ne_true fun hwithin => ?_))
      obtain ⟨ht, hidentifier⟩ :
          t.token.isWord w = true ∧ (P.opening.token.kind == .identifier) = true :=
        Bool.and_eq_true_iff.1 hwithin
      have hword : P.opening.token.isWord "as" = true := by
        refine P.opening_kind.resolve_left fun hcolon => ?_
        rw [hcolon] at hidentifier
        cases hidentifier
      exact absurd ⟨hword, t, rfl, List.any_eq_true.2 ⟨w, hw, ht⟩⟩ hbehind

/-- A declaration that starts with a word is told from the name after it. -/
theorem startsDeclaration_ite {w : String} (hw : w ∈ ws) {r rq r' s sq s' : Production α}
    [hr : Tracks P r rq r'] [hs : TracksBut P ws s sq s'] [hclears : Clears P 1 r rq r'] :
    TracksBut P ws (do if ← asks (Cursor.startsDeclaration w) then r else s)
      (do if ← asks (Cursor.startsDeclaration w) then rq else sq)
      (do if ← asks (Cursor.startsDeclaration w) then r' else s') where
  before := by
    intro ctx front a d hfront hne hbehind hok
    rcases startsDeclaration_sides hw hne hbehind with heq | ⟨htrue, hlength⟩
    · rw [run_asks_bind] at hok ⊢
      rw [run_asks_bind, ← heq]
      split at hok
      · next h =>
        rw [if_pos h, if_pos h]
        exact hr.before hfront hne hok
      · next h =>
        rw [if_neg h, if_neg h]
        exact hs.before hfront hne hbehind hok
    · rw [run_asks_bind, htrue] at hok ⊢
      exact (hclears.passes hfront hlength).pace hok
  after := by
    intro ctx rest a d hrest hok
    rw [run_asks_bind] at hok ⊢
    split at hok
    · next h =>
      rw [if_pos h]
      exact hr.after hrest hok
    · next h =>
      rw [if_neg h]
      exact hs.after hrest hok
  plain := by
    intro ctx c c' a d hc hok
    have heq : Cursor.startsDeclaration w c = Cursor.startsDeclaration w c' := by
      unfold Cursor.startsDeclaration
      rw [hc.peek, hc.peekNth]
    rw [run_asks_bind] at hok ⊢
    rw [← heq]
    split at hok
    · next h =>
      rw [if_pos h]
      exact hr.plain hc hok
    · next h =>
      rw [if_neg h]
      exact hs.plain hc hok

end TracksBut

end Production

end ScriptFront
