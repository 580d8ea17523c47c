import ScriptFront.Proofs.Brackets.Nested

/-!
# What open brackets are for

Reading a token sequence from the front, a bracket that is opened gets its role from the tokens before
it. The brace behind the parentheses of a `switch` opens its cases, and a square bracket behind what may
end an operand may open the key of an index: these two are free. All other brackets are held. A `Place` is
what has to be known of the tokens before to tell the roles of the brackets to come.

The tokens before do not tell keys from other square brackets. Behind a name, a literal, a closing bracket
or a `>` a square bracket is free in any case, also where it is the suffix of a type, as in `(A)[]`, or opens
an array, as in `a > [1]`.
-/

namespace ScriptFront

/-- What an open bracket is for. -/
inductive Role where
  | held
  /-- The subject of a switch, which is held as well. -/
  | subject
  /-- The cases of a switch, or a square bracket behind what may end an operand, as the key of an index is. -/
  | free
deriving DecidableEq, Repr

namespace Kind

/-- Whether the token opens no bracket. -/
class OpensNone (k : Kind) : Prop where
  opens : k.opens? = none

instance OpensNone.plain {k : Kind} [hk : k.IsPlain] : k.OpensNone := ⟨hk.opens⟩

instance : OpensNone (.mark .closeParen) := ⟨rfl⟩

instance : OpensNone (.mark .closeBracket) := ⟨rfl⟩

instance : OpensNone (.mark .closeBrace) := ⟨rfl⟩

/-- A token that leaves the open brackets as they are opens none. -/
theorem opens_of_openBehind {k : Kind} (h : k.openBehind [] = some []) : k.opens? = none := by
  unfold openBehind at h
  cases hopens : k.opens? with
  | none => rfl
  | some b =>
    rw [hopens] at h
    cases h

/-- Whether a member is named behind the token. -/
def isPoint (k : Kind) : Bool := k == .mark .dot || k == .mark .questionDot

/-- Whether an index may follow the token, wherever it stands. -/
def endsOperand : Kind → Bool
  | .identifier | .int | .hex | .float | .rune | .string => true
  | .keyword .trueWord | .keyword .falseWord | .keyword .nullWord | .keyword .undefinedWord
  | .keyword .defaultWord => true
  | .mark .closeParen | .mark .closeBracket | .mark .closeBrace => true
  | .mark .greater | .mark .questionDot => true
  | _ => false

end Kind

/-- A place between two tokens. -/
structure Place where
  /-- The roles of the open brackets, innermost first. -/
  roles : List Role
  /-- The token right before, or the end of the file in front of them all. -/
  behind : Kind
  /-- Whether an index may follow. -/
  operand : Bool
  /-- Whether the token right before closes the subject of a switch. -/
  subject : Bool
deriving DecidableEq, Repr

namespace Place

/-- The place in front of all tokens. -/
def start : Place := ⟨[], .endOfFile, false, false⟩

/-- The role of a bracket that is opened here. -/
def role (s : Place) : Bracket → Role
  | .round => if s.behind = .keyword .switchWord then .subject else .held
  | .square => if s.operand then .free else .held
  | .curly => if s.subject then .free else .held

/-- The place behind a token. -/
def read (s : Place) (k : Kind) : Place where
  roles :=
    match k.opens?, k.closes? with
    | some b, _ => s.role b :: s.roles
    | none, some _ => s.roles.tail
    | none, none => s.roles
  behind := k
  operand := k.endsOperand || k.isName && s.behind.isPoint
  subject := k == .mark .closeParen && s.roles.head? == some .subject

/-- The place behind a token sequence. -/
def readAll (s : Place) (ks : List Kind) : Place := ks.foldl read s

/-- The number of open brackets that are held. -/
def held (s : Place) : Nat := s.roles.countP (· != .free)

/-- Whether at most `n` brackets are held in front of, between and behind the tokens. -/
def Within (s : Place) (n : Nat) : List Kind → Prop
  | [] => s.held ≤ n
  | k :: ks => s.held ≤ n ∧ (s.read k).Within n ks

/-! ## Reading on -/

theorem readAll_append (s : Place) (ks ks' : List Kind) :
    s.readAll (ks ++ ks') = (s.readAll ks).readAll ks' :=
  List.foldl_append

section Read

variable {s : Place} {k : Kind}

theorem roles_read_of_opens {b : Bracket} (h : k.opens? = some b) :
    (s.read k).roles = s.role b :: s.roles := by
  unfold read
  rw [h]

theorem roles_read_of_closes {b : Bracket} (h : k.closes? = some b) :
    (s.read k).roles = s.roles.tail := by
  have hopens : k.opens? = none := by
    unfold Kind.closes? at h
    split at h <;> first | rfl | cases h
  unfold read
  rw [h, hopens]

theorem roles_read_of_plain [hk : k.IsPlain] : (s.read k).roles = s.roles := by
  unfold read
  rw [hk.opens, hk.closes]

theorem held_read_of_not_opens (s : Place) (h : k.opens? = none) : (s.read k).held ≤ s.held := by
  unfold held
  cases hcloses : k.closes? with
  | some b =>
    rw [roles_read_of_closes hcloses]
    exact (List.tail_sublist s.roles).countP_le
  | none =>
    have : k.IsPlain := ⟨h, hcloses⟩
    exact Nat.le_of_eq (congrArg _ roles_read_of_plain)

/-- A token opens one bracket at most. -/
theorem held_read_le (s : Place) (k : Kind) : (s.read k).held ≤ s.held + 1 := by
  cases hopens : k.opens? with
  | some b =>
    unfold held
    rw [roles_read_of_opens hopens, List.countP_cons]
    split <;> omega
  | none => exact Nat.le_succ_of_le (s.held_read_of_not_opens hopens)

theorem operand_read (s : Place) (h : k.endsOperand = true) : (s.read k).operand = true := by
  unfold read
  rw [h, Bool.true_or]

theorem operand_read_name (h : k.isName = true) (hs : s.behind.isPoint = true) :
    (s.read k).operand = true := by
  unfold read
  rw [h, hs, Bool.and_self, Bool.or_true]

/-- A square bracket behind an operand is not held. -/
theorem held_read_index (h : s.operand = true) : (s.read (.mark .openBracket)).held = s.held := by
  unfold held
  rw [roles_read_of_opens (b := .square) rfl]
  unfold role
  rw [if_pos h]
  rfl

/-- A brace behind the subject of a switch is not held. -/
theorem held_read_cases (h : s.subject = true) : (s.read (.mark .openBrace)).held = s.held := by
  unfold held
  rw [roles_read_of_opens (b := .curly) rfl]
  unfold role
  rw [if_pos h]
  rfl

end Read

/-! ## Closing what was opened -/

/-- The brackets below those that are told of keep their roles. -/
theorem roles_read {before after : List Bracket} {k : Kind} (h : k.openBehind before = some after)
    (s : Place) :
    (s.read k).roles.drop after.length = s.roles.drop before.length ∧
      (before.length ≤ s.roles.length → after.length ≤ (s.read k).roles.length) := by
  unfold Kind.openBehind at h
  cases hopens : k.opens? with
  | some b =>
    rw [hopens] at h
    cases h
    rw [roles_read_of_opens hopens]
    simp
  | none =>
    rw [hopens] at h
    cases hcloses : k.closes? with
    | none =>
      rw [hcloses] at h
      cases h
      have : k.IsPlain := ⟨hopens, hcloses⟩
      rw [roles_read_of_plain]
      exact ⟨rfl, id⟩
    | some b =>
      rw [hcloses] at h
      cases before with
      | nil => cases h
      | cons b' before =>
        obtain ⟨-, hafter⟩ := Option.ite_none_right_eq_some.1 h
        cases hafter
        rw [roles_read_of_closes hcloses]
        simp
        omega

theorem roles_readAll {before after : List Bracket} {ks : List Kind}
    (h : openBehind before ks = some after) (s : Place) :
    (s.readAll ks).roles.drop after.length = s.roles.drop before.length ∧
      (before.length ≤ s.roles.length → after.length ≤ (s.readAll ks).roles.length) := by
  induction ks generalizing before s with
  | nil =>
    cases h
    exact ⟨rfl, id⟩
  | cons k ks ih =>
    obtain ⟨between, hk, hks⟩ := Option.bind_eq_some_iff.1 h
    obtain ⟨hdrop, hlength⟩ := roles_read hk s
    obtain ⟨hdrop', hlength'⟩ := ih hks (s.read k)
    exact ⟨hdrop'.trans hdrop, fun hbefore => hlength' (hlength hbefore)⟩

/-- Behind tokens that close all but one of the brackets that they open, one more is held at most. -/
theorem held_readAll_le {before after : List Bracket} {ks : List Kind}
    (h : openBehind before ks = some after) (s : Place) :
    (s.readAll ks).held ≤ s.held + after.length := by
  have hdrop := (roles_readAll h s).1
  unfold held
  calc (s.readAll ks).roles.countP (· != .free)
      = ((s.readAll ks).roles.take after.length).countP (· != .free) +
          ((s.readAll ks).roles.drop after.length).countP (· != .free) := by
        rw [← List.countP_append, List.take_append_drop]
    _ ≤ after.length + s.roles.countP (· != .free) := by
        rw [hdrop]
        refine Nat.add_le_add ?_ (List.drop_sublist _ _).countP_le
        exact Nat.le_trans List.countP_le_length (List.length_take_le _ _)
    _ = s.roles.countP (· != .free) + after.length := Nat.add_comm _ _

/-- There is a role for each open bracket. -/
theorem length_le_roles {ks : List Kind} {after : List Bracket}
    (h : openBehind [] ks = some after) : after.length ≤ (start.readAll ks).roles.length :=
  (roles_readAll h start).2 (Nat.zero_le _)

/-! ## Bounds -/

theorem Within.front {s : Place} {n : Nat} {ks : List Kind} (h : s.Within n ks) : s.held ≤ n := by
  cases ks with
  | nil => exact h
  | cons k ks => exact h.1

theorem Within.back {s : Place} {n : Nat} {ks : List Kind} (h : s.Within n ks) :
    (s.readAll ks).held ≤ n := by
  induction ks generalizing s with
  | nil => exact h
  | cons k ks ih => exact ih h.2

theorem within_append {s : Place} {n : Nat} {ks ks' : List Kind} :
    s.Within n (ks ++ ks') ↔ s.Within n ks ∧ (s.readAll ks).Within n ks' := by
  induction ks generalizing s with
  | nil => exact ⟨fun h => ⟨h.front, h⟩, fun h => h.2⟩
  | cons k ks ih =>
    rw [List.cons_append]
    exact ⟨fun h => ⟨⟨h.1, (ih.1 h.2).1⟩, (ih.1 h.2).2⟩, fun h => ⟨h.1.1, ih.2 ⟨h.1.2, h.2⟩⟩⟩

namespace Within

variable {s : Place} {m n : Nat} {ks : List Kind}

theorem weaken (h : s.Within m ks) (hmn : m ≤ n) : s.Within n ks := by
  induction ks generalizing s with
  | nil => exact Nat.le_trans h hmn
  | cons k ks ih => exact ⟨Nat.le_trans h.1 hmn, ih h.2⟩

theorem singleton {k : Kind} (h : s.held ≤ n) (hk : (s.read k).held ≤ n) : s.Within n [k] := ⟨h, hk⟩

/-- Each token opens one bracket at most. -/
theorem of_length (s : Place) (ks : List Kind) : s.Within (s.held + ks.length) ks := by
  induction ks generalizing s with
  | nil => exact Nat.le_refl _
  | cons k ks ih =>
    have hread := s.held_read_le k
    rw [List.length_cons]
    exact ⟨Nat.le_add_right _ _, (ih (s.read k)).weaken (by omega)⟩

/-- The bound holds behind each part of the tokens that starts where they do. -/
theorem held_le (h : s.Within n ks) {front : List Kind} (hfront : front <+: ks) :
    (s.readAll front).held ≤ n := by
  induction ks generalizing s front with
  | nil =>
    rw [List.prefix_nil.1 hfront]
    exact h
  | cons k ks ih =>
    cases front with
    | nil => exact h.1
    | cons k' front =>
      obtain ⟨hk, hfront⟩ := List.cons_prefix_cons.1 hfront
      rw [hk]
      exact ih h.2 hfront

end Within

end Place

end ScriptFront
