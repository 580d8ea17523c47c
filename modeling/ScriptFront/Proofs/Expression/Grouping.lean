import ScriptFront.Proofs.Expression.Flat
import ScriptFront.Proofs.Expression.Spelled

/-!
# How operators group

Every operator stands at one of four levels (`BinaryOperator.mem_ofLevel_iff`). In a grouped tree every
operator has operands that fit its level: the left one is no looser than the operator, and the right one is
tighter. The pieces of such a tree leave no choice (`Grouped.unique`): the operator at the top is the last
one of the loosest level.

`Joins` is what holds while operators are read one after the other: what has been read is grouped, and
the operator that comes next can take it as its left operand.
-/

namespace ScriptFront

namespace BinaryOperator

/-- The operators of a level. -/
def ofLevel : Level → List BinaryOperator
  | .logical => [logicalOr, nullish, logicalAnd]
  | .relational => [eq, notEq, strictEq, strictNotEq, less, lessEq, greater, greaterEq, bitAnd, bitXor, bitOr]
  | .additive => [add, sub, shiftLeft, shiftRight]
  | .multiplicative => [mul, div, mod, exp]
  | .unary => []

/-- Every operator is in the list of its level, and in no other. -/
theorem mem_ofLevel_iff {op : BinaryOperator} {l : Level} : op ∈ ofLevel l ↔ op.level = l := by
  cases op <;> cases l <;> decide

/-- Every operator is written with tokens that spell it. -/
theorem exists_writes (op : BinaryOperator) :
    ∃ ts, Writes ts op ∧ String.join (ts.map (·.text)) = op.text := by
  rcases op.marks_eq with rfl | ⟨m, hm, hop⟩
  · exact ⟨[⟨.mark .greater, ">", ⟨1, 1⟩⟩, ⟨.mark .greater, ">", ⟨1, 2⟩⟩], .shiftRight rfl rfl rfl, rfl⟩
  · refine ⟨[⟨.mark m, m.text, ⟨1, 1⟩⟩], .mark rfl hop, ?_⟩
    rw [← op.join_marks, hm]
    rfl

/-- The right operand of a binary operator starts one level above it. -/
theorem rank_tighter (op : BinaryOperator) : op.level.tighter.rank = op.level.rank + 1 := by
  cases op <;> rfl

end BinaryOperator

/-- An operand is one piece, and no operator. -/
theorem Token.exists_of_operand? {t : Token} {p : Piece} (h : t.operand? = some p) :
    ∃ position kind text, p = .operand position kind text := by
  unfold operand? at h
  split at h
  · exact ⟨_, _, _, (Option.some.inj h).symm⟩
  · exact ⟨_, _, _, (Option.some.inj h).symm⟩
  · obtain ⟨n, -, rfl⟩ := Option.map_eq_some_iff.1 h
    exact ⟨_, _, _, rfl⟩
  · cases h

namespace Expr

/-- Whether an expression is an operand, or an operation of a level from `least` on. -/
def BindsFrom (least : Nat) : Expr → Prop
  | binary op _ _ => least ≤ op.level.rank
  | constant _ _ _ | identifier _ => True
  | _ => False

instance (least : Nat) (e : Expr) : Decidable (e.BindsFrom least) := by
  unfold BindsFrom
  split <;> infer_instance

/-- Trees of operands and binary operators that group as the levels say, and to the left within a
level. -/
inductive Grouped : Expr → Prop
  | constant {position : Position} {kind : ConstantKind} {value : String} :
      Grouped (.constant position kind value)
  | identifier {name : Ident} : Grouped (.identifier name)
  | binary {op : BinaryOperator} {left right : Expr} (hleft : left.BindsFrom op.level.rank)
      (hright : right.BindsFrom (op.level.rank + 1)) (hgroupedLeft : Grouped left)
      (hgroupedRight : Grouped right) : Grouped (.binary op left right)

/-- What has a single operand in it is that operand. -/
theorem grouped_of_inorder {e : Expr} {position : Position} {kind : Option ConstantKind}
    {text : String} (h : e.inorder = [.operand position kind text]) :
    e.Grouped ∧ ∀ least, e.BindsFrom least := by
  cases e with
  | constant => exact ⟨.constant, fun _ => trivial⟩
  | identifier => exact ⟨.identifier, fun _ => trivial⟩
  | binary op left right =>
    have hmem : Piece.operator op ∈ (Expr.binary op left right).inorder := by simp [inorder]
    rw [h] at hmem
    simp at hmem
  | _ => simp [inorder] at h

namespace Grouped

variable {e e' : Expr} {op : BinaryOperator} {least : Nat}

/-- No operator in a grouped tree is looser than the tree. -/
theorem le_of_mem (h : e.Grouped) (hbinds : e.BindsFrom least) (hop : .operator op ∈ e.inorder) :
    least ≤ op.level.rank := by
  induction h generalizing least with
  | constant => simp [inorder] at hop
  | identifier => simp [inorder] at hop
  | @binary top left right hleft hright _ _ ihleft ihright =>
    have htop : least ≤ top.level.rank := hbinds
    simp only [inorder, List.mem_append, List.mem_cons, Piece.operator.injEq] at hop
    rcases hop with hop | rfl | hop
    · exact Nat.le_trans htop (ihleft hleft hop)
    · exact htop
    · have habove := ihright hright hop
      omega

/-- The top operator of a grouped tree stands no further to the right than that of another one with the
same pieces. Else it would be an operator of the other's right operand, which is tighter than the other
top, and that in turn one of its own left operand, which is no looser. -/
theorem length_left_le {op' : BinaryOperator} {left right left' right' : Expr}
    (hleft : left.BindsFrom op.level.rank) (hgroupedLeft : left.Grouped)
    (hright' : right'.BindsFrom (op'.level.rank + 1)) (hgroupedRight' : right'.Grouped)
    (heq : (Expr.binary op left right).inorder = (Expr.binary op' left' right').inorder) :
    left.inorder.length ≤ left'.inorder.length := by
  simp only [inorder] at heq
  rcases List.append_eq_append_iff.1 heq with ⟨between, hl, -⟩ | ⟨between, hl, hr⟩
  · simp [hl]
  · cases between with
    | nil => simp [hl]
    | cons piece between =>
      simp only [List.cons_append, List.cons.injEq] at hr
      obtain ⟨rfl, hr⟩ := hr
      have habove : op'.level.rank + 1 ≤ op.level.rank :=
        hgroupedRight'.le_of_mem hright' (by simp [hr])
      have hbelow : op.level.rank ≤ op'.level.rank :=
        hgroupedLeft.le_of_mem hleft (by simp [hl])
      omega

/-- **Grouping.** There is one grouped tree at most with given pieces. -/
theorem unique (h : e.Grouped) (h' : e'.Grouped) (heq : e.inorder = e'.inorder) : e = e' := by
  induction h generalizing e' with
  | constant =>
    cases h' with
    | constant => simpa [inorder] using heq
    | identifier => simp [inorder] at heq
    | binary => simp [inorder, List.cons_eq_append_iff] at heq
  | @identifier name =>
    cases h' with
    | constant => simp [inorder] at heq
    | @identifier name' =>
      cases name
      cases name'
      simpa [inorder] using heq
    | binary => simp [inorder, List.cons_eq_append_iff] at heq
  | @binary op left right hleft hright hgroupedLeft hgroupedRight ihleft ihright =>
    cases h' with
    | constant => simp [inorder, List.append_eq_cons_iff] at heq
    | identifier => simp [inorder, List.append_eq_cons_iff] at heq
    | @binary op' left' right' hleft' hright' hgroupedLeft' hgroupedRight' =>
      have hlength : left.inorder.length = left'.inorder.length :=
        Nat.le_antisymm (length_left_le hleft hgroupedLeft hright' hgroupedRight' heq)
          (length_left_le hleft' hgroupedLeft' hright hgroupedRight heq.symm)
      simp only [inorder] at heq
      obtain ⟨hl, hrest⟩ := List.append_inj heq hlength
      simp only [List.cons.injEq, Piece.operator.injEq] at hrest
      obtain ⟨rfl, hr⟩ := hrest
      rw [ihleft hgroupedLeft' hl, ihright hgroupedRight' hr]

end Grouped

/-- What holds between two operators: `left` is what has been read up to the cursor `c`, from the level
`least` on. -/
structure Joins (least : Level) (left : Expr) (c : Cursor) : Prop where
  grouped : left.Grouped
  binds : left.BindsFrom least.rank
  takes : ∀ op width, c.binaryOperator? = some (op, width) → left.BindsFrom op.level.rank

namespace Joins

variable {c d : Cursor} {least : Level} {op : BinaryOperator} {width : Nat} {left right : Expr}

theorem of_operand {t : Token} {p : Piece} (ht : t.operand? = some p) (h : left.inorder = [p]) :
    Joins least left c := by
  obtain ⟨position, kind, text, rfl⟩ := Token.exists_of_operand? ht
  obtain ⟨hgrouped, hbinds⟩ := grouped_of_inorder h
  exact ⟨hgrouped, hbinds _, fun op _ _ => hbinds op.level.rank⟩

/-- The next operator takes what stands before it. Its right operand has ended where no operator follows
that is tighter. -/
theorem binary (hleft : Joins least left c) (hop : c.binaryOperator? = some (op, width))
    (hlevel : least.rank ≤ op.level.rank) (hright : Joins op.level.tighter right d)
    (hstops : ∀ op' width, d.binaryOperator? = some (op', width) →
      op'.level.rank < op.level.tighter.rank) : Joins least (.binary op left right) d where
  grouped := by
    have htighter := hright.binds
    rw [op.rank_tighter] at htighter
    exact .binary (hleft.takes op width hop) htighter hleft.grouped hright.grouped
  binds := hlevel
  takes := by
    intro op' width' hop'
    have hlower := hstops op' width' hop'
    rw [op.rank_tighter] at hlower
    exact Nat.le_of_lt_succ hlower

end Joins

end Expr

end ScriptFront
