import ScriptFront.Proofs.Brackets.Expressions
import ScriptFront.Proofs.Depth.Types
import ScriptFront.Proofs.Production.ExpressionsRead

/-!
# How many brackets expressions hold open

A value is nested, so it rises by nothing. Operands and what joins them rise by two at most, no matter how
deep the keys of indexes are nested in them: each link of a postfix chain ends with a token behind which
an index may follow, so the brackets of indexes are not held.
-/

set_option synthInstance.maxSize 4000

namespace ScriptFront

namespace Production

variable {α β : Type} {p q : Production α} {f : α → Production β}

/-! ## Lands of operands -/

/-- Where an index may follow. -/
def BehindOperand : Cursor → Place → Prop := fun _ s => s.operand = true

/-- Where a member is named. -/
def BehindPoint : Cursor → Place → Prop := fun _ s => s.behind.isPoint = true

/-- Whether an index may follow `p`. -/
class EndsOperand (p : Production α) : Prop where
  ends : Lands Everywhere p fun _ => BehindOperand

/-- Whether an index may follow `p` if it may follow what stands in front of it. -/
class KeepsOperand (p : Production α) : Prop where
  ends : Lands BehindOperand p fun _ => BehindOperand

namespace KeepsOperand

instance looks [Looks p] : KeepsOperand p := ⟨.looks fun _ _ h => h⟩

instance bind [hp : KeepsOperand p] [hf : ∀ a, KeepsOperand (f a)] : KeepsOperand (p >>= f) :=
  ⟨hp.ends.bind fun a => (hf a).ends⟩

/-- Type arguments end with their closing mark. -/
instance genericArguments : KeepsOperand genericArguments := by
  refine ⟨⟨fun {_ c s _ _} hc hs hok => ?_⟩⟩
  obtain rfl | ⟨l, hfound, rfl⟩ := genericArguments_ok hc hok
  · exact ⟨s.held, s, .refl _ (Nat.le_refl _), hs⟩
  · obtain ⟨l', hstep, hgreater⟩ := Lookahead.typeArguments_strides_greater
      (Lookahead.typeArguments_strides _) (l := .ofCursor c) hc hfound
    obtain ⟨s', hpass, hs'⟩ := hstep s
    have hread := s'.held_read_of_not_opens (k := .mark .greater) rfl
    exact ⟨_, _, hpass.trans (Lookahead.eat_passes (hpass.closed hc) Kind.noConfusion hgreater
      (by omega) (by omega)), s'.operand_read rfl⟩

end KeepsOperand

namespace EndsOperand

theorem accept {kind : Kind} (h : kind.endsOperand = true) :
    EndsOperand (Production.accept kind) := by
  refine ⟨.accept (fun hend => ?_) fun _ s _ => s.operand_read h⟩
  rw [hend] at h
  cases h

instance closeParen : EndsOperand (Production.accept (.mark .closeParen)) := accept rfl

instance closeBracket : EndsOperand (Production.accept (.mark .closeBracket)) := accept rfl

instance closeBrace : EndsOperand (Production.accept (.mark .closeBrace)) := accept rfl

instance bind_left [hp : EndsOperand p] [hf : ∀ a, KeepsOperand (f a)] : EndsOperand (p >>= f) :=
  ⟨hp.ends.bind fun a => (hf a).ends⟩

instance bind_right [Advances p] [hf : ∀ a, EndsOperand (f a)] : EndsOperand (p >>= f) :=
  ⟨Lands.anyhow.bind fun a => (hf a).ends.under fun _ _ _ => trivial⟩

instance discard [EndsOperand p] : EndsOperand (Functor.discard p) :=
  bind_left (f := fun _ => Pure.pure PUnit.unit)

instance nested [hp : EndsOperand p] : EndsOperand (Production.nested p) := by
  refine ⟨⟨fun {ctx c s _ _} hc hP hok => ?_⟩⟩
  unfold Production.nested at hok
  split at hok
  · cases hok
  · exact hp.ends.holds hc hP hok

instance ite {c : Prop} [Decidable c] [hp : EndsOperand p] [hq : EndsOperand q] :
    EndsOperand (if c then p else q) :=
  ⟨.ite (fun _ => hp.ends) fun _ => hq.ends⟩

instance listed (close : Mark) [EndsOperand (Production.accept (.mark close))] [Advances p] :
    EndsOperand (Production.listed close p) := by
  unfold Production.listed
  infer_instance

/-- A token that has been seen, behind which an index may follow. -/
theorem token {P : Cursor → Place → Prop} {t : Token} (h : t.kind.endsOperand = true) :
    Lands (fun c s => P c s ∧ c.peek = t) (Functor.discard Production.next)
      fun _ => BehindOperand := by
  refine Lands.discard (.next (fun c s hc => ?_) fun c s hc => ?_)
  · rw [Cursor.peekKind, hc.2]
    intro hend
    rw [hend] at h
    cases h
  · rw [Cursor.peekKind, hc.2]
    exact s.operand_read h

end EndsOperand

end Production

namespace Grammar

open Production

/-- Whether no construct of a grammar has too many brackets held open. -/
class Limited (g : Grammar) : Prop where
  value : ∀ k, Rises k g.value
  expression : ∀ k, Rises (k + 2) g.expression
  binary : ∀ least k, Rises (k + 2) (g.binary least)
  unary : ∀ k, Rises (k + 2) g.unary
  block : ∀ k, Rises k g.block
  blockEnds : EndsOperand g.block
  item : ∀ k, Rises (k + 3) g.item
  type : ∀ k, Rises k g.type
  ascription : ∀ k, Rises k g.ascription
  casts : ∀ k, Rises k g.casts

variable {g : Grammar} [hb : g.Brackets] [hr : g.Progress] [hg : g.Limited] {k : Nat}

namespace Limited

instance : Rises k g.value := hg.value k

instance : Rises (k + 2) g.expression := hg.expression k

instance (least : Level) : Rises (k + 2) (g.binary least) := hg.binary least k

instance : Rises (k + 2) g.unary := hg.unary k

instance : Rises k g.block := hg.block k

instance : EndsOperand g.block := hg.blockEnds

instance : Rises (k + 3) g.item := hg.item k

instance : Rises k g.type := hg.type k

instance : Rises k g.ascription := hg.ascription k

instance : Rises k g.casts := hg.casts k

/-! ## Parameters and arguments -/

instance parameters : Rises (k + 1) g.parameters := by
  unfold Grammar.parameters
  dsimp only
  infer_instance

/-- The parenthesis in front of arguments has been read. -/
instance arguments : Rises k g.arguments := by
  unfold Grammar.arguments
  refine .loopThen (fun items => ?_) (fun items => ?_) (fun _ => inferInstance) _
  · refine @Nests.bind _ _ _ _ _ fun closed => @Nests.ite _ _ _ _ _ inferInstance ?_
    refine @Nests.bind _ _ _ _ _ fun dots => ?_
    split <;> infer_instance
  · refine @Rises.bind _ _ _ _ _ _ _ fun closed => @Rises.ite _ _ _ _ _ _ inferInstance ?_
    refine @Rises.bind _ _ _ _ _ _ _ fun dots => ?_
    split <;> infer_instance

instance arguments_ends : EndsOperand g.arguments := by
  unfold Grammar.arguments
  refine @EndsOperand.bind_right _ _ _ _ (@Advances.loop _ _ _ (fun items => ?_) _) _
  refine @Advances.bind _ _ _ _ _ fun closed => @Advances.ite _ _ _ _ _ inferInstance ?_
  refine @Advances.bind _ _ _ _ _ fun dots => ?_
  split <;> infer_instance

/-! ## Postfix chains -/

instance selector (target : Expr) (optional : Bool) : Rises (k + 1) (selector target optional) := by
  unfold Grammar.selector
  infer_instance

omit hr in
/-- The bracket of an index stands behind an operand. -/
theorem index (target : Expr) (optional : Bool) :
    Climbs BehindOperand (k + 2) (g.index target optional) := by
  unfold Grammar.index
  have hbracket : ∀ (c : Cursor) (s : Place), BehindOperand c s →
      (s.read (.mark .openBracket)).held ≤ s.held := fun _ _ h => Nat.le_of_eq (Place.held_read_index h)
  exact .bind (.accept fun c s h => Nat.le_add_right_of_le (hbracket c s h)) (.accept hbracket)
    (fun _ => .rises) (Nat.le_of_eq (Nat.zero_add _))

instance index_ends (target : Expr) (optional : Bool) : EndsOperand (g.index target optional) := by
  unfold Grammar.index
  infer_instance

instance call (callee : Expr) (optional : Bool) : Rises (k + 1) (g.call callee optional) := by
  unfold Grammar.call
  infer_instance

instance call_ends (callee : Expr) (optional : Bool) : EndsOperand (g.call callee optional) := by
  unfold Grammar.call
  infer_instance

omit hr in
theorem link (e : Expr) : Climbs BehindOperand (k + 2) (g.link e) := by
  unfold Grammar.link
  refine .peekKind fun kind => ?_
  have hindex : ∀ optional, Climbs BehindOperand (k + 2) (do
      return some (← g.index e optional)) := fun optional => (index e optional).bind_looks
  split
  · refine .skip (fun c s hc => ?_) fun _ => .rises
    rw [hc.2]
    rfl
  · have hpoint : ∀ (c : Cursor) (s : Place), BehindOperand c s ∧ c.peekKind = .mark .questionDot →
        c.peekKind.opens? = none := by
      intro c s hc
      rw [hc.2]
      rfl
    refine .bindAt (.drop hpoint) (.drop hpoint)
      (.dropAt (Q := BehindOperand) Kind.noConfusion fun _ s _ => s.operand_read rfl) (fun _ => .peekKind fun kind => ?_)
      (Nat.le_of_eq (Nat.zero_add _))
    split
    · exact .rises
    · exact (hindex true).under fun _ _ hc => hc.1
    · exact .rises
  · exact (hindex false).under fun _ _ hc => hc.1
  · exact .rises
  · exact .rises

omit hb hr hg in
/-- The name of a member stands behind a point. -/
theorem selector_ends (target : Expr) (optional : Bool) :
    Lands BehindPoint (Grammar.selector target optional)
      fun _ => BehindOperand := by
  have hname : Lands BehindPoint name fun _ => BehindOperand := by
    refine .peekKind fun kind => .ite (fun h => .next (fun c s hc => ?_) fun c s hc => ?_) fun _ => .failHere _
    · intro hend
      rw [← hc.2, hend] at h
      cases h
    · rw [hc.2]
      exact Place.operand_read_name h hc.1
  unfold Grammar.selector
  exact hname.bind fun _ => KeepsOperand.ends.bind fun _ => KeepsOperand.ends

omit hb hg in
/-- A link ends with a token behind which an index may follow. -/
theorem link_ends (e : Expr) :
    Lands BehindOperand (g.link e) fun _ => BehindOperand := by
  unfold Grammar.link
  have hselector : ∀ optional, Lands BehindPoint (do
      return some (← Grammar.selector e optional)) fun _ => BehindOperand :=
    fun optional => (selector_ends e optional).bind_looks
  have hpoint : ∀ {kind : Kind}, kind.isPoint = true →
      Lands (fun c s => BehindOperand c s ∧ c.peekKind = kind) (discard next) fun _ => BehindPoint := by
    intro kind hkind
    refine .dropAt (fun hend => ?_) fun _ _ _ => hkind
    rw [hend] at hkind
    cases hkind
  refine .peekKind fun kind => ?_
  split
  · exact (hpoint rfl).bind
      fun _ => hselector false
  · refine (hpoint rfl).bind fun _ => .peekKind fun kind => ?_
    split
    · exact EndsOperand.ends.everywhere
    · exact EndsOperand.ends.everywhere
    · exact (hselector true).under fun _ _ h => h.1
  · exact EndsOperand.ends.everywhere
  · exact EndsOperand.ends.everywhere
  · exact .looks fun _ _ h => h.1

theorem chain (e : Expr) : Climbs BehindOperand (k + 2) (g.chain e) := by
  unfold Grammar.chain
  refine .loop (fun _ => BehindOperand) (fun t => ?_) (fun t => ?_)
    (fun {t t' ctx c d s} hc hs hok => ?_) _
  · refine (link t.1).bind .settles (fun e' => ?_) (Nat.le_of_eq (Nat.zero_add _))
    cases e' <;> exact .looks
  · refine Leaves.settles.bind fun e' => ?_
    cases e' <;> exact .looks
  · obtain ⟨e', d', hlink, hok⟩ := bind_ok.1 hok
    cases e' with
    | none => cases hok
    | some e' =>
      cases hok
      exact (link_ends t.1).holds hc hs hlink

/-! ## Primary expressions -/

instance newInstance : Rises (k + 1) g.newInstance := by
  unfold Grammar.newInstance
  dsimp only
  infer_instance

instance newInstance_ends : EndsOperand g.newInstance := by
  unfold Grammar.newInstance
  dsimp only
  infer_instance

instance arrayLiteral : Rises (k + 1) g.arrayLiteral := by
  unfold Grammar.arrayLiteral
  infer_instance

instance arrayLiteral_ends : EndsOperand g.arrayLiteral := by
  unfold Grammar.arrayLiteral
  infer_instance

instance mapEntry : Rises (k + 1) g.mapEntry := by
  unfold Grammar.mapEntry
  dsimp only
  infer_instance

instance mapLiteral : Rises (k + 2) g.mapLiteral := by
  unfold Grammar.mapLiteral
  infer_instance

instance mapLiteral_ends : EndsOperand g.mapLiteral := by
  unfold Grammar.mapLiteral
  infer_instance

instance functionRest : Rises (k + 1) g.functionRest := by
  unfold Grammar.functionRest
  infer_instance

instance functionLiteral : Rises (k + 1) g.functionLiteral := by
  unfold Grammar.functionLiteral
  infer_instance

instance functionLiteral_ends : EndsOperand g.functionLiteral := by
  unfold Grammar.functionLiteral Grammar.functionRest
  infer_instance

instance primary : Rises (k + 2) g.primary := by
  unfold Grammar.primary
  refine @Rises.bind _ _ _ _ _ _ _ fun t => ?_
  split
  · infer_instance
  · split
    · refine @Rises.bind_lifts _ _ _ _ _ _ _ fun _ => ?_
      split <;> infer_instance
    all_goals infer_instance

theorem endsOperand_of_constant {kind : Kind} {constant : ConstantKind}
    (h : ConstantKind.ofKind? kind = some constant) : kind.endsOperand = true := by
  unfold ConstantKind.ofKind? at h
  split at h <;> first | rfl | cases h

instance primary_ends : EndsOperand g.primary := by
  unfold Grammar.primary
  refine ⟨.peek fun t => ?_⟩
  have hname : t.kind.endsOperand = true →
      Lands (fun c s => Everywhere c s ∧ c.peek = t) (do
        discard next
        genericArguments
        return Expr.identifier t.ident) fun _ => BehindOperand := fun h =>
    (EndsOperand.token h).bind fun _ => KeepsOperand.ends
  split
  · next constant hconstant =>
    exact (EndsOperand.token (endsOperand_of_constant hconstant)).bind_looks
  · split
    · next hhex =>
      refine (EndsOperand.token (by rw [hhex]; rfl)).bind fun _ => ?_
      split
      · exact KeepsOperand.ends
      · exact .fail _ _
    · next hidentifier => exact hname (by rw [hidentifier]; rfl)
    · next hdefault => exact hname (by rw [hdefault]; rfl)
    · exact EndsOperand.ends.everywhere
    · exact EndsOperand.ends.everywhere
    · exact EndsOperand.ends.everywhere
    · exact EndsOperand.ends.everywhere
    · exact EndsOperand.ends.everywhere
    · exact .failHere _

/-! ## Operators -/

instance postfixExpression : Rises (k + 2) g.postfixExpression := by
  unfold Grammar.postfixExpression
  refine ⟨.behind fun _ => ?_⟩
  exact .bindAt .rises .settles EndsOperand.ends chain (Nat.le_of_eq (Nat.zero_add _))

instance operand : Rises (k + 2) g.operand := by
  unfold Grammar.operand
  infer_instance

instance unaryExpression : Rises (k + 2) g.unaryExpression := by
  unfold Grammar.unaryExpression
  refine @Rises.bind _ _ _ _ _ _ _ fun kind => ?_
  split
  · infer_instance
  · split <;> infer_instance
  · infer_instance

/-- An operator is read with one token or two. -/
theorem width_le_two {c : Cursor} {op : BinaryOperator} {width : Nat}
    (h : c.binaryOperator? = some (op, width)) : width ≤ 2 := by
  unfold Cursor.binaryOperator? at h
  dsimp only at h
  split at h
  · split at h <;> cases h <;> decide
  · obtain ⟨_, _, hpair⟩ := Option.map_eq_some_iff.1 h
    cases hpair
    decide
  · cases h

instance operation (least : Level) (left : Expr) : Rises (k + 2) (g.operation least left) := by
  unfold Grammar.operation
  refine ⟨.asks fun seen => ?_⟩
  cases seen with
  | none => exact .rises
  | some seen =>
    obtain ⟨op, width⟩ := seen
    have hclimbs : Climbs (fun c _ => c.binaryOperator? = some (op, width)) (k + 2)
        (advance width) := by
      refine ⟨fun hc hP hok => ?_⟩
      exact ((Climbs.advance width).weaken (Nat.le_add_left_of_le (width_le_two hP))).passes hc
        trivial hok
    have htakes : Takes (fun c => c.binaryOperator? = some (op, width)) [] (advance width)
        fun _ => [] := Brackets.operator_takes fun _ h => h
    refine .ite (fun _ => .rises) fun _ => ?_
    exact (hclimbs.bind (htakes.leaves fun _ => Nat.le_refl 0) (fun _ => .rises) (Nat.le_of_eq (Nat.zero_add _))).under
      fun _ _ hc => hc.2

instance binaryExpression (least : Level) : Rises (k + 2) (g.binaryExpression least) := by
  unfold Grammar.binaryExpression
  infer_instance

instance conditional : Rises (k + 2) g.conditional := by
  unfold Grammar.conditional Grammar.ternary
  infer_instance

/-! ## Values -/

instance arrowFunction : Rises (k + 2) g.arrowFunction := by
  unfold Grammar.arrowFunction
  dsimp only
  infer_instance

instance valueExpression : Rises k g.valueExpression := by
  unfold Grammar.valueExpression
  infer_instance

end Limited

end Grammar

end ScriptFront
