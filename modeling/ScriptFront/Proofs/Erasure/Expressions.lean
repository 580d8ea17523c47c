import ScriptFront.Proofs.Erasure.TypeArguments
import ScriptFront.Proofs.Erasure.Types
import ScriptFront.Proofs.Production.ExpressionsRead

/-!
# Expressions beside an insertion
-/

set_option synthInstance.maxSize 4000

namespace ScriptFront.Grammar

open Production

/-- Whether the constructs of three grammars keep pace. The first reads without the insertion, the second
refuses to read at the place, and the third reads with the insertion. Only what the insertion could be
part of is refused, and only where a type may stand or behind an operand. -/
class Sides (P : Insertion) (g gq g' : Grammar) : Prop where
  value : Tracks P g.value gq.value g'.value
  expression : Tracks P g.expression gq.expression g'.expression
  binary : ∀ least, Tracks P (g.binary least) (gq.binary least) (g'.binary least)
  unary : Tracks P g.unary gq.unary g'.unary
  block : Tracks P g.block gq.block g'.block
  block_arrives : Arrives P g.block gq.block g'.block
  item : Tracks P g.item gq.item g'.item
  type : Types P g.type gq.type g'.type
  ascription : Meets P g.ascription gq.ascription g'.ascription
  casts : Meets P g.casts gq.casts g'.casts
  ascription_word : P.opening.token.isWord "as" = true →
    gq.ascription = g.ascription ∧ Tracks P g.ascription g.ascription g'.ascription
  casts_colon : P.opening.token.kind = .mark .colon → Tracks P g.casts gq.casts g'.casts
  casts_stays : P.opening.token.kind = .mark .colon → ∀ u, u.token.kind = .mark .question →
    Carries P [u] [u] g.casts gq.casts g'.casts
  value_clears : P.opening.token.kind = .mark .colon → Clears P 1 g.value gq.value g'.value
  value_passes : P.opening.token.kind = .mark .colon → ∀ s u, [s, u] <:+ P.before →
    s.token.kind = .identifier → u.token.kind = .mark .question →
    Passes P [s, u] g.value gq.value g'.value

variable {P : Insertion} {g gq g' : Grammar} [hp : g.Progress] [hg : Sides P g gq g']

namespace Sides

instance : Tracks P g.value gq.value g'.value := hg.value

instance : Tracks P g.expression gq.expression g'.expression := hg.expression

instance (least : Level) : Tracks P (g.binary least) (gq.binary least) (g'.binary least) :=
  hg.binary least

instance : Tracks P g.unary gq.unary g'.unary := hg.unary

instance : Tracks P g.block gq.block g'.block := hg.block

instance : Arrives P g.block gq.block g'.block := hg.block_arrives

instance : Tracks P g.item gq.item g'.item := hg.item

instance : Types P g.type gq.type g'.type := hg.type

instance : Meets P g.ascription gq.ascription g'.ascription := hg.ascription

instance : Meets P g.casts gq.casts g'.casts := hg.casts

end Sides

/-! ## Parameters and arguments -/

instance : Tracks P g.parameters gq.parameters g'.parameters := by
  unfold parameters
  dsimp only
  infer_instance

instance : Arrives P g.parameters gq.parameters g'.parameters := by
  unfold parameters
  dsimp only
  infer_instance

omit hp in
theorem arguments_sides : Tracks P g.arguments gq.arguments g'.arguments ∧
    Arrives P g.arguments gq.arguments g'.arguments := by
  unfold arguments
  refine ⟨@Tracks.bind _ _ _ _ _ _ _ _ _ ?items _,
    @Arrives.bind_last _ _ _ _ _ _ _ _ _ (@Meets.of_tracks _ _ _ _ _ ?items) _ _⟩
  refine @Tracks.loop _ _ _ _ _ _ (fun items => ?_) _
  refine @Tracks.bind _ _ _ _ _ _ _ _ _ _ fun closed =>
    @Tracks.ite _ _ _ _ _ _ _ _ _ _ inferInstance ?_
  refine @Tracks.bind _ _ _ _ _ _ _ _ _ _ fun dots => ?_
  cases dots <;> infer_instance

instance : Tracks P g.arguments gq.arguments g'.arguments := arguments_sides.1

instance : Arrives P g.arguments gq.arguments g'.arguments := arguments_sides.2

instance (target : Expr) (optional : Bool) :
    Tracks P (selector target optional) (selector target optional) (selector target optional) := by
  unfold selector
  infer_instance

instance (target : Expr) (optional : Bool) :
    Arrives P (selector target optional) (selector target optional) (selector target optional) := by
  unfold selector
  infer_instance

instance (target : Expr) (optional : Bool) :
    Tracks P (g.index target optional) (gq.index target optional) (g'.index target optional) := by
  unfold index
  infer_instance

instance (target : Expr) (optional : Bool) :
    Arrives P (g.index target optional) (gq.index target optional) (g'.index target optional) := by
  unfold index
  infer_instance

instance (callee : Expr) (optional : Bool) :
    Tracks P (g.call callee optional) (gq.call callee optional) (g'.call callee optional) := by
  unfold call
  infer_instance

instance (callee : Expr) (optional : Bool) :
    Arrives P (g.call callee optional) (gq.call callee optional) (g'.call callee optional) := by
  unfold call
  infer_instance

/-! ## Postfix chains -/

instance (e : Expr) : Tracks P (g.link e) (gq.link e) (g'.link e) := by
  unfold link
  refine @Tracks.bind _ _ _ _ _ _ _ _ _ _ fun kind => ?_
  split
  · infer_instance
  · refine @Tracks.bind _ _ _ _ _ _ _ _ _ _ fun _ => @Tracks.bind _ _ _ _ _ _ _ _ _ _ fun kind => ?_
    split <;> infer_instance
  · infer_instance
  · infer_instance
  · infer_instance

instance (e : Expr) : Arrives P (g.link e) (gq.link e) (g'.link e) := by
  unfold link
  refine @Arrives.bind_looks _ _ _ _ _ _ _ _ _ _ _ fun kind => ?_
  split
  · infer_instance
  · refine @Arrives.bind_last _ _ _ _ _ _ _ _ _ _ (fun _ => ?_) (fun _ => ?_)
    · refine @Consumes.bind_right _ _ _ _ _ fun kind => ?_
      split <;> infer_instance
    · refine @Arrives.bind_looks _ _ _ _ _ _ _ _ _ _ _ fun kind => ?_
      split <;> infer_instance
  · infer_instance
  · infer_instance
  · infer_instance

/-- No link starts with what is inserted. -/
instance (e : Expr) : Stays P (g.link e) (g'.link e) := by
  refine ⟨fun {ctx a} hok => ?_⟩
  have hinserted : g'.link e ctx (P.within []) = .ok (none, P.within []) := by
    have hkind : (P.within []).peekKind = .mark .colon ∨ (P.within []).peekKind = .identifier :=
      P.opening_kind.imp_right Insertion.opening_identifier
    unfold link
    rw [run_peekKind_bind]
    rcases hkind with hkind | hkind
    · rw [hkind]
      rfl
    · rw [hkind]
      rfl
  have hnone : a = none := by
    have hstart : ∀ {p : Production (Option Expr)}, Consumes p → p ctx P.behind = .ok (a, P.behind) →
        a = none := fun h hok => absurd hok (Stays.ne_of_consumes h P.behind_closed)
    unfold link at hok
    rw [run_peekKind_bind] at hok
    generalize P.behind.peekKind = kind at hok
    split at hok
    · exact hstart inferInstance hok
    · refine hstart (@Consumes.bind_right _ _ _ _ _ fun _ => ?_) hok
      refine @Consumes.bind_right _ _ _ _ _ fun kind => ?_
      split <;> infer_instance
    · exact hstart inferInstance hok
    · exact hstart inferInstance hok
    · cases hok
      rfl
  rw [hinserted, hnone]

instance (e : Expr) : Advances (g.link e) := (link_narrow e).advances

instance (e : Expr) : Advances (g.chain e) := (chain_reads e).advances

omit hp in
instance (e : Expr) : Tracks P (g.chain e) (gq.chain e) (g'.chain e) := by
  unfold chain
  refine @Tracks.loop _ _ _ _ _ _ (fun s => @Tracks.bind _ _ _ _ _ _ _ _ _ _ fun e => ?_) _
  cases e <;> infer_instance

instance (e : Expr) : Arrives P (g.chain e) (gq.chain e) (g'.chain e) := by
  unfold chain
  refine @Arrives.loop _ _ _ _ _ _ (fun s => @Tracks.bind _ _ _ _ _ _ _ _ _ _ fun e => ?_)
    (fun s => @Arrives.bind_stay _ _ _ _ _ _ _ _ _ _ _ (fun e => ?_) (fun e => ?_) fun e => ?_)
    (fun s => @Stays.bind _ _ _ _ _ _ _ _ _ (fun e => ?_) fun e => ?_)
    (fun s => @Advances.bind _ _ _ _ _ fun e => ?_) _
  all_goals cases e <;> infer_instance

instance (e : Expr) : Stays P (g.chain e) (g'.chain e) := by
  unfold chain
  refine @Stays.loop _ _ _ _ _ (fun s => @Stays.bind _ _ _ _ _ _ _ _ _ (fun e => ?_) fun e => ?_)
    (fun s => @Advances.bind _ _ _ _ _ fun e => ?_) _
  all_goals cases e <;> infer_instance

/-! ## Primary expressions -/

omit hp in
instance : Tracks P g.newInstance gq.newInstance g'.newInstance := by
  unfold newInstance
  dsimp only
  infer_instance

instance : Arrives P g.newInstance gq.newInstance g'.newInstance := by
  unfold newInstance
  dsimp only
  infer_instance

omit hp in
instance : Tracks P g.arrayLiteral gq.arrayLiteral g'.arrayLiteral := by
  unfold arrayLiteral
  infer_instance

instance : Arrives P g.arrayLiteral gq.arrayLiteral g'.arrayLiteral := by
  unfold arrayLiteral
  infer_instance

omit hp in
instance : Tracks P g.mapEntry gq.mapEntry g'.mapEntry := by
  unfold mapEntry
  dsimp only
  infer_instance

omit hp in
instance : Tracks P g.mapLiteral gq.mapLiteral g'.mapLiteral := by
  unfold mapLiteral
  infer_instance

instance : Arrives P g.mapLiteral gq.mapLiteral g'.mapLiteral := by
  unfold mapLiteral
  infer_instance

instance : Tracks P g.functionRest gq.functionRest g'.functionRest := by
  unfold functionRest
  infer_instance

instance : Arrives P g.functionRest gq.functionRest g'.functionRest := by
  unfold functionRest
  infer_instance

instance : Tracks P g.functionLiteral gq.functionLiteral g'.functionLiteral := by
  unfold functionLiteral
  infer_instance

instance : Arrives P g.functionLiteral gq.functionLiteral g'.functionLiteral := by
  unfold functionLiteral
  infer_instance

instance : Tracks P g.primary gq.primary g'.primary := by
  unfold primary
  refine @Tracks.bind _ _ _ _ _ _ _ _ _ _ fun t => ?_
  split
  · infer_instance
  · split
    · refine @Tracks.bind _ _ _ _ _ _ _ _ _ _ fun _ => ?_
      split <;> infer_instance
    all_goals infer_instance

theorem leadsOn_constant {k : Kind} {c : ConstantKind} (h : ConstantKind.ofKind? k = some c) :
    k.leadsOn = false := by
  cases k with
  | mark m => cases h
  | _ => rfl

instance : Arrives P g.primary gq.primary g'.primary := by
  unfold primary
  refine .peek_bind fun s front hfront => ?_
  split
  · next hkind => exact Arrives.discard_next_bind hfront (leadsOn_constant hkind)
  · split
    · next hkind =>
      refine @Arrives.discard_next_bind _ _ _ _ _ _ _ hfront (by rw [hkind]; rfl) ?_ ?_ ?_
      all_goals split <;> infer_instance
    · next hkind => exact Arrives.discard_next_bind hfront (by rw [hkind]; rfl)
    · next hkind => exact Arrives.discard_next_bind hfront (by rw [hkind]; rfl)
    all_goals exact Arrives.arrives hfront (List.cons_ne_nil _ _)

end ScriptFront.Grammar
