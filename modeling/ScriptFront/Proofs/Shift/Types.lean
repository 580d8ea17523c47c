import ScriptFront.Production.Statement
import ScriptFront.Proofs.Shift.Matches

/-!
# Types in different places

What the grammar asks of the tokens ahead is asked of kinds and words. A type is read and dropped, so
reading it has no answer that holds a place.
-/

set_option synthInstance.maxSize 4000

namespace ScriptFront.Shift.Uniform

open Production

variable {r : Shift}

/-! ## Questions about the tokens ahead -/

instance startsMethod : r.Uniform (asks Cursor.startsMethod) :=
  of_asks fun hc => by rw [Cursor.startsMethod, Cursor.startsMethod, hc.kind_peekNth 1]

instance startsReadonly : r.Uniform (asks Cursor.startsReadonly) :=
  of_asks fun hc => by simp only [Cursor.startsReadonly, hc.peek.isWord, hc.kind_peekNth 1]

instance startsFunctionType : r.Uniform (asks Cursor.startsFunctionType) :=
  of_asks fun hc => by simp only [Cursor.startsFunctionType, hc.kind_peekNth]

instance startsTypeOperator : r.Uniform (asks Cursor.startsTypeOperator) :=
  of_asks fun hc => by simp only [Cursor.startsTypeOperator, hc.peek.isWord, hc.kind_peekNth]

instance startsNegative : r.Uniform (asks Cursor.startsNegative) :=
  of_asks fun hc => by simp only [Cursor.startsNegative, hc.kind_peekNth]

instance startsArraySuffix : r.Uniform (asks Cursor.startsArraySuffix) :=
  of_asks fun hc => by simp only [Cursor.startsArraySuffix, hc.isAt, hc.kind_peekNth]

instance startsArrow : r.Uniform (asks Cursor.startsArrow) :=
  of_asks fun hc => by simp only [Cursor.startsArrow, hc.peekKind, hc.kind_peekNth]

instance binaryOperator? : r.Uniform (asks Cursor.binaryOperator?) :=
  of_asks fun hc => hc.binaryOperator?

instance startsModified (w : String) : r.Uniform (asks (Cursor.startsModified w)) :=
  of_asks fun hc => by simp only [Cursor.startsModified, hc.peek.isWord, hc.kind_peekNth]

instance startsPrototypeMethod : r.Uniform (asks Cursor.startsPrototypeMethod) :=
  of_asks fun hc => by
    simp only [Cursor.startsPrototypeMethod, hc.peek.kind, hc.isWord_peekNth, hc.kind_peekNth]

instance startsDeclaration (w : String) : r.Uniform (asks (Cursor.startsDeclaration w)) :=
  of_asks fun hc => by simp only [Cursor.startsDeclaration, hc.peek.isWord, hc.kind_peekNth]

instance startsIteration : r.Uniform (asks Cursor.startsIteration) :=
  of_asks fun hc => by simp only [Cursor.startsIteration, hc.peekKind, hc.isWord_peekNth]

instance startsLabel : r.Uniform (asks Cursor.startsLabel) :=
  of_asks fun hc => by simp only [Cursor.startsLabel, hc.kind_peekNth]

/-- The type arguments ahead are complete in both runs or in none, and as long in both. -/
instance genericArguments : r.Uniform genericArguments := by
  constructor
  intro ctx c c' hc
  have hkinds := Lookahead.agree_typeArguments Lookahead.typeArgumentDepth _ _ hc.kinds_ofCursor
  unfold Production.genericArguments
  rw [run_asks_bind, run_asks_bind]
  cases hl : (Lookahead.ofCursor c).typeArguments Lookahead.typeArgumentDepth <;>
    cases hl' : (Lookahead.ofCursor c').typeArguments Lookahead.typeArgumentDepth <;>
    rw [hl, hl'] at hkinds
  · exact .ok (.intro rfl hc)
  · cases hkinds
  · cases hkinds
  · have hconsumed := congrArg (·.2.2) (Option.some.inj hkinds)
    dsimp only [Lookahead.kinds] at hconsumed ⊢
    rw [hconsumed]
    exact .ok (.intro rfl (hc.advance _))

/-! ## Types -/

instance qualifiedName : r.Uniform qualifiedName := by
  unfold Production.qualifiedName
  infer_instance

variable {type : Production Unit} [r.Uniform type]

instance ascribedType : r.Uniform (ascribedType type) := by
  unfold Production.ascribedType
  infer_instance

instance asTypes : r.Uniform (asTypes type) := by
  unfold Production.asTypes
  infer_instance

instance typeParameters : r.Uniform (typeParameters type) := by
  unfold Production.typeParameters
  dsimp only
  infer_instance

instance typeArguments : r.Uniform (typeArguments type) := by
  unfold Production.typeArguments
  infer_instance

instance typeAssertion : r.Uniform (typeAssertion type) := by
  unfold Production.typeAssertion
  infer_instance

instance typeParameterList : r.Uniform (typeParameterList type) := by
  unfold Production.typeParameterList
  infer_instance

instance functionType : r.Uniform (functionType type) := by
  unfold Production.functionType
  infer_instance

instance tupleType : r.Uniform (tupleType type) := by
  unfold Production.tupleType
  infer_instance

instance signature : r.Uniform (signature type) := by
  unfold Production.signature
  infer_instance

instance bracketMember : r.Uniform (bracketMember type) := by
  unfold Production.bracketMember
  dsimp only
  infer_instance

instance namedMember : r.Uniform (namedMember type) := by
  unfold Production.namedMember
  infer_instance

instance typeMember : r.Uniform (typeMember type) := by
  have hbare : r.Uniform (bareTypeMember type) := by
    unfold bareTypeMember
    refine @bind _ _ _ _ _ _ fun kind => ?_
    split <;> infer_instance
  unfold Production.typeMember
  infer_instance

instance objectType : r.Uniform (objectType type) := by
  unfold Production.objectType
  refine ⟨.token fun kind text p q hplace => .rounds (.read fun k => ?_)⟩
  split
  · exact Uniform.same
  · exact .fail _ hplace
  · exact Uniform.same
  · exact Uniform.same
  · exact Uniform.same

instance namedType : r.Uniform (namedType type) := by
  unfold Production.namedType
  infer_instance

instance unionType : r.Uniform (unionType type) := by
  have hprimary : r.Uniform (primaryType type) := by
    have hnew : r.Uniform (do
        if (← peekNth 1).kind = .mark .openParen then
          Functor.discard next
          Production.functionType type
        else Production.namedType type) :=
      ⟨.token fun _ _ _ _ _ => .ite Uniform.same Uniform.same⟩
    unfold primaryType
    refine @bind _ _ _ _ _ _ fun kind => ?_
    split <;> infer_instance
  have harray : r.Uniform (arrayType type) := by
    unfold arrayType
    dsimp only
    infer_instance
  unfold Production.unionType
  dsimp only
  infer_instance

/-! ## Declarations of types -/

instance heritage : r.Uniform (heritage type) := by
  unfold Production.heritage
  infer_instance

instance interfaceDeclaration : r.Uniform (interfaceDeclaration type) := by
  unfold Production.interfaceDeclaration
  dsimp only
  infer_instance

instance typeAlias : r.Uniform (typeAlias type) := by
  unfold Production.typeAlias
  infer_instance

instance functionSignature : r.Uniform (functionSignature type) := by
  unfold Production.functionSignature
  infer_instance

end ScriptFront.Shift.Uniform
