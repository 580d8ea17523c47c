import ScriptFront.Proofs.Progress.Steady

/-!
# Types are steady

A type inside another type is read behind a token of the outer one.
-/

set_option synthInstance.maxSize 4000

namespace ScriptFront.Production

open Steady

variable {g : Grammar} [g.Progress] {keep : Token → Bool}

instance : Steady g keep .start qualifiedName := by
  unfold qualifiedName
  infer_instance

section

variable {type : Production Unit} [Consumes type] [Steady g keep .read type]

/-! ## Parts of types -/

instance : Steady g keep .start (ascribedType type) := by
  unfold ascribedType
  infer_instance

instance : Steady g keep .start (asTypes type) := by
  unfold asTypes
  infer_instance

instance : Steady g keep .start (typeParameters type) := by
  unfold typeParameters
  dsimp only
  infer_instance

instance : Steady g keep .start (typeArguments type) := by
  unfold typeArguments
  infer_instance

instance : Steady g keep .start (typeAssertion type) := by
  unfold typeAssertion
  infer_instance

instance : Steady g keep .start (typeParameterList type) := by
  unfold typeParameterList
  infer_instance

instance : Steady g keep .start (functionType type) := by
  unfold functionType
  infer_instance

instance : Steady g keep .start (tupleType type) := by
  unfold tupleType
  infer_instance

instance : Steady g keep .start (signature type) := by
  unfold signature
  infer_instance

instance : Steady g keep .start (bracketMember type) := by
  unfold bracketMember
  dsimp only
  infer_instance

instance : Steady g keep .start (namedMember type) := by
  unfold namedMember
  infer_instance

instance : Steady g keep .start (bareTypeMember type) := by
  unfold bareTypeMember
  refine startThen inferInstance fun kind => ?_
  split <;> infer_instance

instance : Steady g keep .start (typeMember type) := by
  unfold typeMember
  infer_instance

/-! ## Types -/

instance : Steady g keep .start (namedType type) := by
  unfold namedType
  infer_instance

/-- A member of an object type, or a mark between members, is a token long at least. -/
theorem objectType_pays (type : Production Unit) [Consumes type] (brace : Position) : Pays (do
    match ← peekKind with
    | .mark .closeBrace =>
      discard next
      return false
    | .endOfFile => fail .unclosedBlock brace
    | .mark .comma | .mark .semicolon =>
      discard next
      return true
    | _ =>
      typeMember type
      return true) := by
  refine ⟨.peekKindThen (.fail _ _) fun kind => ?_⟩
  split <;> exact ConsumesInside.inside Bool.toNat_le

instance : Steady g keep .start (objectType type) := by
  unfold objectType
  refine consumesThen inferInstance fun brace => ?_
  have hpays := objectType_pays type brace.position
  refine @rounds_read _ _ _ _ (readThen inferInstance fun kind => ?_) hpays
  split <;> infer_instance

instance : Steady g keep .start (primaryType type) := by
  unfold primaryType
  refine peekKindThen (failHere_instance _) fun kind => ?_
  split
  case h_14 =>
    refine insideThen inferInstance fun t => ?_
    split <;> infer_instance
  all_goals infer_instance

instance : Steady g keep .start (arrayType type) := by
  have : Pays (do
      if ← asks Cursor.startsArraySuffix then
        advance 2
        return true
      else return false) := by
    refine Pays.asksIf fun c h => ?_
    unfold Cursor.startsArraySuffix at h
    rw [Bool.and_eq_true] at h
    rw [show c.peekKind = .mark .openBracket from eq_of_beq h.1]
    simp
  unfold arrayType
  dsimp only
  infer_instance

instance : Steady g keep .start (unionType type) := by
  unfold unionType
  dsimp only
  infer_instance

/-! ## Declarations of types -/

instance : Steady g keep .read (heritage type) := by
  unfold heritage
  infer_instance

instance : Steady g keep .start (interfaceDeclaration type) := by
  unfold interfaceDeclaration
  dsimp only
  infer_instance

instance : Steady g keep .start (typeAlias type) := by
  unfold typeAlias
  infer_instance

instance : Steady g keep .start (functionSignature type) := by
  unfold functionSignature
  infer_instance

end

end ScriptFront.Production
