import ScriptFront.Production.TypeAnnotation
import ScriptFront.Proofs.Production.Reads

/-!
# What types read

Productions for types never go back, and every type is one token long at least.
-/

set_option synthInstance.maxSize 4000

namespace ScriptFront.Production

instance : Consumes qualifiedName := by
  unfold qualifiedName
  infer_instance

instance : Advances genericArguments := by
  unfold genericArguments
  refine @Advances.bind _ _ _ _ _ fun l => ?_
  cases l <;> infer_instance

variable {type : Production Unit} [Consumes type]

/-! ## Parts of types -/

instance : Advances (ascribedType type) := by
  unfold ascribedType
  infer_instance

instance : Advances (asTypes type) := by
  unfold asTypes
  infer_instance

instance : Advances (typeParameters type) := by
  unfold typeParameters
  dsimp only
  infer_instance

instance : Consumes (typeArguments type) := by
  unfold typeArguments
  infer_instance

instance : Advances (typeAssertion type) := by
  unfold typeAssertion
  infer_instance

instance : Consumes (typeParameterList type) := by
  unfold typeParameterList
  infer_instance

instance : Consumes (functionType type) := by
  unfold functionType
  infer_instance

instance : Consumes (tupleType type) := by
  unfold tupleType
  infer_instance

instance : Consumes (signature type) := by
  unfold signature
  infer_instance

instance : Consumes (bracketMember type) := by
  unfold bracketMember
  dsimp only
  infer_instance

instance : Advances (namedMember type) := by
  unfold namedMember
  infer_instance

instance : ConsumesInside (namedMember type) := by
  unfold namedMember
  infer_instance

instance : Consumes (bareTypeMember type) := by
  unfold bareTypeMember
  refine .peekKindThen (.failHere _) fun kind => ?_
  split <;> infer_instance

instance : Consumes (typeMember type) := by
  unfold typeMember
  infer_instance

/-! ## Types -/

instance : Consumes (namedType type) := by
  unfold namedType
  infer_instance

instance : Consumes (objectType type) := by
  unfold objectType
  refine @Consumes.bind_left _ _ _ _ _ fun brace => @Advances.rounds _ ?_
  refine @Advances.bind _ _ _ _ _ fun kind => ?_
  split <;> infer_instance

instance : Consumes (primaryType type) := by
  unfold primaryType
  refine .peekKindThen ?_ fun kind => ?_
  · exact .failHere _
  · split
    case h_14 =>
      refine @ConsumesInside.bind_right _ _ _ _ _ fun t => ?_
      split <;> infer_instance
    all_goals infer_instance

instance : Consumes (arrayType type) := by
  unfold arrayType
  dsimp only
  infer_instance

instance : Consumes (unionType type) := by
  unfold unionType
  dsimp only
  infer_instance

/-! ## Declarations of types -/

instance : Advances (heritage type) := by
  unfold heritage
  infer_instance

instance : Consumes (interfaceDeclaration type) := by
  unfold interfaceDeclaration
  dsimp only
  infer_instance

instance : Consumes (typeAlias type) := by
  unfold typeAlias
  infer_instance

instance : Consumes (functionSignature type) := by
  unfold functionSignature
  infer_instance

end ScriptFront.Production
