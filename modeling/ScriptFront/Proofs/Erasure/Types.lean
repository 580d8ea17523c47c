import ScriptFront.Proofs.Erasure.Arriving
import ScriptFront.Proofs.Erasure.Passing
import ScriptFront.Proofs.Production.TypesRead

/-!
# Types beside an insertion

Nothing in a type reads the insertion. A type that ends before the place is read the same on both sides,
although its lookaheads may see the place: what they look at is read afterwards.
-/

set_option synthInstance.maxSize 4000

namespace ScriptFront.Production

variable {α β : Type} {P : Insertion}

/-- The type of an expression grammar on all three sides. -/
class Types (P : Insertion) (t tq t' : Production Unit) : Prop where
  eq : tq = t
  tracks : Tracks P t t t'
  consumes : Consumes t

instance Types.toTracks {t tq t' : Production Unit} [h : Types P t tq t'] : Tracks P t tq t' := by
  cases h.eq
  exact h.tracks

variable {t tq t' : Production Unit} [h : Types P t tq t']

/-! ## Parts of types -/

instance : Tracks P (ascribedType t) (ascribedType tq) (ascribedType t') := by
  unfold ascribedType
  infer_instance

instance : Tracks P (asTypes t) (asTypes tq) (asTypes t') := by
  unfold asTypes
  infer_instance

instance : Tracks P (typeParameters t) (typeParameters tq) (typeParameters t') := by
  unfold typeParameters
  dsimp only
  infer_instance

instance : Tracks P (typeArguments t) (typeArguments tq) (typeArguments t') := by
  unfold typeArguments
  infer_instance

instance : Tracks P (typeAssertion t) (typeAssertion tq) (typeAssertion t') := by
  unfold typeAssertion
  infer_instance

instance : Tracks P qualifiedName qualifiedName qualifiedName := by
  unfold qualifiedName
  infer_instance

instance : Tracks P (typeParameterList t) (typeParameterList tq) (typeParameterList t') := by
  unfold typeParameterList
  infer_instance

instance : Tracks P (functionType t) (functionType tq) (functionType t') := by
  unfold functionType
  infer_instance

instance : Tracks P (tupleType t) (tupleType tq) (tupleType t') := by
  unfold tupleType
  infer_instance

instance : Tracks P (signature t) (signature tq) (signature t') := by
  unfold signature
  infer_instance

instance : Tracks P (bracketMember t) (bracketMember tq) (bracketMember t') := by
  unfold bracketMember
  dsimp only
  infer_instance

instance : Tracks P (namedMember t) (namedMember tq) (namedMember t') := by
  unfold namedMember
  infer_instance

instance : Tracks P (namedType t) (namedType tq) (namedType t') := by
  unfold namedType
  infer_instance

instance : Tracks P (bareTypeMember t) (bareTypeMember tq) (bareTypeMember t') := by
  unfold bareTypeMember
  refine @Tracks.bind _ _ _ _ _ _ _ _ _ _ fun kind => ?_
  split
  case h_4 =>
    cases h.eq
    have := h.consumes
    refine .asks_bind_reads (n := 1) (fun _ => ConsumesInside.reads) (fun hc => ?_) fun front hn => ?_
    · unfold Cursor.startsMethod
      rw [hc.peekNth]
    · unfold Cursor.startsMethod
      rw [Insertion.peekNth_eq hn]
  all_goals infer_instance

instance : Tracks P (typeMember t) (typeMember tq) (typeMember t') := by
  unfold typeMember
  dsimp only
  cases h.eq
  have := h.consumes
  refine .asks_bind_reads (n := 1) (fun _ => ConsumesInside.reads) (fun hc => ?_) fun front hn => ?_
  · unfold Cursor.startsReadonly Cursor.peek
    rw [hc.peekNth, hc.peekNth]
  · unfold Cursor.startsReadonly Cursor.peek
    rw [Insertion.peekNth_eq hn, Insertion.peekNth_eq (Nat.zero_lt_of_lt hn)]

instance : Tracks P (objectType t) (objectType tq) (objectType t') := by
  unfold objectType
  refine @Tracks.bind _ _ _ _ _ _ _ _ _ _ fun brace => @Tracks.rounds _ _ _ _ ?_
  refine @Tracks.bind _ _ _ _ _ _ _ _ _ _ fun kind => ?_
  split <;> infer_instance

/-! ## Types -/

theorem typeParameterList_reads [Consumes t] : Reads (fun _ => 2) (typeParameterList t) := by
  unfold typeParameterList
  refine Consumes.discard.reads.bind fun _ => ?_
  unfold listed
  exact .discard (.bind_right fun _ => Consumes.discard.reads.bind fun _ => .pure rfl)

theorem functionType_reads [ht : Consumes t] : Reads (fun _ => 3) (functionType t) := by
  unfold functionType
  exact typeParameterList_reads.bind fun _ => Consumes.discard.reads.bind fun _ =>
    ht.reads.weaken fun _ => Nat.zero_le _

instance : Tracks P (primaryType t) (primaryType tq) (primaryType t') := by
  cases h.eq
  have ht := h.consumes
  unfold primaryType
  refine @Tracks.bind _ _ _ _ _ _ _ _ _ _ fun kind => ?_
  split
  case h_1 =>
    refine .asks_bind_reads (n := 3) (fun b => ?_) (fun hc => ?_) fun front hn => ?_
    · split
      · exact functionType_reads.inside
      · exact ConsumesInside.discard.reads.bind fun _ => ht.reads.bind fun _ =>
          Consumes.discard.reads
    · unfold Cursor.startsFunctionType
      rw [hc.peekNth, hc.peekNth, hc.peekNth]
    · unfold Cursor.startsFunctionType
      rw [Insertion.peekNth_eq hn, Insertion.peekNth_eq (Nat.lt_of_succ_lt hn),
        Insertion.peekNth_eq (by omega : 1 < front.length)]
  case h_14 =>
    refine .asks_bind_reads (n := 1) (fun b => ?_) (fun hc => ?_) fun front hn => ?_
    · split
      · exact (ConsumesInside.advance 1).reads
      · exact Reads.inside (.failHere _)
    · unfold Cursor.startsNegative
      rw [hc.peekNth]
    · unfold Cursor.startsNegative
      rw [Insertion.peekNth_eq hn]
  case h_16 =>
    refine .asks_bind_reads (h := fun c => c.peekNth 1) (n := 1) (fun b => ?_) (fun hc => ?_)
      fun front hn => ?_
    · split <;> exact ConsumesInside.reads
    · exact hc.peekNth 1
    · exact Insertion.peekNth_eq hn
  all_goals infer_instance

/-- No square bracket stands right before the place. -/
theorem arraySuffix_eq (hfits : P.Fits) {front : List Stop} (hfront : front <:+ P.before)
    (hne : front ≠ []) :
    (P.without front).startsArraySuffix = (P.within front).startsArraySuffix := by
  unfold Cursor.startsArraySuffix Cursor.isAt Cursor.peekKind
  rw [Insertion.peek_eq hne]
  match front with
  | [s] =>
    have hs : s.token.kind ≠ .mark .openBracket := by
      intro hkind
      have := hfits.leadsOn hfront
      rw [hkind] at this
      cases this
    have hpeek : ((P.within [s]).peek.kind == .mark .openBracket) = false :=
      beq_eq_false_iff_ne.2 hs
    rw [hpeek, Bool.false_and, Bool.false_and]
  | s :: s' :: front => rfl

instance : Tracks P (arrayType t) (arrayType tq) (arrayType t') := by
  unfold arrayType
  dsimp only
  cases h.eq
  have hsuffix : Tracks P
      (do
        if ← asks Cursor.startsArraySuffix then
          advance 2
          return true
        else return false)
      (do
        if ← asks Cursor.startsArraySuffix then
          advance 2
          return true
        else return false)
      (do
        if ← asks Cursor.startsArraySuffix then
          advance 2
          return true
        else return false) := by
    refine .asks_bind (fun hc => ?_) fun hfits front hfront hne =>
      .inl (arraySuffix_eq hfits hfront hne)
    unfold Cursor.startsArraySuffix
    rw [hc.isAt, hc.peekNth]
  have := h.consumes
  refine .asks_bind_reads (n := 1) (fun _ => ConsumesInside.reads) (fun hc => ?_) fun front hn => ?_
  · unfold Cursor.startsTypeOperator
    rw [hc.peek, hc.peekNth]
  · unfold Cursor.startsTypeOperator
    rw [Insertion.peekNth_eq hn, Insertion.peek_eq (by rintro rfl; exact Nat.not_lt_zero _ hn)]

instance : Tracks P (unionType t) (unionType tq) (unionType t') := by
  unfold unionType
  dsimp only
  infer_instance

instance : Types P (unionType t) (unionType tq) (unionType t') where
  eq := by rw [h.eq]
  tracks := by
    have := h.tracks
    have htypes : Types P t t t' := ⟨rfl, h.tracks, h.consumes⟩
    infer_instance
  consumes := by
    have := h.consumes
    infer_instance

/-! ## Declarations of types -/

instance : Tracks P (heritage t) (heritage tq) (heritage t') := by
  unfold heritage
  infer_instance

instance : Tracks P (interfaceDeclaration t) (interfaceDeclaration tq) (interfaceDeclaration t') := by
  unfold interfaceDeclaration
  dsimp only
  infer_instance

instance : Tracks P (typeAlias t) (typeAlias tq) (typeAlias t') := by
  unfold typeAlias
  infer_instance

instance : Tracks P (functionSignature t) (functionSignature tq) (functionSignature t') := by
  unfold functionSignature
  infer_instance

end ScriptFront.Production
