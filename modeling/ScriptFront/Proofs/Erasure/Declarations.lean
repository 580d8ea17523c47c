import ScriptFront.Proofs.Erasure.Values
import ScriptFront.Proofs.Production.StatementsRead

/-!
# Declarations beside an insertion
-/

set_option synthInstance.maxSize 4000

namespace ScriptFront

namespace Grammar

open Production

variable {P : Insertion} {g gq g' : Grammar} [hp : g.Progress] [hg : Sides P g gq g']

/-! ## Variables and functions -/

omit hp in
instance (isConst : Bool) : Tracks P (g.variableDeclaration isConst) (gq.variableDeclaration isConst)
    (g'.variableDeclaration isConst) := by
  unfold variableDeclaration
  dsimp only
  infer_instance

omit hp in
instance : Tracks P g.variableStatement gq.variableStatement g'.variableStatement := by
  unfold variableStatement
  infer_instance

instance (position : Position) (name : String) (exported : Bool) :
    Tracks P (g.namedFunction position name exported) (gq.namedFunction position name exported)
      (g'.namedFunction position name exported) := by
  unfold namedFunction
  infer_instance

instance (exported : Bool) : Tracks P (g.functionDeclaration exported) (gq.functionDeclaration exported)
    (g'.functionDeclaration exported) := by
  unfold functionDeclaration
  infer_instance

instance : Tracks P g.prototypeMethod gq.prototypeMethod g'.prototypeMethod := by
  unfold prototypeMethod
  infer_instance

instance : Clears P 7 g.prototypeMethod gq.prototypeMethod g'.prototypeMethod := by
  unfold prototypeMethod
  infer_instance

/-! ## Classes -/

section Looks

variable {α : Type} {r rq r' s sq s' : Production α} [hr : Tracks P r rq r'] [hs : Tracks P s sq s']

omit hp hg in
/-- The token in front of the place may look like the name of a method, which then is read. -/
theorem startsMethod_ite (htrue : Clears P 1 r rq r') :
    Tracks P (do if ← asks Cursor.startsMethod then r else s)
      (do if ← asks Cursor.startsMethod then rq else sq)
      (do if ← asks Cursor.startsMethod then r' else s') := by
  refine .asks_bind_clears (n := 1) (fun hc => ?_) fun _ front _ hne => ?_
  · unfold Cursor.startsMethod
    rw [hc.peekNth]
  · obtain ⟨s, front, rfl⟩ := List.exists_cons_of_ne_nil hne
    cases front with
    | cons t front => exact .inl rfl
    | nil =>
      have hwithin : (P.within [s]).startsMethod = false := by
        unfold Cursor.startsMethod opensSignature
        rw [show (P.within [s]).peekNth 1 = P.opening.token from rfl, Bool.or_eq_false_iff,
          beq_eq_false_iff_ne, beq_eq_false_iff_ne]
        exact ⟨Insertion.opening_isAt (by simp) (by simp), Insertion.opening_isAt (by simp) (by simp)⟩
      cases hwithout : (P.without [s]).startsMethod with
      | false => exact .inl hwithin.symm
      | true => exact .inr ⟨Nat.le_refl 1, htrue⟩

omit hp hg in
/-- A word in front of a name may be the name itself, on one side or the other. -/
theorem startsModified_ite (w : String) (htrue : Clears P 1 r rq r')
    (hfalse : P.opening.token.isWord "as" = true → Clears P 1 s sq s') :
    Tracks P (do if ← asks (Cursor.startsModified w) then r else s)
      (do if ← asks (Cursor.startsModified w) then rq else sq)
      (do if ← asks (Cursor.startsModified w) then r' else s') := by
  refine .asks_bind_clears (n := 1) (fun hc => ?_) fun _ front _ hne => ?_
  · unfold Cursor.startsModified
    rw [hc.peek, hc.peekNth]
  · obtain ⟨s, front, rfl⟩ := List.exists_cons_of_ne_nil hne
    cases front with
    | cons t front => exact .inl rfl
    | nil =>
      cases hwithout : Cursor.startsModified w (P.without [s]) with
      | true => exact .inr ⟨Nat.le_refl 1, htrue⟩
      | false =>
        rcases P.opening_kind with hcolon | hword
        · refine .inl ?_
          unfold Cursor.startsModified
          rw [show (P.within [s]).peekNth 1 = P.opening.token from rfl, hcolon]
          exact (Bool.and_false _).symm
        · exact .inr ⟨Nat.le_refl 1, hfalse hword⟩

end Looks

instance (exported : Bool) : Tracks P (g.method exported) (gq.method exported) (g'.method exported) := by
  unfold method
  infer_instance

instance (exported : Bool) : Clears P 1 (g.method exported) (gq.method exported) (g'.method exported) := by
  unfold method
  infer_instance

omit hp in
instance (exported : Bool) : Tracks P (g.field exported) (gq.field exported) (g'.field exported) := by
  unfold field
  infer_instance

omit hp in
theorem field_clears (hword : P.opening.token.isWord "as" = true) (exported : Bool) :
    Clears P 1 (g.field exported) (gq.field exported) (g'.field exported) := by
  obtain ⟨heq, hascription⟩ := hg.ascription_word hword
  unfold field variableDeclaration
  rw [heq]
  dsimp only
  infer_instance

theorem bareMember_clears (hword : P.opening.token.isWord "as" = true) (exported : Bool) :
    Clears P 1 (g.bareMember exported) (gq.bareMember exported) (g'.bareMember exported) := by
  have hfield : Clears P 1 (g.field exported) (gq.field exported) (g'.field exported) :=
    field_clears hword exported
  unfold bareMember
  infer_instance

instance (exported : Bool) :
    Tracks P (g.bareMember exported) (gq.bareMember exported) (g'.bareMember exported) := by
  have hfield (hword : P.opening.token.isWord "as" = true) :
      Clears P 1 (g.field exported) (gq.field exported) (g'.field exported) :=
    field_clears hword exported
  unfold bareMember
  refine @startsModified_ite _ _ _ _ _ _ _ _ inferInstance ?set _ inferInstance fun hword => ?_
  case set =>
    refine @startsModified_ite _ _ _ _ _ _ _ _ inferInstance ?method _ inferInstance fun hword => ?_
    case method => exact startsMethod_ite inferInstance
    have := hfield hword
    infer_instance
  have := hfield hword
  infer_instance

instance : Tracks P g.classMember gq.classMember g'.classMember := by
  unfold classMember
  exact startsModified_ite _ inferInstance fun hword => bareMember_clears hword true

instance : Tracks P g.classMembers gq.classMembers g'.classMembers := by
  unfold classMembers
  refine @Tracks.loop _ _ _ _ _ _ (fun members => @Tracks.bind _ _ _ _ _ _ _ _ _ _ fun t => ?_) _
  split <;> infer_instance

instance (exported : Bool) : Tracks P (g.classDeclaration exported) (gq.classDeclaration exported)
    (g'.classDeclaration exported) := by
  unfold classDeclaration
  infer_instance

instance (exported : Bool) : Tracks P (g.functionOrClass exported) (gq.functionOrClass exported)
    (g'.functionOrClass exported) := by
  unfold functionOrClass
  infer_instance

end Grammar

/-! ## Enums -/

namespace Production

variable {P : Insertion}

instance : Tracks P enumInitializer enumInitializer enumInitializer := by
  unfold enumInitializer
  refine @Tracks.bind _ _ _ _ _ _ _ _ _ _ fun negative =>
    @Tracks.bind _ _ _ _ _ _ _ _ _ _ fun t => ?_
  split <;> infer_instance

instance (isFirst : Bool) (counter : Int) : Tracks P (enumMember isFirst counter)
    (enumMember isFirst counter) (enumMember isFirst counter) := by
  unfold enumMember
  dsimp only
  refine @Tracks.bind _ _ _ _ _ _ _ _ _ _ fun name => @Tracks.bind _ _ _ _ _ _ _ _ _ _ fun b => ?_
  refine @Tracks.ite _ _ _ _ _ _ _ _ _ _ (@Tracks.bind _ _ _ _ _ _ _ _ _ _ fun initializer => ?_) _
  split
  · split <;> infer_instance
  · infer_instance

instance : Tracks P enumMembers enumMembers enumMembers := by
  unfold enumMembers
  infer_instance

instance (exported : Bool) : Tracks P (enumDeclaration exported) (enumDeclaration exported)
    (enumDeclaration exported) := by
  unfold enumDeclaration
  infer_instance

end Production

end ScriptFront
