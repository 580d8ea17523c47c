import ScriptFront.Production.SourceFile
import ScriptFront.Proofs.Production.StatementsRead

/-!
# What the constructs of a file read

Every construct of a file reads a token at least, so a file has no more constructs than tokens.
-/

namespace ScriptFront

open Production

instance : Consumes importDeclaration := by
  unfold importDeclaration
  refine @Consumes.bind_left _ _ _ _ _ fun keyword => @Advances.bind _ _ _ _ _ fun kind => ?_
  split <;> infer_instance

namespace Grammar

variable {g : Grammar} [g.Progress]

/-- There is something behind the word that exports it. -/
theorem exportDeclaration_reads : Reads (fun _ => 2) g.exportDeclaration := by
  have hvariable : ConsumesInside g.variableStatement := by
    unfold variableStatement
    infer_instance
  have hword : Reads (fun _ => 1) (discard (accept (.keyword .exportWord))) := Consumes.reads
  unfold exportDeclaration
  refine hword.bind fun _ => .peekThen (fun t ht => ?_) fun t => ?_
  · rw [ht]
    exact .failHere _
  · split <;> exact ConsumesInside.reads

instance : Consumes g.exportDeclaration := ⟨exportDeclaration_reads.weaken fun _ => Nat.le_succ 1⟩

instance : Advances g.globalDeclaration := by
  unfold globalDeclaration
  refine @Advances.bind _ _ _ _ _ fun kind => ?_
  split <;> infer_instance

instance : Consumes g.globalBlock := by
  have hbody : Advances (loop (fun (decls : List Stmt) => do
      if ← isAt (.mark .closeBrace) then
        discard next
        return .done decls.reverse
      match ← g.globalDeclaration with
      | some s => return .again (s :: decls)
      | none => return .again decls) []) := by
    refine @Advances.loop _ _ _ (fun decls => @Advances.bind _ _ _ _ _ fun closed =>
      @Advances.ite _ _ _ _ _ inferInstance (@Advances.bind _ _ _ _ _ fun item => ?_)) _
    split <;> infer_instance
  unfold globalBlock
  refine @Consumes.bind_left _ _ _ _ _ fun word => @Advances.bind _ _ _ _ _ fun t => ?_
  infer_instance

instance (d : Draft) (p : Position) : Advances (settled d p) := by
  refine ⟨⟨fun {_ c _ _} _ hok => ?_⟩⟩
  unfold settled at hok
  split at hok
  · cases hok
    exact .refl c
  · cases hok

theorem attributed_reads {d : Draft} {p : Position} {declaration : Production (Option Stmt)} {n : Nat}
    (h : Reads (fun _ => n) declaration) : Reads (fun _ => n) (attributed d p declaration) := by
  unfold attributed
  refine @Reads.bind_left _ _ _ _ _ h fun item => ?_
  split <;> infer_instance

instance (d : Draft) (p : Position) (declaration : Production (Option Stmt))
    [h : Consumes declaration] : Consumes (attributed d p declaration) :=
  ⟨attributed_reads h.reads⟩

instance (d : Draft) (p : Position) : Consumes (construct.other g d p) := by
  unfold construct.other
  infer_instance

instance (d : Draft) (t : Token) : Consumes (g.construct d t) := by
  unfold construct
  split
  case h_4 =>
    refine @Consumes.bind_right _ _ _ _ _ fun isAttributed => @Consumes.ite _ _ _ _ _ inferInstance
      (@Consumes.bind_right _ _ _ _ _ fun d => @Consumes.bind_left _ _ _ _ _ fun item => ?_)
    split <;> infer_instance
  all_goals infer_instance

theorem construct_reads_export {d : Draft} {t : Token} (ht : t.kind = .keyword .exportWord) :
    Reads (fun _ => 2) (g.construct d t) := by
  unfold construct
  rw [ht]
  refine .bind_right fun isAttributed => ?_
  by_cases h : isAttributed = true
  · rw [if_pos h]
    exact attributed_reads exportDeclaration_reads
  · rw [if_neg h]
    refine .bind_right fun d => @Reads.bind_left _ _ _ _ _ exportDeclaration_reads fun item => ?_
    split <;> infer_instance

end Grammar

end ScriptFront
