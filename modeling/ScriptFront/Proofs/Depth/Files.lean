import ScriptFront.Production.SourceFile
import ScriptFront.Proofs.Brackets.Files
import ScriptFront.Proofs.Depth.Statements

/-!
# How many brackets whole texts hold open

In a text that is accepted, as a file or as an expression, no more than a thousand brackets are held open
at any place: at most four for each level of nesting, and a few around them. Keys of indexes, with all that
is written as they are, and cases of switches come on top of that, and they may be nested without limit.
-/

set_option synthInstance.maxSize 4000

namespace ScriptFront

namespace Grammar.Limited

open Production

variable {g : Grammar} [hb : g.Brackets] [hr : g.Progress] [hg : g.Limited] {k : Nat}

/-! ## Declarations of a file -/

omit hb hr hg in
instance importDeclaration : Rises (k + 1) importDeclaration := by
  unfold Production.importDeclaration
  refine @Rises.bind _ _ _ _ _ _ _ fun keyword => @Rises.bind _ _ _ _ _ _ _ fun kind => ?_
  split <;> infer_instance

instance exportDeclaration : Rises (k + 4) g.exportDeclaration := by
  unfold Grammar.exportDeclaration
  refine @Rises.bind _ _ _ _ _ _ _ fun _ => @Rises.bind _ _ _ _ _ _ _ fun t => ?_
  split <;> infer_instance

instance globalDeclaration : Rises (k + 3) g.globalDeclaration := by
  unfold Grammar.globalDeclaration
  refine @Rises.bind _ _ _ _ _ _ _ fun kind => ?_
  split <;> infer_instance

/-- The brace of a global block is closed by its last round. -/
instance globalBlock : Rises (k + 5) g.globalBlock := by
  unfold Grammar.globalBlock
  refine @Rises.bind _ _ _ _ _ _ _ fun _ => @Rises.bind _ _ _ _ _ _ _ fun t => ?_
  have hloop : ∀ u : Unit, Rises (k + 3) (loop (fun (decls : List Stmt) => do
      if ← isAt (.mark .closeBrace) then
        discard next
        return .done decls.reverse
      match ← g.globalDeclaration with
      | some s => return .again (s :: decls)
      | none => return .again decls) []) := by
    intro u
    refine @Rises.loop _ _ _ _ (fun decls => ⟨?_⟩) (fun decls => ?_) _
    · refine .asks (h := fun c => c.isAt (.mark .closeBrace)) fun closed => .ite (fun hclosed => ?_) fun _ => ?_
      · refine (Leaves.drop fun c s hc => ?_).bind fun _ => .looks
        rw [show c.peekKind = .mark .closeBrace from eq_of_beq (hc.2.trans hclosed)]
        rfl
      · refine Leaves.settles.bind fun s => ?_
        cases s <;> exact .looks
    · refine @Rises.bind _ _ _ _ _ _ _ fun closed => @Rises.ite _ _ _ _ _ _ inferInstance ?_
      refine @Rises.bind _ _ _ _ _ _ _ fun s => ?_
      cases s <;> infer_instance
  dsimp only
  infer_instance

/-! ## Constructs of a file -/

omit hb hr hg in
instance settled (d : Draft) (p : Position) : Looks (settled d p) := by
  refine ⟨fun h => ?_⟩
  unfold Grammar.settled at h
  split at h
  · cases h
    rfl
  · cases h

instance other (d : Draft) (p : Position) : Rises (k + 3) (construct.other g d p) := by
  unfold construct.other
  infer_instance

omit hb hr hg in
instance attributed (d : Draft) (p : Position) {declaration : Production (Option Stmt)}
    [Nests declaration] [Rises k declaration] : Rises k (attributed d p declaration) := by
  unfold Grammar.attributed
  dsimp only
  refine @Rises.bind _ _ _ _ _ _ _ fun s => ?_
  cases s <;> infer_instance

instance construct (d : Draft) (t : Token) : Rises (k + 5) (g.construct d t) := by
  unfold Grammar.construct
  split
  · dsimp only
    infer_instance
  · infer_instance
  · infer_instance
  · refine @Rises.bind _ _ _ _ _ _ _ fun isAttributed => @Rises.ite _ _ _ _ _ _ inferInstance ?_
    refine @Rises.bind _ _ _ _ _ _ _ fun d => @Rises.bind _ _ _ _ _ _ _ fun s => ?_
    cases s <;> infer_instance
  · infer_instance
  · infer_instance
  · infer_instance

instance constructs : Rises (k + 5) g.constructs := by
  unfold Grammar.constructs constructsOf
  dsimp only
  infer_instance

instance wholeExpression : Rises k g.wholeExpression := by
  unfold Grammar.wholeExpression
  dsimp only
  infer_instance

end Grammar.Limited

/-! ## Whole texts -/

open Production

/-- The brackets that are open are those that are held and those that are free. -/
theorem Place.length_roles (s : Place) : s.roles.length = s.held + s.roles.count .free := by
  unfold held List.count
  rw [List.length_eq_countP_add_countP (· != Role.free)]
  congr 2
  funext r
  cases r <;> rfl

theorem Production.runOn_held {α : Type} {p : Grammar → Production α} {options : Options}
    {tokens : List Token} {a : α} {source : String} (htokens : Source.tokenize source = .ok tokens)
    (hp : ∀ (g : Grammar) [g.Brackets] [g.Progress] [g.Limited], Rises 5 (p g))
    (hstops : ∀ {g : Grammar} {ctx c a d}, p g ctx c = .ok (a, d) → d.peekKind = .endOfFile)
    (h : runOn p options tokens = .ok a) {ks : List Kind}
    (hks : ks <+: (Token.significant tokens).map (·.kind)) :
    (Place.start.readAll ks).held ≤ 5 * depthLimit := by
  obtain ⟨d, hrun⟩ := runOn_ok h
  have hclosed := (Source.tokenize_at htokens).last
  obtain ⟨_, -, taken, htaken, hwithin, rfl⟩ :=
    (hp _).climbs.passes (s := Place.start) hclosed trivial hrun
  obtain ⟨eof, heof, hsignificant⟩ := Source.significant_of_read htokens htaken (hstops hrun)
  rw [hsignificant, List.map_append, List.map_map] at hks
  have hend := hwithin.back
  have hall := Place.within_append.2 ⟨hwithin, Place.Within.singleton (k := eof.kind) hend
    (Nat.le_trans (Place.held_read_of_not_opens _ (by rw [heof]; rfl)) hend)⟩
  have hroom : Place.start.held + 5 + Context.room ⟨options.optimize, 0⟩ = 805 := rfl
  exact Nat.le_trans (hall.held_le hks) (hroom.trans_le (by decide))

/-- At no place of a text that is accepted as a file or as an expression are more than a thousand brackets
open at once, not counting those of the cases of switches and the square brackets behind what may end an
operand, which those of index keys are among. -/
theorem Source.open_le_of_accepted {source : String} (h : Accepted source) :
    ∃ tokens, tokenize (prepare source) = .ok tokens ∧
      ∀ ks, ks <+: (Token.significant tokens).map (·.kind) →
        ∃ brackets, openBehind [] ks = some brackets ∧
          brackets.length ≤ 5 * depthLimit + (Place.start.readAll ks).roles.count .free := by
  obtain ⟨tokens, htokens, hrun⟩ := h.run
  refine ⟨tokens, htokens, fun ks hks => ?_⟩
  have hheld : (Place.start.readAll ks).held ≤ 5 * depthLimit := by
    obtain ⟨options, d, hrun⟩ | ⟨e, hrun⟩ := hrun
    · exact runOn_held htokens (fun g => Grammar.Limited.constructs) Grammar.Brackets.constructs_stops
        hrun hks
    · exact runOn_held htokens (fun g => Grammar.Limited.wholeExpression)
        Grammar.Brackets.wholeExpression_stops hrun hks
  have hnested : Nested ((Token.significant tokens).map (·.kind)) := by
    obtain ⟨tokens', htokens', hnested⟩ := nested_of_accepted h
    cases htokens.symm.trans htokens'
    exact hnested
  obtain ⟨rest, hrest⟩ := hks
  unfold Nested at hnested
  rw [← hrest, openBehind_append] at hnested
  obtain ⟨brackets, hbrackets, -⟩ := Option.bind_eq_some_iff.1 hnested
  refine ⟨brackets, hbrackets, ?_⟩
  calc brackets.length
      ≤ (Place.start.readAll ks).roles.length := Place.length_le_roles hbrackets
    _ = (Place.start.readAll ks).held + (Place.start.readAll ks).roles.count .free :=
        Place.length_roles _
    _ ≤ 5 * depthLimit + (Place.start.readAll ks).roles.count .free := Nat.add_le_add_right hheld _

/-- The brackets of a call in the key of an index, where one of three is free. -/
theorem Source.open_le_of_accepted_key :
    Accepted "a[f([0])]" ∧ ∃ tokens, tokenize (prepare "a[f([0])]") = .ok tokens ∧
      ∀ ks, ks <+: (Token.significant tokens).map (·.kind) →
        ∃ brackets, openBehind [] ks = some brackets ∧
          brackets.length ≤ 5 * depthLimit + (Place.start.readAll ks).roles.count .free := by
  have hread : (Expr.ofSource "a[f([0])]").toOption.isSome = true := by decide +kernel
  have haccepted : Accepted "a[f([0])]" := by
    cases hexpr : Expr.ofSource "a[f([0])]" with
    | ok e => exact .inr ⟨e, hexpr⟩
    | error e =>
      rw [hexpr] at hread
      cases hread
  exact ⟨haccepted, open_le_of_accepted haccepted⟩

end ScriptFront
