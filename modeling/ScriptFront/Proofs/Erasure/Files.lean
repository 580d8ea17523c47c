import ScriptFront.Proofs.Erasure.Avoiding
import ScriptFront.Proofs.Production.FilesRead

/-!
# Files beside an insertion
-/

namespace ScriptFront

namespace Production

variable {P : Insertion}

instance : Tracks P importDeclaration importDeclaration importDeclaration := by
  unfold importDeclaration
  refine @Tracks.bind _ _ _ _ _ _ _ _ _ _ fun keyword => @Tracks.bind _ _ _ _ _ _ _ _ _ _ fun kind => ?_
  split <;> infer_instance

/-- Where nothing but a declaration may stand, the name after its word is read with it. -/
theorem Tracks.startsDeclaration_ite {α : Type} {r rq r' s sq s' : Production α} (w : String)
    [hr : Tracks P r rq r'] [hs : Fails s] [hclears : Clears P 1 r rq r'] :
    Tracks P (do if ← asks (Cursor.startsDeclaration w) then r else s)
      (do if ← asks (Cursor.startsDeclaration w) then rq else sq)
      (do if ← asks (Cursor.startsDeclaration w) then r' else s') := by
  refine .asks_bind_clears (n := 1) (fun hc => ?_) fun _ front _ hne => ?_
  · unfold Cursor.startsDeclaration
    rw [hc.peek, hc.peekNth]
  · obtain ⟨t, front, rfl⟩ := List.exists_cons_of_ne_nil hne
    cases front with
    | cons u front => exact .inl rfl
    | nil => exact .inr ⟨Nat.le_refl 1, inferInstance⟩

end Production

namespace Grammar

open Production Slot

variable {P : Insertion} {g gq g' : Grammar} [hp : g.Progress] [hg : Sides P g gq g']

/-! ## Declarations of a file -/

theorem exportDeclaration_sides :
    Tracks P g.exportDeclaration gq.exportDeclaration g'.exportDeclaration ∧
    Clears P 1 g.exportDeclaration gq.exportDeclaration g'.exportDeclaration := by
  have halias : Clears P 1 (typeAlias g.type) (typeAlias gq.type) (typeAlias g'.type) := typeAlias_clears
  unfold exportDeclaration
  refine ⟨@Tracks.bind _ _ _ _ _ _ _ _ _ _ fun _ => ?_,
    @Clears.bind_reads _ _ _ _ _ _ _ _ _ _ _ (fun _ => ?_) fun _ => @Clears.of_tracks _ _ _ _ _ ?_⟩
  all_goals
    refine @Tracks.bind _ _ _ _ _ _ _ _ _ _ fun t => ?_
    split
    case h_8 => exact Tracks.startsDeclaration_ite _
    all_goals infer_instance

instance : Tracks P g.exportDeclaration gq.exportDeclaration g'.exportDeclaration :=
  exportDeclaration_sides.1

instance : Clears P 1 g.exportDeclaration gq.exportDeclaration g'.exportDeclaration :=
  exportDeclaration_sides.2

instance : Tracks P g.globalDeclaration gq.globalDeclaration g'.globalDeclaration := by
  unfold globalDeclaration
  refine @Tracks.bind _ _ _ _ _ _ _ _ _ _ fun kind => ?_
  split
  case h_7 =>
    have halias : Clears P 1 (typeAlias g.type) (typeAlias gq.type) (typeAlias g'.type) := typeAlias_clears
    exact Tracks.startsDeclaration_ite _
  all_goals infer_instance

omit hp in
theorem globalBlock_sides : Tracks P g.globalBlock gq.globalBlock g'.globalBlock ∧
    Clears P 1 g.globalBlock gq.globalBlock g'.globalBlock := by
  unfold globalBlock
  dsimp only
  refine ⟨@Tracks.bind _ _ _ _ _ _ _ _ _ _ fun _ => ?_,
    @Clears.bind_reads _ _ _ _ _ _ _ _ _ _ _ (fun _ => ?_) fun _ => @Clears.of_tracks _ _ _ _ _ ?_⟩
  all_goals
    refine @Tracks.bind _ _ _ _ _ _ _ _ _ _ fun t => @Tracks.ite _ _ _ _ _ _ _ _ _ _ inferInstance
      (@Tracks.ite _ _ _ _ _ _ _ _ _ _ inferInstance (@Tracks.bind _ _ _ _ _ _ _ _ _ _ fun _ =>
        @Tracks.bind _ _ _ _ _ _ _ _ _ _ fun _ => @Tracks.loop _ _ _ _ _ _ (fun decls => ?_) _))
    refine @Tracks.bind _ _ _ _ _ _ _ _ _ _ fun closed => @Tracks.ite _ _ _ _ _ _ _ _ _ _ inferInstance
      (@Tracks.bind _ _ _ _ _ _ _ _ _ _ fun s => ?_)
    cases s <;> infer_instance

instance : Tracks P g.globalBlock gq.globalBlock g'.globalBlock := globalBlock_sides.1

instance : Clears P 1 g.globalBlock gq.globalBlock g'.globalBlock := globalBlock_sides.2

/-! ## Constructs of a file -/

omit hp hg in
/-- The attributes are settled without a look at the tokens. -/
instance (d : Draft) (p : Position) : Tracks P (settled d p) (settled d p) (settled d p) := by
  cases hsettle : d.attributes.settle p d.started with
  | ok run =>
    have heq : settled d p = pure { d with attributes := run } := by
      funext ctx c
      unfold settled
      rw [hsettle]
      rfl
    rw [heq]
    infer_instance
  | error e =>
    have : Fails (settled d p) := by
      refine ⟨fun {ctx c r} hok => ?_⟩
      unfold settled at hok
      rw [hsettle] at hok
      cases hok
    infer_instance

omit hp hg in
instance (d : Draft) (p : Position) {r rq r' : Production (Option Stmt)} [Tracks P r rq r'] :
    Tracks P (attributed d p r) (attributed d p rq) (attributed d p r') := by
  unfold attributed
  dsimp only
  refine @Tracks.bind _ _ _ _ _ _ _ _ _ _ fun s => ?_
  cases s <;> infer_instance

omit hp hg in
theorem attributed_clears (d : Draft) (p : Position) {r rq r' : Production (Option Stmt)} {n : Nat}
    [Clears P n r rq r'] :
    Clears P n (attributed d p r) (attributed d p rq) (attributed d p r') := by
  unfold attributed
  dsimp only
  refine @Clears.bind_left _ _ _ _ _ _ _ _ _ _ _ fun s => ?_
  cases s <;> infer_instance

instance [g.Brackets] (d : Draft) (p : Position) :
    Tracks P (construct.other g d p) (construct.other gq d p) (construct.other g' d p) := by
  unfold construct.other
  infer_instance

omit hp hg in
/-- What is exported with attributes is told from the word behind `export`, which is read. -/
theorem exportsAttributed_ite {α : Type} {r rq r' s sq s' : Production α} [hr : Tracks P r rq r']
    [hs : Tracks P s sq s'] (htrue : Clears P 1 r rq r') :
    Tracks P (do if ← asks Cursor.exportsAttributed then r else s)
      (do if ← asks Cursor.exportsAttributed then rq else sq)
      (do if ← asks Cursor.exportsAttributed then r' else s') := by
  refine .asks_bind_clears (n := 1) (fun hc => ?_) fun _ front _ hne => ?_
  · unfold Cursor.exportsAttributed
    rw [hc.peekNth]
  · obtain ⟨t, front, rfl⟩ := List.exists_cons_of_ne_nil hne
    cases front with
    | cons u front => exact .inl rfl
    | nil =>
      have hwithin : (P.within [t]).exportsAttributed = false := by
        unfold Cursor.exportsAttributed
        rw [show (P.within [t]).peekNth 1 = P.opening.token from rfl]
        rcases P.opening_kind with hcolon | hword
        · rw [hcolon]
        · rw [Insertion.opening_identifier hword]
      cases hwithout : (P.without [t]).exportsAttributed with
      | false => exact .inl hwithin.symm
      | true => exact .inr ⟨Nat.le_refl 1, htrue⟩

instance [g.Brackets] (d : Draft) (t : Token) :
    TracksBut P declarationWords (g.construct d t) (gq.construct d t) (g'.construct d t) := by
  unfold construct
  split
  case h_4 =>
    refine @TracksBut.of_tracks _ _ _ _ _ _ (@exportsAttributed_ite _ _ _ _ _ _ _ _ _ ?_ ?_)
    · refine @Tracks.bind _ _ _ _ _ _ _ _ _ _ fun d => @Tracks.bind _ _ _ _ _ _ _ _ _ _ fun s => ?_
      cases s <;> infer_instance
    · exact attributed_clears d t.position
  case h_6 =>
    have halias : Clears P 1 (typeAlias g.type) (typeAlias gq.type) (typeAlias g'.type) := typeAlias_clears
    refine @TracksBut.startsDeclaration_ite _ _ _ _ (by decide) _ _ _ _ _ _ _ ?_ _
    refine @TracksBut.startsDeclaration_ite _ _ _ _ (by decide) _ _ _ _ _ _ _ ?_ _
    exact TracksBut.startsDeclaration_ite (by decide)
  all_goals infer_instance

/-- Everything up to the end of the file, read beside an insertion. -/
theorem constructs_tracks [g.Brackets] : Tracks P g.constructs (P.slot.constructs g gq) g'.constructs := by
  have hattributes : Tracks P (asks Cursor.attributes) (asks Cursor.attributes) (asks Cursor.attributes) := by
    refine .of_looks (h := fun _ => Cursor.attributes) (fun _ _ => rfl) (fun _ _ front _ hne => ?_)
      fun _ _ _ hc => hc.attributes
    obtain ⟨s, front, rfl⟩ := List.exists_cons_of_ne_nil hne
    rfl
  have hconstruct (d : Draft) (t : Token) : Tracks P (g.construct d t)
      (P.slot.behind declarationWords (g.construct d t) (gq.construct d t)) (g'.construct d t) := by
    have hbut : TracksBut P declarationWords (g.construct d t) (gq.construct d t) (g'.construct d t) :=
      inferInstance
    exact hbut.tracks inferInstance
  unfold constructs Slot.constructs constructsOf
  dsimp only
  infer_instance

/-- A file that the avoiding grammar refuses is read with the insertion as without it, unless it is nested
too deep for what is inserted. -/
theorem constructs_inserted {n m : Nat} (hreads : ∀ k, m ≤ k → ReadsInserted P (ofDepth k).type)
    {ctx : Context} {d : Draft} {e : Cursor}
    (hok : (ofDepth n).constructs ctx (P.without P.before) = .ok (d, e))
    (hasked : ∀ r, P.slot.constructs (ofDepth n) (avoiding P.slot n) ctx (P.without P.before) ≠ .ok r) :
    EndsLike ((ofDepth (n + m)).constructs ctx (P.within P.before)) d e ∨
      TooDeep ((ofDepth (n + m)).constructs ctx (P.within P.before)) := by
  have hsides : Sides P (ofDepth n) (avoiding P.slot n) (ofDepth (n + m)) := sides_avoiding hreads
  have htracks : Tracks P (ofDepth n).constructs (P.slot.constructs (ofDepth n) (avoiding P.slot n))
      (ofDepth (n + m)).constructs := constructs_tracks
  by_cases hnil : P.before = []
  · rw [hnil] at hok hasked
    exact absurd (htracks.passes.passes hok).2 (hasked _)
  · cases htracks.before (List.suffix_refl _) hnil hok with
    | before _ _ _ hrefused _ => exact absurd hrefused (hasked _)
    | missed _ _ _ hrefused => exact absurd hrefused (hasked _)
    | visited _ _ _ _ hinserted => exact hinserted

end Grammar

end ScriptFront
