import ScriptFront.Production.Statement
import ScriptFront.Proofs.Production.Reads

/-!
# The rules of a switch

Three things are asked of the blocks of a switch: no two of them are labelled with the same constant, no
two are defaults, and control does not run from the end of one into the next. The first two are checked
while the blocks are read and the last one behind them. `Grammar.writtenSwitch` reads a switch and checks
nothing; a switch is accepted just when it is read so and keeps the rules.
-/

namespace ScriptFront

/-! ## The rules -/

/-- The statements that end in a jump. -/
inductive Stmt.IsJump : Stmt → Prop where
  | breaks (p : Position) (label : Option String) : IsJump (.breaks p label)
  | continues (p : Position) (label : Option String) : IsJump (.continues p label)
  | returns (p : Position) (value : Option Expr) : IsJump (.returns p value)
  | throws (p : Position) (value : Expr) : IsJump (.throws p value)

namespace CaseBlock

/-- The constant that labels the block, if it is one. -/
def constant? (b : CaseBlock) : Option (ConstantKind × String) :=
  match b.label with
  | some (.constant _ kind value) => some (kind, value)
  | _ => none

/-- Whether two blocks may stand in one switch as far as their labels go. -/
structure Differs (a b : CaseBlock) : Prop where
  constants : a.constant? = none ∨ a.constant? ≠ b.constant?
  defaults : ¬(a.label = none ∧ b.label = none)

/-- Whether the block is empty or its last statement jumps. -/
def Ends (b : CaseBlock) : Prop :=
  b.statements = [] ∨ ∃ s, b.statements.getLast? = some s ∧ s.IsJump

end CaseBlock

/-- What is asked of the blocks of a switch in source order. -/
structure SwitchRules (blocks : List CaseBlock) : Prop where
  differ : blocks.Pairwise CaseBlock.Differs
  ends : ∀ b ∈ blocks.dropLast, b.Ends

/-! ## The checks -/

theorem Stmt.isControlTransfer_iff (s : Stmt) : s.isControlTransfer = true ↔ s.IsJump := by
  constructor
  · intro h
    cases s with
    | breaks p label => exact .breaks p label
    | continues p label => exact .continues p label
    | returns p value => exact .returns p value
    | throws p value => exact .throws p value
    | _ => cases h
  · intro h
    cases h <;> rfl

namespace CaseBlock

theorem isDefault_iff (b : CaseBlock) : b.isDefault = true ↔ b.label = none := Option.isNone_iff_eq_none

theorem isFor_iff (b : CaseBlock) (kind : ConstantKind) (value : String) :
    b.isFor kind value = true ↔ b.constant? = some (kind, value) := by
  unfold isFor constant?
  rcases b.label with - | e
  · simp
  · cases e <;> simp

theorem fallsThrough_iff (b : CaseBlock) : b.fallsThrough = true ↔ ¬b.Ends := by
  unfold fallsThrough Ends
  cases hlast : b.statements.getLast? with
  | none => simp [List.getLast?_eq_none_iff.1 hlast]
  | some s =>
    have hne : b.statements ≠ [] := by
      intro hnil
      rw [hnil] at hlast
      cases hlast
    simp [hne, ← Stmt.isControlTransfer_iff]

theorem Differs.symm {a b : CaseBlock} (h : a.Differs b) : b.Differs a where
  constants := by
    by_cases hb : b.constant? = none
    · exact .inl hb
    · refine .inr fun heq => ?_
      rcases h.constants with ha | hne
      · exact hb (heq.trans ha)
      · exact hne heq.symm
  defaults := fun hnone => h.defaults hnone.symm

/-- A labelled block differs from the ones that have no label of the same constant. -/
theorem differs_of_label {b : CaseBlock} {before : List CaseBlock} (hlabel : b.label ≠ none) :
    (∀ a ∈ before, b.Differs a) ↔
      ∀ kind value, b.constant? = some (kind, value) → before.any (·.isFor kind value) = false := by
  constructor
  · intro h kind value hconstant
    rw [List.any_eq_false]
    intro a ha hfor
    rw [isFor_iff] at hfor
    rcases (h a ha).constants with hnone | hne
    · rw [hconstant] at hnone
      cases hnone
    · exact hne (hconstant.trans hfor.symm)
  · intro h a ha
    refine ⟨?_, fun hnone => hlabel hnone.1⟩
    cases hconstant : b.constant? with
    | none => exact .inl rfl
    | some constant =>
      refine .inr fun heq => ?_
      have hany := List.any_eq_false.1 (h constant.1 constant.2 hconstant) a ha
      exact hany ((a.isFor_iff _ _).2 heq.symm)

theorem differs_of_default {b : CaseBlock} {before : List CaseBlock} (hlabel : b.label = none) :
    (∀ a ∈ before, b.Differs a) ↔ before.any (·.isDefault) = false := by
  have hconstant : b.constant? = none := by
    unfold constant?
    rw [hlabel]
  simp only [List.any_eq_false, isDefault_iff]
  constructor
  · intro h a ha hnone
    exact (h a ha).defaults ⟨hlabel, hnone⟩
  · intro h a ha
    exact ⟨.inl hconstant, fun hnone => h a ha hnone.2⟩

end CaseBlock

namespace Grammar

open Production

variable (g : Grammar)

/-! ## Switches as they are written -/

/-- The case or default block here, if there is one, whatever stands before it. -/
def writtenBlock : Production (Option CaseBlock) := do
  let t ← peek
  match t.kind with
  | .keyword .caseWord =>
    discard next
    let label ← g.expression
    discard (accept (.mark .colon))
    return some ⟨t.position, some label, ← g.caseStatements t.position⟩
  | .keyword .defaultWord =>
    discard next
    discard (accept (.mark .colon))
    return some ⟨t.position, none, ← g.caseStatements t.position⟩
  | _ => return none

/-- A round of reading blocks, behind those in `before`, backwards. -/
def blockTurn (block : List CaseBlock → Production (Option CaseBlock)) (before : List CaseBlock) :
    Production (Turn (List CaseBlock) (List CaseBlock)) := do
  match ← block before with
  | some b => return .again (b :: before)
  | none => return .done before.reverse

def writtenBlocks : Production (List CaseBlock) := do
  let blocks ← loop (blockTurn fun _ => g.writtenBlock) []
  discard (accept (.mark .closeBrace))
  return blocks

/-- A switch with its blocks in source order. -/
structure Written where
  position : Position
  subject : Expr
  blocks : List CaseBlock

def Written.stmt (w : Written) : Stmt :=
  .switch w.position w.subject (w.blocks.filter (!·.isDefault)) (w.blocks.find? (·.isDefault))

def writtenSwitch : Production Written := do
  let keyword ← accept (.keyword .switchWord)
  let subject ← g.condition
  discard (accept (.mark .openBrace))
  return ⟨keyword.position, subject, ← g.writtenBlocks⟩

/-! ## Blocks with their checks -/

variable {g} {ctx : Context} {c d : Cursor}

/-- Whether a switch is refused for the rules that it breaks. -/
def IsSwitchError (e : Error) : Prop := e.cause = .fallthrough ∨ ∃ value, e.cause = .duplicateCase value

section NoBlock

variable (hcase : c.peek.kind ≠ .keyword .caseWord) (hdefault : c.peek.kind ≠ .keyword .defaultWord)
include hcase hdefault

theorem writtenBlock_none : g.writtenBlock ctx c = .ok (none, c) := by
  unfold writtenBlock
  rw [run_peek_bind]
  generalize c.peek.kind = kind at hcase hdefault ⊢
  split
  · exact absurd rfl hcase
  · exact absurd rfl hdefault
  · rfl

theorem caseBlock_none (before : List CaseBlock) : g.caseBlock before ctx c = .ok (none, c) := by
  unfold caseBlock
  rw [run_peek_bind]
  generalize c.peek.kind = kind at hcase hdefault ⊢
  split
  · exact absurd rfl hcase
  · exact absurd rfl hdefault
  · rfl

end NoBlock

/-- A block that is read with its checks is read without them. -/
theorem writtenBlock_of_ok {before : List CaseBlock} {b : Option CaseBlock}
    (h : g.caseBlock before ctx c = .ok (b, d)) : g.writtenBlock ctx c = .ok (b, d) := by
  by_cases hcase : c.peek.kind = .keyword .caseWord
  · unfold caseBlock at h
    unfold writtenBlock
    rw [run_peek_bind, hcase] at h ⊢
    dsimp only at h ⊢
    rw [run_discard_next_bind] at h ⊢
    obtain ⟨label, c₁, hlabel, h⟩ := bind_ok.1 h
    rw [run_bind_of_ok hlabel]
    obtain ⟨_, c₂, hcolon, h⟩ := bind_ok.1 h
    rw [run_bind_of_ok hcolon]
    cases label with
    | constant p kind value =>
      dsimp only at h
      split at h
      · obtain ⟨_, _, hfail, -⟩ := bind_ok.1 h
        cases hfail
      · exact h
    | _ => exact h
  · by_cases hdefault : c.peek.kind = .keyword .defaultWord
    · unfold caseBlock at h
      unfold writtenBlock
      rw [run_peek_bind, hdefault] at h ⊢
      dsimp only at h ⊢
      rw [run_discard_next_bind] at h ⊢
      split at h
      · obtain ⟨_, _, hfail, -⟩ := bind_ok.1 h
        cases hfail
      · exact h
    · rw [caseBlock_none hcase hdefault] at h
      rw [writtenBlock_none hcase hdefault]
      exact h

/-- A block that is read without checks is read with them if it differs from the ones before it. -/
theorem caseBlock_of_written (before : List CaseBlock) {b : CaseBlock}
    (h : g.writtenBlock ctx c = .ok (some b, d)) :
    ((∀ a ∈ before, b.Differs a) → g.caseBlock before ctx c = .ok (some b, d)) ∧
      (¬(∀ a ∈ before, b.Differs a) →
        ∃ value, g.caseBlock before ctx c = .error ⟨.duplicateCase value, b.position⟩) := by
  by_cases hcase : c.peek.kind = .keyword .caseWord
  · unfold writtenBlock at h
    unfold caseBlock
    rw [run_peek_bind, hcase] at h ⊢
    dsimp only at h ⊢
    rw [run_discard_next_bind] at h ⊢
    obtain ⟨label, c₁, hlabel, h⟩ := bind_ok.1 h
    rw [run_bind_of_ok hlabel]
    obtain ⟨_, c₂, hcolon, h⟩ := bind_ok.1 h
    rw [run_bind_of_ok hcolon]
    have hb : b.position = c.peek.position ∧ b.label = some label := by
      obtain ⟨_, _, _, hpure⟩ := bind_ok.1 h
      cases hpure
      exact ⟨rfl, rfl⟩
    rw [CaseBlock.differs_of_label (by rw [hb.2]; simp)]
    cases label with
    | constant p kind value =>
      have hconstant : b.constant? = some (kind, value) := by
        unfold CaseBlock.constant?
        rw [hb.2]
      dsimp only
      by_cases hany : before.any (·.isFor kind value) = true
      · rw [if_pos hany]
        refine ⟨fun hdiffers => ?_, fun _ => ⟨value, ?_⟩⟩
        · rw [hdiffers kind value hconstant] at hany
          cases hany
        · rw [hb.1]
          rfl
      · rw [if_neg hany]
        refine ⟨fun _ => h, fun hsame => ?_⟩
        refine absurd (fun k v hkv => ?_) hsame
        cases hconstant.symm.trans hkv
        exact Bool.eq_false_iff.2 hany
    | _ =>
      refine ⟨fun _ => h, fun hsame => absurd (fun k v hkv => ?_) hsame⟩
      unfold CaseBlock.constant? at hkv
      rw [hb.2] at hkv
      cases hkv
  · by_cases hdefault : c.peek.kind = .keyword .defaultWord
    · unfold writtenBlock at h
      unfold caseBlock
      rw [run_peek_bind, hdefault] at h ⊢
      dsimp only at h ⊢
      rw [run_discard_next_bind] at h ⊢
      have hb : b.position = c.peek.position ∧ b.label = none := by
        obtain ⟨_, _, _, hrest⟩ := bind_ok.1 h
        obtain ⟨_, _, _, hpure⟩ := bind_ok.1 hrest
        cases hpure
        exact ⟨rfl, rfl⟩
      rw [CaseBlock.differs_of_default hb.2]
      by_cases hany : before.any (·.isDefault) = true
      · rw [if_pos hany]
        refine ⟨fun hdiffers => ?_, fun _ => ⟨"default", ?_⟩⟩
        · rw [hdiffers] at hany
          cases hany
        · rw [hb.1]
          rfl
      · rw [if_neg hany]
        exact ⟨fun _ => h, fun hsame => absurd (Bool.eq_false_iff.2 hany) hsame⟩
    · rw [writtenBlock_none hcase hdefault] at h
      cases h

theorem caseBlock_of_writtenNone (before : List CaseBlock)
    (h : g.writtenBlock ctx c = .ok (none, d)) : g.caseBlock before ctx c = .ok (none, d) := by
  by_cases hcase : c.peek.kind = .keyword .caseWord
  · unfold writtenBlock at h
    rw [run_peek_bind, hcase] at h
    dsimp only at h
    rw [run_discard_next_bind] at h
    obtain ⟨_, _, _, h⟩ := bind_ok.1 h
    obtain ⟨_, _, _, h⟩ := bind_ok.1 h
    obtain ⟨_, _, _, hpure⟩ := bind_ok.1 h
    cases hpure
  · by_cases hdefault : c.peek.kind = .keyword .defaultWord
    · unfold writtenBlock at h
      rw [run_peek_bind, hdefault] at h
      dsimp only at h
      rw [run_discard_next_bind] at h
      obtain ⟨_, _, _, h⟩ := bind_ok.1 h
      obtain ⟨_, _, _, hpure⟩ := bind_ok.1 h
      cases hpure
    · rw [writtenBlock_none hcase hdefault] at h
      rw [caseBlock_none hcase hdefault]
      exact h

/-! ## All blocks -/

section Blocks

variable {q : List CaseBlock → Production (Option CaseBlock)} {before blocks : List CaseBlock}
  {s : Stop} {rounds : List Stop}

theorem blocks_done (h : q before ctx c = .ok (none, d)) :
    loopFrom (blockTurn q) (s :: rounds) before ctx c = .ok (before.reverse, d) := by
  have hturn : blockTurn q before ctx c = .ok (.done before.reverse, d) := run_bind_of_ok h
  rw [loopFrom, run_bind_of_ok hturn]
  rfl

theorem blocks_again {b : CaseBlock} (h : q before ctx c = .ok (some b, d)) :
    loopFrom (blockTurn q) (s :: rounds) before ctx c =
      loopFrom (blockTurn q) rounds (b :: before) ctx d := by
  have hturn : blockTurn q before ctx c = .ok (.again (b :: before), d) := run_bind_of_ok h
  rw [loopFrom, run_bind_of_ok hturn]

theorem blocks_failed {e : Error} (h : q before ctx c = .error e) :
    loopFrom (blockTurn q) (s :: rounds) before ctx c = .error e := by
  rw [loopFrom]
  exact run_bind_of_error (run_bind_of_error h)

/-- Blocks are added behind the ones that are there. -/
theorem prefix_blocks (h : loopFrom (blockTurn q) rounds before ctx c = .ok (blocks, d)) :
    before.reverse <+: blocks := by
  induction rounds generalizing before c with
  | nil => cases h
  | cons s rounds ih =>
    cases hblock : q before ctx c with
    | error e =>
      rw [blocks_failed hblock] at h
      cases h
    | ok r =>
      obtain ⟨b, c'⟩ := r
      cases b with
      | none =>
        rw [blocks_done hblock] at h
        cases h
        exact List.prefix_refl _
      | some b =>
        rw [blocks_again hblock] at h
        have hprefix := ih h
        rw [List.reverse_cons] at hprefix
        exact (List.prefix_append _ _).trans hprefix

end Blocks

/-- Blocks that are read with their checks are read without them. -/
theorem written_of_blocks {rounds : List Stop} {before blocks : List CaseBlock}
    (h : loopFrom (blockTurn g.caseBlock) rounds before ctx c = .ok (blocks, d)) :
    loopFrom (blockTurn fun _ => g.writtenBlock) rounds before ctx c = .ok (blocks, d) := by
  induction rounds generalizing before c with
  | nil => cases h
  | cons s rounds ih =>
    cases hblock : g.caseBlock before ctx c with
    | error e =>
      rw [blocks_failed hblock] at h
      cases h
    | ok r =>
      obtain ⟨b, c'⟩ := r
      have hwritten := writtenBlock_of_ok hblock
      cases b with
      | none =>
        rw [blocks_done hblock] at h
        rwa [blocks_done (q := fun _ => g.writtenBlock) hwritten]
      | some b =>
        rw [blocks_again hblock] at h
        rw [blocks_again (q := fun _ => g.writtenBlock) hwritten]
        exact ih h

/-- Blocks that are read without checks are read with them if their labels differ. -/
theorem blocks_of_written {rounds : List Stop} {before blocks : List CaseBlock}
    (hbefore : before.Pairwise CaseBlock.Differs)
    (h : loopFrom (blockTurn fun _ => g.writtenBlock) rounds before ctx c = .ok (blocks, d)) :
    (blocks.Pairwise CaseBlock.Differs →
      loopFrom (blockTurn g.caseBlock) rounds before ctx c = .ok (blocks, d)) ∧
    (¬blocks.Pairwise CaseBlock.Differs → ∃ value p,
      loopFrom (blockTurn g.caseBlock) rounds before ctx c = .error ⟨.duplicateCase value, p⟩) := by
  induction rounds generalizing before c with
  | nil => cases h
  | cons s rounds ih =>
    cases hblock : g.writtenBlock ctx c with
    | error e =>
      rw [blocks_failed (q := fun _ => g.writtenBlock) hblock] at h
      cases h
    | ok r =>
      obtain ⟨b, c'⟩ := r
      cases b with
      | none =>
        rw [blocks_done (q := fun _ => g.writtenBlock) hblock] at h
        cases h
        refine ⟨fun _ => blocks_done (caseBlock_of_writtenNone before hblock), fun hsame => ?_⟩
        exact absurd (List.pairwise_reverse.2 (hbefore.imp CaseBlock.Differs.symm)) hsame
      | some b =>
        rw [blocks_again (q := fun _ => g.writtenBlock) hblock] at h
        obtain ⟨hdiffer, hsame⟩ := caseBlock_of_written before hblock
        by_cases hb : ∀ a ∈ before, b.Differs a
        · rw [blocks_again (hdiffer hb)]
          exact ih (List.pairwise_cons.2 ⟨hb, hbefore⟩) h
        · obtain ⟨value, hfail⟩ := hsame hb
          refine ⟨fun hblocks => absurd (fun a ha => ?_) hb, fun _ => ⟨value, _, blocks_failed hfail⟩⟩
          have hpair := hblocks.sublist (prefix_blocks h).sublist
          rw [List.pairwise_reverse, List.pairwise_cons] at hpair
          exact (hpair.1 a ha).symm

/-! ## The whole switch -/

/-- The check behind the last block finds the blocks that control leaves at their end. -/
theorem find?_fallsThrough_eq_none {blocks : List CaseBlock} :
    blocks.dropLast.find? (·.fallsThrough) = none ↔ ∀ b ∈ blocks.dropLast, b.Ends := by
  simp only [List.find?_eq_none, CaseBlock.fallsThrough_iff, Classical.not_not]

/-- A switch that is accepted is read without checks as well, and keeps the rules. -/
theorem writtenSwitch_of_ok {s : Stmt} (h : g.switchStatement ctx c = .ok (s, d)) :
    ∃ w, g.writtenSwitch ctx c = .ok (w, d) ∧ s = w.stmt ∧ SwitchRules w.blocks := by
  unfold switchStatement at h
  obtain ⟨keyword, c₁, hkeyword, h⟩ := bind_ok.1 h
  obtain ⟨subject, c₂, hsubject, h⟩ := bind_ok.1 h
  obtain ⟨_, c₃, hbrace, h⟩ := bind_ok.1 h
  obtain ⟨blocks, c₄, hblocks, h⟩ := bind_ok.1 h
  cases h
  unfold caseBlocks at hblocks
  obtain ⟨read, c₅, hloop, hblocks⟩ := bind_ok.1 hblocks
  obtain ⟨_, c₆, hclose, hblocks⟩ := bind_ok.1 hblocks
  have hwritten := written_of_blocks hloop
  cases hends : read.dropLast.find? (·.fallsThrough) with
  | some b =>
    rw [hends] at hblocks
    cases hblocks
  | none =>
    rw [hends] at hblocks
    cases hblocks
    refine ⟨⟨keyword.position, subject, blocks⟩, ?_, rfl, ?_, find?_fallsThrough_eq_none.1 hends⟩
    · unfold writtenSwitch
      rw [run_bind_of_ok hkeyword, run_bind_of_ok hsubject, run_bind_of_ok hbrace]
      have hread : g.writtenBlocks ctx c₃ = .ok (blocks, d) := by
        unfold writtenBlocks
        have hloop' : loop (blockTurn fun _ => g.writtenBlock) [] ctx c₃ = .ok (blocks, c₅) := hwritten
        rw [run_bind_of_ok hloop', run_bind_of_ok hclose]
        rfl
      rw [run_bind_of_ok hread]
      rfl
    · by_cases hdiffer : blocks.Pairwise CaseBlock.Differs
      · exact hdiffer
      · obtain ⟨value, p, herror⟩ := (blocks_of_written .nil hwritten).2 hdiffer
        cases hloop.symm.trans herror

/-- A switch that is read without checks is accepted if it keeps the rules, and refused for breaking them
if it does not. -/
theorem switchStatement_of_written {w : Written} (h : g.writtenSwitch ctx c = .ok (w, d)) :
    (SwitchRules w.blocks → g.switchStatement ctx c = .ok (w.stmt, d)) ∧
      (¬SwitchRules w.blocks → ∃ e, g.switchStatement ctx c = .error e ∧ IsSwitchError e) := by
  unfold writtenSwitch at h
  obtain ⟨keyword, c₁, hkeyword, h⟩ := bind_ok.1 h
  obtain ⟨subject, c₂, hsubject, h⟩ := bind_ok.1 h
  obtain ⟨_, c₃, hbrace, h⟩ := bind_ok.1 h
  obtain ⟨blocks, c₄, hblocks, h⟩ := bind_ok.1 h
  cases h
  unfold writtenBlocks at hblocks
  obtain ⟨read, c₅, hloop, hblocks⟩ := bind_ok.1 hblocks
  obtain ⟨_, c₆, hclose, hblocks⟩ := bind_ok.1 hblocks
  cases hblocks
  obtain ⟨hok, herror⟩ := blocks_of_written .nil hloop
  unfold switchStatement
  rw [run_bind_of_ok hkeyword, run_bind_of_ok hsubject, run_bind_of_ok hbrace]
  by_cases hdiffer : blocks.Pairwise CaseBlock.Differs
  · have hread : loop (blockTurn g.caseBlock) [] ctx c₃ = .ok (blocks, c₅) := hok hdiffer
    have hchecked : g.caseBlocks ctx c₃ =
        (match blocks.dropLast.find? CaseBlock.fallsThrough with
          | some b => fail .fallthrough b.position
          | none => return blocks) ctx d := by
      unfold caseBlocks
      exact (run_bind_of_ok hread).trans (run_bind_of_ok hclose)
    cases hends : blocks.dropLast.find? (·.fallsThrough) with
    | none =>
      rw [hends] at hchecked
      refine ⟨fun _ => run_bind_of_ok hchecked, fun hbroken => ?_⟩
      exact absurd ⟨hdiffer, find?_fallsThrough_eq_none.1 hends⟩ hbroken
    | some b =>
      rw [hends] at hchecked
      refine ⟨fun hrules => ?_, fun _ => ⟨_, run_bind_of_error hchecked, .inl rfl⟩⟩
      rw [find?_fallsThrough_eq_none.2 hrules.ends] at hends
      cases hends
  · obtain ⟨value, p, hfail⟩ := herror hdiffer
    have hread : loop (blockTurn g.caseBlock) [] ctx c₃ = .error ⟨.duplicateCase value, p⟩ := hfail
    have hchecked : g.caseBlocks ctx c₃ = .error ⟨.duplicateCase value, p⟩ := run_bind_of_error hread
    refine ⟨fun hrules => absurd hrules.differ hdiffer, fun _ => ?_⟩
    exact ⟨_, run_bind_of_error hchecked, .inr ⟨value, rfl⟩⟩

end Grammar

end ScriptFront
