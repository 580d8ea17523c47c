import ScriptFront.Proofs.Path.Directory

/-!
# Relative paths that become rooted

Bringing a relative path into normal form can lay bare a segment that reads like a drive: `./C:/x` becomes
`C:/x`, which is a path on the drive. `StartsOnDrive` tells the paths that this happens to
(`isRooted_normalize_iff`). It takes a segment that is a letter with a colon
(`StartsOnDrive.exists_piece`). Every other relative path leads from a rooted one to the same place before
and after it has been brought into normal form (`along_normalize`).
-/

namespace ScriptFront.Path

/-- Whether a relative path is left with a segment that reads like a drive in front of another one. -/
def StartsOnDrive (p : Path) : Prop :=
  p.root = .relative ∧ ∃ (letter : Char) (name : List Char) (rest : List (List Char)),
    letter.isAlpha = true ∧ p.segments = [letter, ':'] :: name :: rest

/-! ## Rooted texts -/

theorem splitFrom_ne_nil (piece cs : List Char) : splitFrom piece cs ≠ [] := by
  induction cs generalizing piece with
  | nil => exact List.cons_ne_nil _ _
  | cons c cs ih =>
    unfold splitFrom
    split
    · exact List.cons_ne_nil _ _
    · exact ih _

section OnDrive

variable {letter : Char} {name : List Char} {rest : List (List Char)}

/-- What stands behind a drive is a path on it. -/
theorem NormalForm.onDrive (h : NormalForm ⟨.relative, [letter, ':'] :: name :: rest⟩)
    (hletter : letter.isAlpha = true) : NormalForm ⟨.drive letter, name :: rest⟩ := by
  refine ⟨hletter, ?_⟩
  have hall := h.segments
  rw [List.reverse_cons] at hall
  exact hall.behind_name (by simp)

/-- A relative path that is left with a drive in front is written like a path on the drive. -/
theorem NormalForm.toString_onDrive (h : NormalForm ⟨.relative, [letter, ':'] :: name :: rest⟩) :
    toString ⟨.relative, [letter, ':'] :: name :: rest⟩ = toString ⟨.drive letter, name :: rest⟩ := by
  refine congrArg String.ofList ?_
  rw [h.toChars_relative, toChars_rooted (by simp), joinSegments]
  · rfl
  · simp

end OnDrive

theorem NormalForm.isRooted_toString_iff {p : Path} (h : NormalForm p) (hrelative : p.root = .relative) :
    isRooted (toString p) = true ↔ StartsOnDrive p := by
  obtain ⟨root, segments⟩ := p
  obtain rfl : root = .relative := hrelative
  constructor
  · intro hrooted
    refine ⟨rfl, ?_⟩
    cases segments with
    | nil => exact absurd hrooted (by decide)
    | cons first segments =>
      cases hsplit : splitRoot (unifySlashes (toString ⟨.relative, first :: segments⟩).toList) with
      | mk root behind =>
        obtain ⟨heq, hletter⟩ := splitRoot_eq hsplit
        rw [h.unifySlashes_toString, h.toChars_relative] at heq
        unfold isRooted at hrooted
        rw [hsplit] at hrooted
        cases root with
        | relative => cases hrooted
        | slash => exact absurd heq (h.joinSegments_front.2 behind)
        | drive letter =>
          obtain ⟨rfl, hsegments, -⟩ := h.pieces_onDrive hletter heq
          have hne : segments ≠ [] := hsegments ▸ splitFrom_ne_nil [] _
          obtain ⟨name, rest, rfl⟩ := List.exists_cons_of_ne_nil hne
          exact ⟨letter, name, rest, hletter, rfl⟩
  · rintro ⟨-, letter, name, rest, hletter, rfl⟩
    rw [h.toString_onDrive]
    exact ((h.onDrive hletter).segmentsOf_toString (by simp)).1

theorem root_of_isRooted {s : String} (h : isRooted s = false) : (ofString s).root = .relative :=
  Decidable.byContradiction fun hroot => Bool.eq_false_iff.1 h (isRooted_iff.2 hroot)

/-- A path is rooted in normal form if it was rooted before, or is left with a drive in front. -/
theorem isRooted_normalize_iff (s : String) :
    isRooted (normalize s) = true ↔ isRooted s = true ∨ StartsOnDrive (ofString s) := by
  by_cases hroot : (ofString s).root = .relative
  · have hs : ¬ isRooted s = true := fun h => isRooted_iff.1 h hroot
    exact ((ofString_normalForm s).isRooted_toString_iff hroot).trans (or_iff_right hs).symm
  · have hs : isRooted s = true := isRooted_iff.2 hroot
    exact iff_of_true (isRooted_normalize hs) (.inl hs)

/-! ## Pieces and segments -/

theorem mem_of_mem_foldl_resolve {rooted : Bool} {pieces before : List (List Char)} {s : List Char}
    (h : s ∈ pieces.foldl (resolve rooted) before) : s ∈ before ∨ s ∈ pieces := by
  induction pieces generalizing before with
  | nil => exact .inl h
  | cons piece pieces ih =>
    rcases ih h with h | h
    · have hresolve : s ∈ before ∨ s = piece := by
        unfold resolve at h
        split at h
        · exact .inl h
        · split at h
          · split at h
            · split at h
              · exact .inl h
              · exact .inr (List.mem_singleton.1 h)
            · split at h
              · exact .inl (List.mem_cons_of_mem _ h)
              · split at h
                · exact .inl h
                · exact (List.mem_cons.1 h).symm
          · exact (List.mem_cons.1 h).symm
      refine hresolve.imp_right ?_
      rintro rfl
      exact List.mem_cons_self
    · exact .inr (List.mem_cons_of_mem _ h)

theorem ofString_relative {s : String} (h : (ofString s).root = .relative) :
    ofString s =
      ⟨.relative, ((splitFrom [] (unifySlashes s.toList)).foldl (resolve false) []).reverse⟩ := by
  have hsplit : splitRoot (unifySlashes s.toList) = (.relative, unifySlashes s.toList) :=
    splitRoot_relative h
  unfold ofString ofChars
  rw [hsplit]
  rfl

/-- A path is not left with a drive in front unless there is one between its slashes. -/
theorem StartsOnDrive.exists_piece {s : String} (h : StartsOnDrive (ofString s)) :
    ∃ letter : Char, letter.isAlpha = true ∧ [letter, ':'] ∈ splitFrom [] (unifySlashes s.toList) := by
  obtain ⟨hrelative, letter, name, rest, hletter, hsegments⟩ := h
  have hmem : [letter, ':'] ∈ (ofString s).segments := by
    rw [hsegments]
    exact List.mem_cons_self
  rw [ofString_relative hrelative] at hmem
  exact ⟨letter, hletter, (mem_of_mem_foldl_resolve (List.mem_reverse.1 hmem)).resolve_left nofun⟩

/-! ## Going on along a normal form -/

/-- Names are kept in order behind what stands before them. -/
theorem IsNormal.foldl_append {segments : List (List Char)} (h : IsNormal true segments)
    (before : List (List Char)) :
    segments.reverse.foldl (Path.resolve true) before = segments ++ before := by
  induction h with
  | nil => rfl
  | up hrelative => cases hrelative
  | name hname _ ih =>
    rw [List.reverse_cons, List.foldl_append, ih]
    exact hname.resolve_eq true _

/-- From a rooted path on, pieces lead where the segments lead that are left of them. -/
theorem foldl_resolve_resolved {pieces before segments : List (List Char)}
    (h : IsNormal false segments) (hpieces : ∀ piece ∈ pieces, '/' ∉ piece ∧ '\\' ∉ piece) :
    (pieces.foldl (resolve false) segments).reverse.foldl (resolve true) before =
      pieces.foldl (resolve true) (segments.reverse.foldl (resolve true) before) := by
  induction pieces generalizing segments with
  | nil => rfl
  | cons piece pieces ih =>
    obtain ⟨⟨hslash, hbackslash⟩, hpieces⟩ := List.forall_mem_cons.1 hpieces
    rw [List.foldl_cons, List.foldl_cons, ih (h.resolve hslash hbackslash) hpieces]
    refine congrArg (pieces.foldl (resolve true)) ?_
    by_cases hstays : piece = [] ∨ piece = ['.']
    · simp only [resolve, if_pos hstays]
    · -- The piece is pushed, unless it is a move up behind a name.
      have hpush : (piece :: segments).reverse.foldl (resolve true) before =
          resolve true (segments.reverse.foldl (resolve true) before) piece := by
        rw [List.reverse_cons, List.foldl_append]
        rfl
      by_cases hup : piece = ['.', '.']
      · subst hup
        cases h with
        | nil => rfl
        | up _ _ _ => exact hpush
        | @name name segments hname _ =>
          have hpop : resolve false (name :: segments) ['.', '.'] = segments := by
            simp [resolve, hname.notUp]
          have hpop' : ∀ before, resolve true (name :: before) ['.', '.'] = before := by
            simp [resolve, hname.notUp]
          rw [hpop, List.reverse_cons, List.foldl_append, List.foldl_cons, List.foldl_nil,
            hname.resolve_eq, hpop']
      · have hstep : resolve false segments piece = piece :: segments := by
          unfold resolve
          rw [if_neg hstays, if_neg hup]
        rw [hstep]
        exact hpush

theorem not_mem_of_mem_splitFrom {cs piece : List Char} (h : piece ∈ splitFrom [] (unifySlashes cs)) :
    '/' ∉ piece ∧ '\\' ∉ piece :=
  ⟨fun hc => ((mem_of_mem_splitFrom h hc).resolve_left List.not_mem_nil).2 rfl,
    fun hc => backslash_not_mem_unifySlashes cs
      ((mem_of_mem_splitFrom h hc).resolve_left List.not_mem_nil).1⟩

/-- From a rooted path on, a relative path leads where the segments lead that are left of it. -/
theorem along_eq_segments {p : Path} (hrooted : p.root ≠ .relative) {s : String}
    (hs : (ofString s).root = .relative) :
    p.along s.toList =
      ⟨p.root, ((ofString s).segments.foldl (resolve true) p.segments.reverse).reverse⟩ := by
  unfold along
  rw [bne_iff_ne.2 hrooted, ofString_relative hs]
  rw [foldl_resolve_resolved .nil fun _ => not_mem_of_mem_splitFrom]
  rfl

/-- Segments that are written without a root are read as they stand. -/
theorem NormalForm.segments_ofString {p : Path} (h : NormalForm p) (hrelative : p.root = .relative)
    (hs : isRooted (toString p) = false) : (ofString (toString p)).segments = p.segments := by
  obtain ⟨root, segments⟩ := p
  obtain rfl : root = .relative := hrelative
  rw [ofString_relative (root_of_isRooted hs), h.unifySlashes_toString]
  cases segments with
  | nil => decide
  | cons first segments =>
    rw [h.toChars_relative]
    exact h.read_joinSegments

/-- From a rooted path on, a path that stays relative leads to the same place in normal form. -/
theorem along_normalize {p : Path} (hrooted : p.root ≠ .relative) {s : String}
    (hs : isRooted (normalize s) = false) : p.along (normalize s).toList = p.along s.toList := by
  have hbefore : isRooted s = false :=
    Bool.eq_false_iff.2 fun h => Bool.eq_false_iff.1 hs (isRooted_normalize h)
  have hsegments : (ofString (normalize s)).segments = (ofString s).segments :=
    (ofString_normalForm s).segments_ofString (root_of_isRooted hbefore) hs
  rw [along_eq_segments hrooted (root_of_isRooted hs),
    along_eq_segments hrooted (root_of_isRooted hbefore), hsegments]

end ScriptFront.Path
