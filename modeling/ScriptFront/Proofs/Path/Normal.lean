import ScriptFront.Proofs.Path

/-!
# Paths in normal form

The segments of a path that has been read are plain names, behind moves up that lead out of a relative
path (`IsNormal`), and segments of this form are read as they stand. So a path that has been brought into
normal form stays as it is (`normalize_normalize`), and so does one that is made absolute twice
(`combine_combine`). The text of a relative path can start like a drive, as `./C:/x` shows: such a text
is read as a path on the drive, which is written in the same way.
-/

namespace ScriptFront.Path

/-! ## Segments -/

/-- Segments in normal form, kept backwards. -/
inductive IsNormal (rooted : Bool) : List (List Char) → Prop
  | nil : IsNormal rooted []
  | up {before : List (List Char)} (hrelative : rooted = false) (hbefore : IsNormal rooted before)
      (hups : ∀ s ∈ before, s = ['.', '.']) : IsNormal rooted (['.', '.'] :: before)
  | name {name : List Char} {before : List (List Char)} (hname : IsPlain name)
      (hbefore : IsNormal rooted before) : IsNormal rooted (name :: before)

namespace IsNormal

variable {rooted : Bool} {before segments : List (List Char)} {piece : List Char}

/-- One more piece keeps the form. -/
theorem resolve (h : IsNormal rooted before) (hslash : '/' ∉ piece) (hbackslash : '\\' ∉ piece) :
    IsNormal rooted (Path.resolve rooted before piece) := by
  unfold Path.resolve
  split
  · exact h
  · next hstays =>
    rw [not_or] at hstays
    split
    · next hup =>
      subst hup
      cases h with
      | nil =>
        cases rooted with
        | true => exact .nil
        | false => exact .up rfl .nil (by simp)
      | up hrelative hbefore hups =>
        subst hrelative
        exact .up rfl (.up rfl hbefore hups) (by simpa using hups)
      | name hname hbefore => simpa [hname.notUp] using hbefore
    · next hup => exact .name ⟨hslash, hbackslash, hstays.1, hstays.2, hup⟩ h

theorem foldl_resolve {pieces : List (List Char)} (h : IsNormal rooted before)
    (hpieces : ∀ piece ∈ pieces, '/' ∉ piece ∧ '\\' ∉ piece) :
    IsNormal rooted (pieces.foldl (Path.resolve rooted) before) := by
  induction pieces generalizing before with
  | nil => exact h
  | cons piece rest ih =>
    rw [List.forall_mem_cons] at hpieces
    exact ih (h.resolve hpieces.1.1 hpieces.1.2) hpieces.2

/-- Segments in normal form are read as they stand. -/
theorem foldl_reverse (h : IsNormal rooted segments) :
    segments.reverse.foldl (Path.resolve rooted) [] = segments := by
  induction h with
  | nil => rfl
  | @up before hrelative _ hups ih =>
    rw [List.reverse_cons, List.foldl_append, ih]
    subst hrelative
    cases before with
    | nil => rfl
    | cons last before =>
      rw [List.forall_mem_cons] at hups
      obtain ⟨rfl, -⟩ := hups
      rfl
  | name hname _ ih =>
    rw [List.reverse_cons, List.foldl_append, ih]
    exact hname.resolve_eq rooted _

theorem not_mem (h : IsNormal rooted segments) {s : List Char} (hs : s ∈ segments) :
    '/' ∉ s ∧ '\\' ∉ s ∧ s ≠ [] := by
  induction h with
  | nil => simp at hs
  | up _ _ _ ih =>
    rcases List.mem_cons.1 hs with rfl | hs
    · decide
    · exact ih hs
  | name hname _ ih =>
    rcases List.mem_cons.1 hs with rfl | hs
    · exact ⟨hname.noSlash, hname.noBackslash, hname.notEmpty⟩
    · exact ih hs

/-- Behind a plain name there are plain names only. -/
theorem behind_name (h : IsNormal rooted (segments ++ [piece])) (hpiece : piece ≠ ['.', '.']) :
    IsNormal true segments := by
  induction segments with
  | nil => exact .nil
  | cons s segments ih =>
    cases h with
    | up _ _ hups => exact absurd (hups piece (by simp)) hpiece
    | name hname hbefore => exact .name hname (ih hbefore)

end IsNormal

/-! ## Pieces between slashes -/

/-- Pieces hold what is split, without the slashes. -/
theorem mem_of_mem_splitFrom {c : Char} {piece cs s : List Char} (hs : s ∈ splitFrom piece cs)
    (hc : c ∈ s) : c ∈ piece ∨ c ∈ cs ∧ c ≠ '/' := by
  induction cs generalizing piece with
  | nil =>
    simp only [splitFrom, List.mem_singleton] at hs
    subst hs
    exact .inl (List.mem_reverse.1 hc)
  | cons d cs ih =>
    unfold splitFrom at hs
    split at hs
    · rcases List.mem_cons.1 hs with rfl | hs
      · exact .inl (List.mem_reverse.1 hc)
      · have hmem := (ih hs).resolve_left List.not_mem_nil
        exact .inr ⟨List.mem_cons_of_mem d hmem.1, hmem.2⟩
    · next hd =>
      rcases ih hs with hmem | ⟨hmem, hne⟩
      · rcases List.mem_cons.1 hmem with rfl | hmem
        · exact .inr ⟨List.mem_cons_self, hd⟩
        · exact .inl hmem
      · exact .inr ⟨List.mem_cons_of_mem d hmem, hne⟩

/-- What is joined with slashes is split at them. -/
theorem splitFrom_joinSegments {segments : List (List Char)} (hne : segments ≠ [])
    (hslash : ∀ s ∈ segments, '/' ∉ s) : splitFrom [] (joinSegments segments) = segments := by
  induction segments with
  | nil => exact absurd rfl hne
  | cons s rest ih =>
    rw [List.forall_mem_cons] at hslash
    cases rest with
    | nil => simpa [joinSegments] using IsPlain.splitFrom_eq hslash.1 []
    | cons t rest =>
      rw [joinSegments, splitFrom_append, ih (by simp) hslash.2, IsPlain.splitFrom_eq hslash.1]
      · rfl
      · simp

theorem not_mem_joinSegments {c : Char} (hc : c ≠ '/') {segments : List (List Char)}
    (h : ∀ s ∈ segments, c ∉ s) : c ∉ joinSegments segments := by
  induction segments with
  | nil => simp [joinSegments]
  | cons s rest ih =>
    rw [List.forall_mem_cons] at h
    cases rest with
    | nil => simpa [joinSegments] using h.1
    | cons t rest =>
      rw [joinSegments]
      · simp [h.1, hc, ih h.2]
      · simp

/-! ## Roots -/

theorem unifySlashes_of_not_mem {cs : List Char} (h : '\\' ∉ cs) : unifySlashes cs = cs := by
  unfold unifySlashes
  refine (List.map_congr_left fun c hc => ?_).trans (List.map_id cs)
  rw [if_neg (ne_of_mem_of_not_mem hc h), id]

theorem backslash_not_mem_unifySlashes (cs : List Char) : '\\' ∉ unifySlashes cs := by
  unfold unifySlashes
  simp only [List.mem_map, not_exists, not_and]
  intro c _
  split
  · decide
  · assumption

/-- Whether a drive is named by a letter. -/
def HasLetter : Root → Prop
  | .drive letter => letter.isAlpha = true
  | _ => True

theorem splitRoot_eq {cs rest : List Char} {root : Root} (h : splitRoot cs = (root, rest)) :
    cs = root.text ++ rest ∧ HasLetter root := by
  unfold splitRoot at h
  split at h
  · cases h
    exact ⟨rfl, trivial⟩
  · split at h
    · next hletter =>
      cases h
      exact ⟨rfl, hletter⟩
    · cases h
      exact ⟨rfl, trivial⟩
  · cases h
    exact ⟨rfl, trivial⟩

theorem splitRoot_text {root : Root} (hroot : HasLetter root) (hne : root ≠ .relative)
    (rest : List Char) : splitRoot (root.text ++ rest) = (root, rest) := by
  cases root with
  | relative => exact absurd rfl hne
  | slash => rfl
  | drive letter =>
    have hletter : letter.isAlpha = true := hroot
    show splitRoot (letter :: ':' :: '/' :: rest) = _
    unfold splitRoot
    split
    · next heq =>
      cases heq
      exact absurd hletter (by decide)
    · next heq =>
      cases heq
      rw [if_pos hletter]
    · next hother => exact absurd rfl (hother letter rest)

theorem text_ne_nil {root : Root} (hne : root ≠ .relative) : root.text ≠ [] := by
  cases root with
  | relative => exact absurd rfl hne
  | slash => exact List.cons_ne_nil _ _
  | drive letter => exact List.cons_ne_nil _ _

/-- A rooted path is written behind its root. -/
theorem toChars_rooted {p : Path} (hrooted : p.root ≠ .relative) :
    toChars p = p.root.text ++ joinSegments p.segments := by
  unfold toChars
  split
  · next hnil => exact absurd (List.append_eq_nil_iff.1 hnil).1 (text_ne_nil hrooted)
  · rfl

theorem backslash_not_mem_text {root : Root} (hroot : HasLetter root) : '\\' ∉ root.text := by
  cases root with
  | relative => exact List.not_mem_nil
  | slash => decide
  | drive letter =>
    have hletter : letter.isAlpha = true := hroot
    have hne : letter ≠ '\\' := by
      rintro rfl
      exact absurd hletter (by decide)
    simp [Root.text, hne.symm]

/-! ## Whole paths -/

/-- What holds of a path that has been read. -/
structure NormalForm (p : Path) : Prop where
  letter : HasLetter p.root
  segments : IsNormal (p.root != .relative) p.segments.reverse

theorem ofChars_normalForm (cs : List Char) : NormalForm (ofChars cs) := by
  cases hsplit : splitRoot (unifySlashes cs) with
  | mk root rest =>
    obtain ⟨heq, hroot⟩ := splitRoot_eq hsplit
    have hbackslash : '\\' ∉ rest := by
      have hall := backslash_not_mem_unifySlashes cs
      rw [heq, List.mem_append, not_or] at hall
      exact hall.2
    have hnormal : IsNormal (root != .relative)
        ((splitFrom [] rest).foldl (resolve (root != .relative)) []) := by
      refine IsNormal.nil.foldl_resolve fun piece hpiece => ⟨fun hc => ?_, fun hc => ?_⟩
      · exact ((mem_of_mem_splitFrom hpiece hc).resolve_left List.not_mem_nil).2 rfl
      · exact hbackslash ((mem_of_mem_splitFrom hpiece hc).resolve_left List.not_mem_nil).1
    unfold ofChars
    rw [hsplit]
    exact ⟨hroot, by rwa [List.reverse_reverse]⟩

namespace NormalForm

variable {p : Path}

theorem not_mem (h : NormalForm p) {s : List Char} (hs : s ∈ p.segments) :
    '/' ∉ s ∧ '\\' ∉ s ∧ s ≠ [] :=
  h.segments.not_mem (List.mem_reverse.2 hs)

theorem backslash_not_mem (h : NormalForm p) : '\\' ∉ toChars p := by
  have htext : '\\' ∉ p.root.text ++ joinSegments p.segments := by
    rw [List.mem_append, not_or]
    exact ⟨backslash_not_mem_text h.letter,
      not_mem_joinSegments (by decide) fun s hs => (h.not_mem hs).2.1⟩
  unfold toChars
  split
  · decide
  · exact htext

theorem splitFrom_segments (h : NormalForm p) (hne : p.segments ≠ []) :
    splitFrom [] (joinSegments p.segments) = p.segments :=
  splitFrom_joinSegments hne fun _ hs => (h.not_mem hs).1

/-- Segments in normal form come back when they are written and read. -/
theorem read_joinSegments (h : NormalForm p) :
    ((splitFrom [] (joinSegments p.segments)).foldl (resolve (p.root != .relative)) []).reverse =
      p.segments := by
  by_cases hnil : p.segments = []
  · rw [hnil]
    rfl
  · rw [h.splitFrom_segments hnil]
    have hfold := h.segments.foldl_reverse
    rw [List.reverse_reverse] at hfold
    rw [hfold, List.reverse_reverse]

/-- A rooted path comes back when it is written and read. -/
theorem ofChars_toChars (h : NormalForm p) (hrooted : p.root ≠ .relative) :
    ofChars (toChars p) = p := by
  have hsplit : splitRoot (unifySlashes (toChars p)) = (p.root, joinSegments p.segments) := by
    rw [unifySlashes_of_not_mem h.backslash_not_mem, toChars_rooted hrooted]
    exact splitRoot_text h.letter hrooted _
  unfold ofChars
  rw [hsplit]
  exact congrArg (Path.mk p.root) h.read_joinSegments

/-- Up to the first slash of a relative path that starts like a drive stands the drive. Behind it stand the
other segments, and these are plain names. -/
theorem pieces_onDrive {letter : Char} {first : List Char} {segments : List (List Char)}
    {behind : List Char} (h : NormalForm ⟨.relative, first :: segments⟩) (hletter : letter.isAlpha = true)
    (htext : joinSegments (first :: segments) = letter :: ':' :: '/' :: behind) :
    first = [letter, ':'] ∧ segments = splitFrom [] behind ∧ IsNormal true segments.reverse := by
  have hslash : '/' ∉ [letter, ':'] := by
    have hne : letter ≠ '/' := by
      rintro rfl
      exact absurd hletter (by decide)
    simp [hne.symm]
  have hpieces : first :: segments = [letter, ':'] :: splitFrom [] behind := by
    have hsplit := h.splitFrom_segments (List.cons_ne_nil first segments)
    rw [show joinSegments (first :: segments) = [letter, ':'] ++ '/' :: behind from htext,
      splitFrom_append, IsPlain.splitFrom_eq hslash] at hsplit
    exact hsplit.symm
  obtain ⟨hfirst, hbehind⟩ := List.cons.inj hpieces
  refine ⟨hfirst, hbehind, ?_⟩
  have hall := h.segments
  rw [List.reverse_cons] at hall
  apply hall.behind_name
  rw [hfirst]
  simp

/-- The text of a relative path that starts like a drive is read as a path on that drive. -/
theorem toChars_onDrive {letter : Char} {first : List Char} {segments : List (List Char)}
    {behind : List Char} (h : NormalForm ⟨.relative, first :: segments⟩) (hletter : letter.isAlpha = true)
    (htext : joinSegments (first :: segments) = letter :: ':' :: '/' :: behind) :
    toChars ⟨.drive letter, ((splitFrom [] behind).foldl (resolve true) []).reverse⟩ =
      joinSegments (first :: segments) := by
  obtain ⟨hfirst, hbehind, hnormal⟩ := h.pieces_onDrive hletter htext
  have hfold := hnormal.foldl_reverse
  rw [List.reverse_reverse] at hfold
  have hne : segments ≠ [] := by
    rintro rfl
    rw [hfirst] at htext
    simp [joinSegments] at htext
  rw [← hbehind, hfold, List.reverse_reverse, joinSegments, hfirst]
  · rfl
  · exact hne

/-- The first segment is not empty, so that no slash stands in front. -/
theorem joinSegments_front {root : Root} {first : List Char} {segments : List (List Char)}
    (h : NormalForm ⟨root, first :: segments⟩) :
    joinSegments (first :: segments) ≠ [] ∧
      ∀ behind, joinSegments (first :: segments) ≠ '/' :: behind := by
  have hsplit := h.splitFrom_segments (List.cons_ne_nil first segments)
  have hfirst : first ≠ [] := (h.not_mem List.mem_cons_self).2.2
  constructor
  · intro hnil
    rw [show joinSegments (first :: segments) = [] from hnil] at hsplit
    exact hfirst (List.cons.inj hsplit).1.symm
  · intro behind hslash
    rw [show joinSegments (first :: segments) = '/' :: behind from hslash] at hsplit
    exact hfirst (List.cons.inj hsplit).1.symm

/-- A relative path with segments is written without a root. -/
theorem toChars_relative {first : List Char} {segments : List (List Char)}
    (h : NormalForm ⟨.relative, first :: segments⟩) :
    toChars ⟨.relative, first :: segments⟩ = joinSegments (first :: segments) := by
  unfold toChars
  split
  · next hnil => exact absurd hnil h.joinSegments_front.1
  · rfl

/-- A path is written in the same way when it has been written and read once more. -/
theorem toChars_ofChars_toChars (h : NormalForm p) : toChars (ofChars (toChars p)) = toChars p := by
  by_cases hroot : p.root = .relative
  · obtain ⟨root, segments⟩ := p
    obtain rfl : root = .relative := hroot
    cases segments with
    | nil => decide
    | cons first rest =>
      cases hsplit : splitRoot (unifySlashes (toChars ⟨.relative, first :: rest⟩)) with
      | mk root behind =>
        obtain ⟨heq, hletter⟩ := splitRoot_eq hsplit
        rw [unifySlashes_of_not_mem h.backslash_not_mem, h.toChars_relative] at heq
        unfold ofChars
        rw [hsplit]
        cases root with
        | relative =>
          have hread := h.read_joinSegments
          rw [show joinSegments (first :: rest) = behind from heq] at hread
          exact congrArg (fun s => toChars ⟨.relative, s⟩) hread
        | slash => exact absurd heq (h.joinSegments_front.2 behind)
        | drive letter => exact (h.toChars_onDrive hletter heq).trans h.toChars_relative.symm
  · rw [h.ofChars_toChars hroot]

end NormalForm

/-! ## Path texts -/

/-- **Normal form.** A path in normal form stays as it is. -/
@[simp] theorem normalize_normalize (s : String) : normalize (normalize s) = normalize s := by
  unfold normalize ofString toString
  rw [String.toList_ofList, (ofChars_normalForm s.toList).toChars_ofChars_toChars]

theorem isRooted_iff {s : String} : isRooted s = true ↔ (ofString s).root ≠ .relative := by
  unfold isRooted ofString ofChars
  simp

/-- A rooted path stays rooted. -/
theorem isRooted_normalize {s : String} (h : isRooted s = true) : isRooted (normalize s) = true := by
  rw [isRooted_iff] at h ⊢
  unfold normalize ofString toString
  rw [String.toList_ofList, (ofChars_normalForm s.toList).ofChars_toChars h]
  exact h

/-- What stands behind a root does not change it. -/
theorem isRooted_append {s t : String} (h : isRooted s = true) : isRooted (s ++ t) = true := by
  unfold isRooted at h ⊢
  cases hsplit : splitRoot (unifySlashes s.toList) with
  | mk root rest =>
    obtain ⟨heq, hletter⟩ := splitRoot_eq hsplit
    rw [hsplit] at h
    have hroot : root ≠ .relative := by simpa using h
    have happend : unifySlashes (s ++ t).toList = root.text ++ (rest ++ unifySlashes t.toList) := by
      rw [← List.append_assoc, ← heq]
      simp [unifySlashes]
    rw [happend, splitRoot_text hletter hroot]
    exact h

/-- Paths are combined to one in normal form. -/
@[simp] theorem normalize_combine (base s : String) : normalize (combine base s) = combine base s := by
  unfold combine
  split <;> exact normalize_normalize _

section Absolute

variable {cwd : String}

/-- From a rooted directory every path is made absolute. -/
theorem isRooted_combine (hcwd : isRooted cwd = true) (s : String) :
    isRooted (combine cwd s) = true := by
  unfold combine
  split
  · next hrooted =>
    rcases Bool.or_eq_true_iff.1 hrooted with hrooted | hempty
    · exact isRooted_normalize hrooted
    · rw [String.isEmpty_iff.1 hempty] at hcwd
      exact absurd hcwd (by decide)
  · exact isRooted_normalize (isRooted_append (isRooted_append hcwd))

/-- A path that has been made absolute stays as it is. -/
theorem combine_combine (hcwd : isRooted cwd = true) (s : String) :
    combine cwd (combine cwd s) = combine cwd s := by
  have hrooted := isRooted_combine hcwd s
  rw [combine, hrooted]
  exact normalize_combine cwd s

end Absolute

end ScriptFront.Path
