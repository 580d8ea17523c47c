import ScriptFront.Path

/-!
# The last segment of a path

A plain name at the end of a path is still there when the path has been brought into normal form: only a
segment behind it could take it away.
-/

namespace ScriptFront.Path

/-- A name that resolves to itself: it is one segment, and none of those that stand for a move. -/
structure IsPlain (name : List Char) : Prop where
  noSlash : '/' ∉ name
  noBackslash : '\\' ∉ name
  notEmpty : name ≠ []
  notHere : name ≠ ['.']
  notUp : name ≠ ['.', '.']

variable {name : List Char}

namespace IsPlain

theorem unifySlashes_eq (h : IsPlain name) : unifySlashes name = name := by
  unfold unifySlashes
  conv => rhs; rw [← List.map_id name]
  refine List.map_congr_left fun c hc => ?_
  rw [if_neg (ne_of_mem_of_not_mem hc h.noBackslash), id]

theorem splitFrom_eq (h : '/' ∉ name) (piece : List Char) :
    splitFrom piece name = [piece.reverse ++ name] := by
  induction name generalizing piece with
  | nil => rw [splitFrom, List.append_nil]
  | cons c cs ih =>
    rw [List.mem_cons, not_or] at h
    rw [splitFrom, if_neg (Ne.symm h.1), ih h.2]
    simp

theorem resolve_eq (h : IsPlain name) (rooted : Bool) (before : List (List Char)) :
    resolve rooted before name = name :: before := by
  unfold resolve
  rw [if_neg (not_or.2 ⟨h.notEmpty, h.notHere⟩), if_neg h.notUp]

end IsPlain

/-- A slash ends a piece. -/
theorem splitFrom_append (piece before rest : List Char) :
    splitFrom piece (before ++ '/' :: rest) = splitFrom piece before ++ splitFrom [] rest := by
  induction before generalizing piece with
  | nil => simp [splitFrom]
  | cons c cs ih =>
    simp only [List.cons_append, splitFrom]
    split
    · rw [ih, List.cons_append]
    · exact ih _

/-- What stands in front of a name: nothing, or a text up to a slash. -/
def EndsPiece (before : List Char) : Prop := before = [] ∨ ∃ b, before = b ++ ['/']

theorem splitFrom_name (h : IsPlain name) {before : List Char} (hbefore : EndsPiece before) :
    ∃ pieces, splitFrom [] (before ++ name) = pieces ++ [name] := by
  have hname : splitFrom [] name = [name] :=
    IsPlain.splitFrom_eq h.noSlash []
  rcases hbefore with rfl | ⟨b, rfl⟩
  · exact ⟨[], hname⟩
  · refine ⟨splitFrom [] b, ?_⟩
    rw [List.append_assoc, List.singleton_append, splitFrom_append, hname]

theorem splitRoot_relative {cs : List Char} (h : (splitRoot cs).1 = .relative) :
    splitRoot cs = (.relative, cs) := by
  unfold splitRoot at h ⊢
  split at h
  · cases h
  · split at h
    · cases h
    · rw [if_neg ‹_›]
  · rfl

/-- The root of a path ends before the piece behind a slash. -/
theorem splitRoot_append (name dir : List Char) :
    ∃ root before, EndsPiece before ∧
      splitRoot (dir ++ '/' :: name) = (root, before ++ name) := by
  have hsnoc : ∀ d : List Char, (d ++ ['/']) ++ name = d ++ '/' :: name := by simp
  have hends : ∀ d : List Char, EndsPiece (d ++ ['/']) := fun d => Or.inr ⟨d, rfl⟩
  unfold splitRoot
  split
  · next rest heq =>
    match dir, heq with
    | [], rfl => exact ⟨.slash, [], Or.inl rfl, rfl⟩
    | _ :: d, rfl => exact ⟨.slash, d ++ ['/'], hends d, congrArg _ (hsnoc d).symm⟩
  · next c rest hslash heq =>
    split
    · rcases dir with _ | ⟨_, _ | ⟨_, _ | ⟨_, d⟩⟩⟩
      · exact absurd (List.cons.inj heq).1.symm hslash
      · cases heq
      · cases heq
        exact ⟨.drive c, [], Or.inl rfl, rfl⟩
      · cases heq
        exact ⟨.drive c, d ++ ['/'], hends d, congrArg _ (hsnoc d).symm⟩
    · exact ⟨.relative, dir ++ ['/'], hends dir, congrArg _ (hsnoc dir).symm⟩
  · exact ⟨.relative, dir ++ ['/'], hends dir, congrArg _ (hsnoc dir).symm⟩

theorem joinSegments_concat (name : List Char) (segments : List (List Char)) :
    ∃ before, joinSegments (segments ++ [name]) = before ++ name := by
  induction segments with
  | nil => exact ⟨[], rfl⟩
  | cons s rest ih =>
    obtain ⟨before, hbefore⟩ := ih
    have hne : rest ++ [name] ≠ [] := by simp
    obtain ⟨t, ts, hrest⟩ := List.exists_cons_of_ne_nil hne
    refine ⟨s ++ '/' :: before, ?_⟩
    rw [List.cons_append, hrest, joinSegments, ← hrest, hbefore]
    · simp
    · simp

theorem toChars_name (h : IsPlain name) (root : Root) (segments : List (List Char)) :
    ∃ before, (toChars ⟨root, segments ++ [name]⟩) = before ++ name := by
  obtain ⟨before, hbefore⟩ := joinSegments_concat name segments
  refine ⟨root.text ++ before, ?_⟩
  unfold toChars
  rw [hbefore, ← List.append_assoc]
  split
  · next hnil => exact absurd (List.append_eq_nil_iff.1 hnil).2 h.notEmpty
  · rfl

theorem ofChars_name (h : IsPlain name) {root : Root} {cs before : List Char}
    (hsplit : splitRoot (unifySlashes cs) = (root, before ++ name)) (hbefore : EndsPiece before) :
    ∃ segments, ofChars cs = ⟨root, segments ++ [name]⟩ := by
  obtain ⟨pieces, hpieces⟩ := splitFrom_name h hbefore
  unfold ofChars
  rw [hsplit]
  refine ⟨(pieces.foldl (resolve (root != .relative)) []).reverse, ?_⟩
  simp only [hpieces, List.foldl_append, List.foldl_cons, List.foldl_nil, h.resolve_eq,
    List.reverse_cons]

/-- **The last segment.** A path that is combined with a plain name ends with that name. -/
theorem combine_name (h : IsPlain name) (hroot : isRooted (String.ofList name) = false)
    (dir : String) :
    ∃ before, (combine dir (String.ofList name)).toList = before ++ name := by
  have hname : unifySlashes (String.ofList name).toList = name := by
    rw [String.toList_ofList, h.unifySlashes_eq]
  have hnormalize : ∀ (s : String) (root : Root) {before : List Char},
      splitRoot (unifySlashes s.toList) = (root, before ++ name) → EndsPiece before →
      ∃ before, (normalize s).toList = before ++ name := by
    intro s root before hsplit hbefore
    obtain ⟨segments, hsegments⟩ := ofChars_name h hsplit hbefore
    unfold normalize ofString toString
    rw [String.toList_ofList, hsegments]
    exact toChars_name h root segments
  unfold combine
  rw [hroot, Bool.false_or]
  split
  · have hrelative : (splitRoot name).1 = .relative := by
      unfold isRooted at hroot
      rw [hname] at hroot
      simpa using hroot
    refine hnormalize (String.ofList name) .relative ?_ (Or.inl rfl)
    rw [hname]
    exact splitRoot_relative hrelative
  · obtain ⟨root, before, hbefore, hsplit⟩ :=
      splitRoot_append name (unifySlashes dir.toList)
    refine hnormalize (dir ++ "/" ++ String.ofList name) root ?_ hbefore
    have hcs : unifySlashes (dir ++ "/" ++ String.ofList name).toList =
        unifySlashes dir.toList ++ '/' :: unifySlashes (String.ofList name).toList := by
      simp [unifySlashes]
    rw [hcs, hname]
    exact hsplit

end ScriptFront.Path
