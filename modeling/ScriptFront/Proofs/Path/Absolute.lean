import ScriptFront.Proofs.Path.Directory

/-!
# Absolute paths

An absolute path is rooted and in normal form (`IsAbsolute`). Combining and joining from a rooted path on
gives absolute paths (`isAbsolute_combine`, `isAbsolute_join`), and a path stays absolute when an ending is
written behind it (`IsAbsolute.append_ending`): it becomes a part of the last segment, or the only segment
behind a bare root.
-/

namespace ScriptFront.Path

/-- A rooted path in normal form: the text that stands for one file and for which no other stands. -/
structure IsAbsolute (s : String) : Prop where
  rooted : isRooted s = true
  normal : normalize s = s

instance {s : String} : Decidable (IsAbsolute s) :=
  decidable_of_iff (isRooted s = true ∧ normalize s = s) ⟨fun h => ⟨h.1, h.2⟩, fun h => ⟨h.1, h.2⟩⟩

/-! ## Where absolute paths come from -/

theorem isAbsolute_normalize {s : String} (h : isRooted s = true) : IsAbsolute (normalize s) :=
  ⟨isRooted_normalize h, normalize_normalize s⟩

theorem isAbsolute_combine {base : String} (h : isRooted base = true) (s : String) :
    IsAbsolute (combine base s) :=
  ⟨isRooted_combine h s, normalize_combine base s⟩

theorem isAbsolute_toString {p : Path} (h : NormalForm p) (hrooted : p.root ≠ .relative) :
    IsAbsolute (toString p) := by
  refine ⟨(h.segmentsOf_toString hrooted).1, ?_⟩
  unfold normalize
  rw [h.ofString_toString hrooted]

theorem combine_of_isRooted {s : String} (h : isRooted s = true) (base : String) :
    combine base s = normalize s := by
  unfold combine
  rw [h]
  rfl

theorem isEmpty_of_isRooted {s : String} (h : isRooted s = true) : s.isEmpty = false := by
  rw [Bool.eq_false_iff, Ne, String.isEmpty_iff]
  rintro rfl
  exact absurd h (by decide)

/-- Joining from a rooted path on leads to an absolute path. -/
theorem isAbsolute_join {base : String} (h : isRooted base = true) (rest : List String) :
    IsAbsolute (join (base :: rest)) := by
  have hfold : ∀ (paths : List String) (s : String), IsAbsolute s →
      IsAbsolute (paths.foldl combine s) := by
    intro paths
    induction paths with
    | nil => exact fun s hs => hs
    | cons path paths ih => exact fun s hs => ih _ (isAbsolute_combine hs.rooted path)
  unfold join
  rw [List.filter_cons_of_pos (by rw [isEmpty_of_isRooted h]; rfl), List.foldl_cons,
    combine_of_isRooted h]
  exact hfold _ _ (isAbsolute_normalize h)

/-- What stands in front of a rooted path is left out. -/
theorem join_concat {path : String} (h : isRooted path = true) (before : List String) :
    join (before ++ [path]) = normalize path := by
  unfold join
  rw [List.filter_append, List.filter_cons_of_pos (by rw [isEmpty_of_isRooted h]; rfl),
    List.filter_nil, List.foldl_append, List.foldl_cons, List.foldl_nil, combine_of_isRooted h]

/-! ## Endings -/

/-- A name with an ending that is too long for it to become a move. -/
theorem IsPlain.append_ending {name ending : List Char} (hname : IsPlain name)
    (hending : IsPlain ending) (hlength : 3 ≤ ending.length) : IsPlain (name ++ ending) where
  noSlash := by
    rw [List.mem_append, not_or]
    exact ⟨hname.noSlash, hending.noSlash⟩
  noBackslash := by
    rw [List.mem_append, not_or]
    exact ⟨hname.noBackslash, hending.noBackslash⟩
  notEmpty := List.append_ne_nil_of_left_ne_nil hname.notEmpty ending
  notHere := by
    intro h
    have hle := congrArg List.length h
    rw [List.length_append, List.length_singleton] at hle
    omega
  notUp := by
    intro h
    have hle := congrArg List.length h
    rw [List.length_append] at hle
    simp only [List.length_cons, List.length_nil] at hle
    omega

theorem joinSegments_append_ending (segments : List (List Char)) (name ending : List Char) :
    joinSegments (segments ++ [name ++ ending]) = joinSegments (segments ++ [name]) ++ ending := by
  induction segments with
  | nil => rfl
  | cons s rest ih =>
    have hcons : ∀ last : List Char,
        joinSegments (s :: (rest ++ [last])) = s ++ '/' :: joinSegments (rest ++ [last]) := by
      intro last
      rw [joinSegments]
      simp
    rw [List.cons_append, List.cons_append, hcons, hcons, ih]
    simp

theorem NormalForm.isPlain_last {root : Root} {segments : List (List Char)} {name : List Char}
    (h : NormalForm ⟨root, segments ++ [name]⟩) (hrooted : root ≠ .relative) : IsPlain name := by
  have hsegments := h.segments
  rw [List.reverse_append, bne_iff_ne.2 hrooted] at hsegments
  cases hsegments with
  | up hrelative => cases hrelative
  | name hname => exact hname

/-- The path whose text is that of a rooted path with an ending. -/
theorem NormalForm.exists_append_ending {p : Path} (h : NormalForm p) (hrooted : p.root ≠ .relative)
    {ending : List Char} (hending : IsPlain ending) (hlength : 3 ≤ ending.length) :
    ∃ q, NormalForm q ∧ q.root = p.root ∧ toChars q = toChars p ++ ending := by
  obtain ⟨root, segments⟩ := p
  have hroot : root ≠ .relative := hrooted
  have hwritten : ∀ segments, toChars ⟨root, segments⟩ = root.text ++ joinSegments segments :=
    fun _ => toChars_rooted hroot
  rcases List.eq_nil_or_concat segments with rfl | ⟨segments, name, rfl⟩
  · refine ⟨⟨root, [ending]⟩, h.concat hending, rfl, ?_⟩
    rw [hwritten, hwritten]
    exact congrArg (· ++ ending) (List.append_nil root.text).symm
  · rw [List.concat_eq_append] at h ⊢
    have hname := h.isPlain_last hroot
    have hbefore : NormalForm ⟨root, segments⟩ := h.of_prefix (List.prefix_append segments [name])
    refine ⟨⟨root, segments ++ [name ++ ending]⟩,
      hbefore.concat (hname.append_ending hending hlength), rfl, ?_⟩
    rw [hwritten, hwritten, joinSegments_append_ending, List.append_assoc]

/-- **Endings.** An absolute path stays absolute when an ending is written behind it. -/
theorem IsAbsolute.append_ending {s ending : String} (h : IsAbsolute s)
    (hending : IsPlain ending.toList) (hlength : 3 ≤ ending.toList.length) :
    IsAbsolute (s ++ ending) := by
  have hroot := isRooted_iff.1 h.rooted
  obtain ⟨q, hq, hqroot, htext⟩ :=
    (ofString_normalForm s).exists_append_ending hroot hending hlength
  have heq : s ++ ending = toString q := by
    have hs : toString (ofString s) = s := h.normal
    rw [← String.toList_inj, String.toList_append, ← hs]
    unfold toString
    rw [String.toList_ofList, String.toList_ofList, htext]
  rw [heq]
  exact isAbsolute_toString hq (hqroot ▸ hroot)

end ScriptFront.Path
