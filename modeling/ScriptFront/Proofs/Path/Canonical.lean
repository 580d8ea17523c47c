import ScriptFront.Proofs.Path.Normal

/-!
# Canonical paths

The text of a path in normal form has no other spelling: behind its root stand plain names, with moves up
in front of them if it is relative, and nothing else (`isNormal_segmentsOf`). Going on from a rooted path
is one more fold over segments (`along`), so it does not matter whether a path is brought into normal form
before one goes on from it, and joining step by step leads to the same text as joining at once
(`normalize_canonical`).
-/

namespace ScriptFront.Path

/-! ## The segments of a path text -/

/-- What stands between the slashes of a path text behind its root, if anything stands there. -/
def segmentsOf (s : String) : List (List Char) :=
  let rest := (splitRoot (unifySlashes s.toList)).2
  if rest = [] then [] else splitFrom [] rest

theorem segmentsOf_of_splitRoot {s : String} {root : Root} {rest : List Char}
    (h : splitRoot (unifySlashes s.toList) = (root, rest)) :
    segmentsOf s = if rest = [] then [] else splitFrom [] rest := by
  unfold segmentsOf
  rw [h]

/-- Moves up come first, and only a relative path has them. -/
theorem IsNormal.upsFirst {rooted : Bool} {segments : List (List Char)}
    (h : IsNormal rooted segments) :
    ∃ n names, segments.reverse = List.replicate n ['.', '.'] ++ names ∧
      (∀ name ∈ names, IsPlain name) ∧ (rooted = true → n = 0) := by
  induction h with
  | nil => exact ⟨0, [], rfl, by simp, fun _ => rfl⟩
  | @up before hrelative _ hups _ =>
    refine ⟨before.length + 1, [], ?_, by simp, by simp [hrelative]⟩
    have hbefore : before = List.replicate before.length ['.', '.'] :=
      List.eq_replicate_of_mem hups
    rw [List.append_nil, ← List.reverse_replicate, List.replicate_succ, ← hbefore]
  | @name name before hname _ ih =>
    obtain ⟨n, names, hsplit, hnames, hroot⟩ := ih
    refine ⟨n, names ++ [name], ?_, ?_, hroot⟩
    · rw [List.reverse_cons, hsplit, List.append_assoc]
    · intro other hother
      rcases List.mem_append.1 hother with hother | hother
      · exact hnames other hother
      · rwa [List.mem_singleton.1 hother]

/-- In a rooted path there are no moves up. -/
theorem IsNormal.up_not_mem {segments : List (List Char)} (h : IsNormal true segments) :
    ['.', '.'] ∉ segments := by
  intro hup
  obtain ⟨n, names, hsplit, hnames, hroot⟩ := h.upsFirst
  obtain rfl : n = 0 := hroot rfl
  rw [← List.mem_reverse, hsplit, List.replicate_zero, List.nil_append] at hup
  exact (hnames _ hup).notUp rfl

namespace NormalForm

variable {p : Path}

theorem unifySlashes_toString (h : NormalForm p) :
    unifySlashes (toString p).toList = toChars p := by
  unfold toString
  rw [String.toList_ofList, unifySlashes_of_not_mem h.backslash_not_mem]

/-- Segments that have been written are found again. -/
theorem splitFrom_written (h : NormalForm p) :
    (if joinSegments p.segments = [] then [] else splitFrom [] (joinSegments p.segments)) =
      p.segments := by
  obtain ⟨root, segments⟩ := p
  cases segments with
  | nil => rfl
  | cons first segments =>
    rw [if_neg h.joinSegments_front.1]
    exact h.splitFrom_segments (List.cons_ne_nil first segments)

theorem splitRoot_toString (h : NormalForm p) (hrooted : p.root ≠ .relative) :
    splitRoot (unifySlashes (toString p).toList) = (p.root, joinSegments p.segments) := by
  rw [h.unifySlashes_toString, toChars_rooted hrooted]
  exact splitRoot_text h.letter hrooted _

/-- A path with a root is rooted, and its text has its segments. -/
theorem segmentsOf_toString (h : NormalForm p) (hrooted : p.root ≠ .relative) :
    isRooted (toString p) = true ∧ segmentsOf (toString p) = p.segments := by
  have hsplit := h.splitRoot_toString hrooted
  constructor
  · unfold isRooted
    rw [hsplit]
    simpa using hrooted
  · rw [segmentsOf_of_splitRoot hsplit, h.splitFrom_written]

/-- The segments of a relative path are in normal form in its text. If the text starts like a drive, the
first of them is taken for the drive, and plain names are left. -/
theorem isNormal_relative {first : List Char} {segments : List (List Char)}
    (h : NormalForm ⟨.relative, first :: segments⟩) :
    IsNormal (isRooted (toString ⟨.relative, first :: segments⟩))
      (segmentsOf (toString ⟨.relative, first :: segments⟩)).reverse := by
  cases hsplit : splitRoot (unifySlashes (toString ⟨.relative, first :: segments⟩).toList) with
  | mk root behind =>
    obtain ⟨heq, hletter⟩ := splitRoot_eq hsplit
    rw [h.unifySlashes_toString, h.toChars_relative] at heq
    rw [segmentsOf_of_splitRoot hsplit]
    unfold isRooted
    rw [hsplit]
    cases root with
    | relative =>
      obtain rfl : joinSegments (first :: segments) = behind := heq
      rw [h.splitFrom_written]
      exact h.segments
    | slash => exact absurd heq (h.joinSegments_front.2 behind)
    | drive letter =>
      obtain ⟨-, rfl, hnormal⟩ := h.pieces_onDrive hletter heq
      split
      · exact .nil
      · exact hnormal

end NormalForm

/-- A path in normal form is a point, or its segments are in normal form. -/
theorem isNormal_segmentsOf (s : String) :
    normalize s = "." ∨ IsNormal (isRooted (normalize s)) (segmentsOf (normalize s)).reverse := by
  have hnormal : NormalForm (ofString s) := ofChars_normalForm s.toList
  unfold normalize
  by_cases hroot : (ofString s).root = .relative
  · cases hsegments : (ofString s).segments with
    | nil =>
      left
      have heq : ofString s = ⟨.relative, []⟩ := by
        rw [← hroot, ← hsegments]
      rw [heq]
      decide
    | cons first segments =>
      right
      have heq : ofString s = ⟨.relative, first :: segments⟩ := by
        rw [← hroot, ← hsegments]
      rw [heq] at hnormal ⊢
      exact hnormal.isNormal_relative
  · right
    obtain ⟨hrooted, hsegments⟩ := hnormal.segmentsOf_toString hroot
    rw [hrooted, hsegments]
    have hall := hnormal.segments
    rwa [bne_iff_ne.2 hroot] at hall

/-- A rooted path in normal form does not move up. -/
theorem up_not_mem_segmentsOf {s : String} (h : isRooted s = true) :
    ['.', '.'] ∉ segmentsOf (normalize s) := by
  have hroot : (ofString s).root ≠ .relative := isRooted_iff.1 h
  have hnormal : NormalForm (ofString s) := ofChars_normalForm s.toList
  have hnames := hnormal.segments
  rw [bne_iff_ne.2 hroot] at hnames
  rw [normalize, (hnormal.segmentsOf_toString hroot).2]
  intro hup
  exact hnames.up_not_mem (List.mem_reverse.2 hup)

/-! ## Going on from a path -/

/-- The path that the segments of a text lead to from `p`. -/
def along (p : Path) (cs : List Char) : Path :=
  ⟨p.root, ((splitFrom [] (unifySlashes cs)).foldl (resolve (p.root != .relative))
    p.segments.reverse).reverse⟩

variable {a b : String}

/-- Behind a rooted path and a slash one goes on from that path. -/
theorem ofString_slash (ha : isRooted a = true) (b : String) :
    ofString (a ++ "/" ++ b) = (ofString a).along b.toList := by
  cases hsplit : splitRoot (unifySlashes a.toList) with
  | mk root rest =>
    obtain ⟨heq, hletter⟩ := splitRoot_eq hsplit
    have hroot : root ≠ .relative := by
      unfold isRooted at ha
      rw [hsplit] at ha
      simpa using ha
    have htext : unifySlashes (a ++ "/" ++ b).toList =
        root.text ++ (rest ++ '/' :: unifySlashes b.toList) := by
      rw [← List.append_assoc, ← heq]
      simp [unifySlashes]
    unfold along ofString ofChars
    rw [htext, splitRoot_text hletter hroot, hsplit]
    simp only [splitFrom_append, List.foldl_append, List.reverse_reverse]

theorem normalize_slash (ha : isRooted a = true) (b : String) :
    normalize (a ++ "/" ++ b) = toString ((ofString a).along b.toList) := by
  unfold normalize
  rw [ofString_slash ha]

/-- A rooted path is read in the same way when it has been brought into normal form. -/
theorem ofString_normalize (ha : isRooted a = true) : ofString (normalize a) = ofString a := by
  rw [isRooted_iff] at ha
  unfold normalize toString ofString
  rw [String.toList_ofList]
  exact (ofChars_normalForm a.toList).ofChars_toChars ha

theorem combine_eq_slash (ha : isRooted a = true) (hb : isRooted b = false) :
    combine a b = normalize (a ++ "/" ++ b) := by
  have hne : a.isEmpty = false := by
    rw [Bool.eq_false_iff, Ne, String.isEmpty_iff]
    rintro rfl
    exact absurd ha (by decide)
  unfold combine
  rw [hb, hne]
  rfl

theorem ofString_combine (ha : isRooted a = true) (hb : isRooted b = false) :
    ofString (combine a b) = (ofString a).along b.toList := by
  have hslash : isRooted (a ++ "/" ++ b) = true := isRooted_append (isRooted_append ha)
  rw [combine_eq_slash ha hb, ofString_normalize hslash, ofString_slash ha]

/-! ## The main result -/

/-- **Canonical paths.** Bringing a path into normal form once is enough, and the result is a point or
moves up and behind them plain names, with no move up below a root. From a rooted path on, a relative path
leads to a rooted one without moves up; it leads there also from the normal form, and two of them lead to
the same place one after the other as at once. -/
theorem normalize_canonical :
    (∀ p, normalize (normalize p) = normalize p ∧
      (normalize p = "." ∨
        ∃ n names, segmentsOf (normalize p) = List.replicate n ['.', '.'] ++ names ∧
          (∀ name ∈ names, IsPlain name) ∧
          (isRooted p = true ∨ isRooted (normalize p) = true → n = 0))) ∧
    ∀ a b c, isRooted a = true → isRooted b = false → isRooted c = false →
      isRooted (combine a b) = true ∧ ['.', '.'] ∉ segmentsOf (combine a b) ∧
        combine (normalize a) b = combine a b ∧
        combine (combine a b) c = normalize (a ++ "/" ++ b ++ "/" ++ c) := by
  constructor
  · intro p
    refine ⟨normalize_normalize p, (isNormal_segmentsOf p).imp_right ?_⟩
    intro hnormal
    obtain ⟨n, names, hsplit, hnames, hroot⟩ := hnormal.upsFirst
    rw [List.reverse_reverse] at hsplit
    exact ⟨n, names, hsplit, hnames, fun h => hroot (h.elim isRooted_normalize id)⟩
  · intro a b c ha hb hc
    have hjoined : isRooted (combine a b) = true := isRooted_combine ha b
    have hslash : isRooted (a ++ "/" ++ b) = true := isRooted_append (isRooted_append ha)
    refine ⟨hjoined, ?_, ?_, ?_⟩
    · rw [combine_eq_slash ha hb]
      exact up_not_mem_segmentsOf hslash
    · rw [combine_eq_slash (isRooted_normalize ha) hb, combine_eq_slash ha hb,
        normalize_slash (isRooted_normalize ha), normalize_slash ha, ofString_normalize ha]
    · rw [combine_eq_slash hjoined hc, normalize_slash hjoined, normalize_slash hslash,
        ofString_combine ha hb, ofString_slash ha]

/-- A drive with backslashes and a move up behind it; then a move up, and a name that would be a drive if
nothing stood in front of it. -/
theorem normalize_canonical_drive :
    normalize "./C:/../../x" = "../x" ∧ isRooted "C:\\u\\..\\.." = true ∧
      isRooted "../v/./D:/" = false ∧ isRooted "w//.." = false ∧
      combine (combine "C:\\u\\..\\.." "../v/./D:/") "w//.." = "C:/v/D:" := by
  have ha : isRooted "C:\\u\\..\\.." = true := by decide
  have hb : isRooted "../v/./D:/" = false := by decide
  have hc : isRooted "w//.." = false := by decide
  obtain ⟨-, -, -, hjoined⟩ := normalize_canonical.2 _ _ _ ha hb hc
  refine ⟨by decide, ha, hb, hc, hjoined.trans ?_⟩
  decide

end ScriptFront.Path
