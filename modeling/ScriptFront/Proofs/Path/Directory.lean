import Mathlib.Data.List.Infix
import Mathlib.Data.List.Nodup
import ScriptFront.Proofs.Path.Canonical

/-!
# Directories

A rooted path is determined by its text (`ofString_toString`), and the directory that holds it is the path
without its last segment (`directory_toString`). So going up from directory to directory goes through the
beginnings of a path, the longest first, and ends at the root, which holds itself (`climbsThrough_above`).
-/

namespace ScriptFront.Path

/-! ## Beginnings of paths in normal form -/

theorem IsNormal.of_suffix {rooted : Bool} {segments inner : List (List Char)}
    (h : IsNormal rooted segments) (hinner : inner <:+ segments) : IsNormal rooted inner := by
  induction h with
  | nil =>
    rw [List.suffix_nil.1 hinner]
    exact .nil
  | up hrelative hbefore hups ih =>
    rcases List.suffix_cons_iff.1 hinner with rfl | hinner
    · exact .up hrelative hbefore hups
    · exact ih hinner
  | name hname hbefore ih =>
    rcases List.suffix_cons_iff.1 hinner with rfl | hinner
    · exact .name hname hbefore
    · exact ih hinner

theorem NormalForm.of_prefix {root : Root} {segments beginning : List (List Char)}
    (h : NormalForm ⟨root, segments⟩) (hbeginning : beginning <+: segments) :
    NormalForm ⟨root, beginning⟩ :=
  ⟨h.letter, h.segments.of_suffix (List.reverse_suffix.2 hbeginning)⟩

/-- What is left of a path without its last segment is in normal form. -/
theorem NormalForm.dropLast {p : Path} (h : NormalForm p) :
    NormalForm ⟨p.root, p.segments.dropLast⟩ := by
  obtain ⟨root, segments⟩ := p
  exact h.of_prefix (List.dropLast_prefix segments)

theorem ofString_normalForm (s : String) : NormalForm (ofString s) :=
  ofChars_normalForm s.toList

/-! ## Paths and their texts -/

namespace NormalForm

variable {p q : Path}

theorem ofString_toString (h : NormalForm p) (hrooted : p.root ≠ .relative) :
    ofString (toString p) = p := by
  unfold ofString toString
  rw [String.toList_ofList, h.ofChars_toChars hrooted]

/-- Different rooted paths have different texts. -/
theorem eq_of_toString (hp : NormalForm p) (hq : NormalForm q) (hprooted : p.root ≠ .relative)
    (hqrooted : q.root ≠ .relative) (htext : toString p = toString q) : p = q := by
  rw [← hp.ofString_toString hprooted, htext, hq.ofString_toString hqrooted]

/-- A path has no more segments than its text has characters. -/
theorem length_segments_le (h : NormalForm p) (hrooted : p.root ≠ .relative) :
    p.segments.length ≤ (toString p).length := by
  have hjoin : ∀ segments : List (List Char), (∀ s ∈ segments, s ≠ []) →
      segments.length ≤ (joinSegments segments).length := by
    intro segments hne
    induction segments with
    | nil => exact Nat.le_refl 0
    | cons s rest ih =>
      obtain ⟨hs, hrest⟩ := List.forall_mem_cons.1 hne
      have hpos := List.length_pos_iff.2 hs
      cases rest with
      | nil =>
        simp only [joinSegments, List.length_singleton]
        omega
      | cons t rest =>
        have hle := ih hrest
        simp only [joinSegments, List.length_append, List.length_cons] at hle ⊢
        omega
  have hle := hjoin p.segments fun s hs => (h.not_mem hs).2.2
  unfold toString
  rw [String.length_ofList, toChars_rooted hrooted, List.length_append]
  omega

end NormalForm

/-! ## The directory of a path -/

/-- The directory of a rooted path is the path without its last segment. -/
theorem directory_eq {s : String} (h : isRooted s = true) :
    directory s = toString ⟨(ofString s).root, (ofString s).segments.dropLast⟩ := by
  have hroot : (ofString s).root ≠ .relative := isRooted_iff.1 h
  unfold directory
  dsimp only
  rw [ofString_normalize h]
  cases (ofString s).segments.dropLast with
  | nil =>
    have hwritten : toChars ⟨(ofString s).root, []⟩ = (ofString s).root.text ++ [] :=
      toChars_rooted hroot
    unfold toString
    rw [hwritten, List.append_nil, if_neg hroot]
  | cons first segments => rfl

theorem NormalForm.directory_toString {p : Path} (h : NormalForm p) (hrooted : p.root ≠ .relative) :
    directory (toString p) = toString ⟨p.root, p.segments.dropLast⟩ := by
  rw [directory_eq (h.segmentsOf_toString hrooted).1, h.ofString_toString hrooted]

/-! ## Names in a directory -/

/-- A plain name behind a rooted directory is its last segment. -/
theorem NormalForm.combine_name {p : Path} (h : NormalForm p) (hrooted : p.root ≠ .relative)
    {name : List Char} (hname : IsPlain name) (hrelative : isRooted (String.ofList name) = false) :
    combine (toString p) (String.ofList name) = toString ⟨p.root, p.segments ++ [name]⟩ := by
  have hdir := (h.segmentsOf_toString hrooted).1
  rw [combine_eq_slash hdir hrelative, normalize_slash hdir, h.ofString_toString hrooted]
  unfold along
  rw [String.toList_ofList, hname.unifySlashes_eq, IsPlain.splitFrom_eq hname.noSlash,
    List.reverse_nil, List.nil_append, List.foldl_cons, List.foldl_nil, hname.resolve_eq,
    List.reverse_cons, List.reverse_reverse]

theorem NormalForm.concat {p : Path} (h : NormalForm p) {name : List Char} (hname : IsPlain name) :
    NormalForm ⟨p.root, p.segments ++ [name]⟩ := by
  refine ⟨h.letter, ?_⟩
  rw [List.reverse_append]
  exact .name hname h.segments

/-! ## Going up -/

/-- The directories that a path lies in, from the inside out. The root lies in itself. -/
def above (p : Path) : List Path :=
  (p.segments.dropLast.inits.map (Path.mk p.root)).reverse

/-- Going up from a directory until that leads nowhere else, with the directories on the way. -/
inductive ClimbsThrough : String → List String → Prop
  | top {dir : String} (htop : directory dir = dir) : ClimbsThrough dir [dir]
  | up {dir : String} {dirs : List String} (hup : directory dir ≠ dir)
      (hdirs : ClimbsThrough (directory dir) dirs) : ClimbsThrough dir (dir :: dirs)

/-- Going up drops one segment after the other, down to the root. -/
theorem climbsThrough_inits {root : Root} {segments : List (List Char)} (hrooted : root ≠ .relative)
    (h : NormalForm ⟨root, segments⟩) :
    ClimbsThrough (toString ⟨root, segments⟩)
      (segments.inits.map fun beginning => toString ⟨root, beginning⟩).reverse := by
  induction segments using List.reverseRecOn with
  | nil =>
    apply ClimbsThrough.top
    rw [h.directory_toString hrooted]
    rfl
  | append_singleton segments last ih =>
    have hinner : NormalForm ⟨root, segments⟩ := h.of_prefix (List.prefix_append segments [last])
    have hdirectory := h.directory_toString hrooted
    rw [List.dropLast_concat] at hdirectory
    have hinits : (segments ++ [last]).inits = segments.inits ++ [segments ++ [last]] := by
      simp [List.inits_append]
    rw [hinits, List.map_append, List.reverse_append]
    apply ClimbsThrough.up
    · rw [hdirectory]
      intro htext
      have heq := hinner.eq_of_toString h hrooted hrooted htext
      simp at heq
    · rw [hdirectory]
      exact ih hinner

theorem nodup_inits {α : Type} (l : List α) : l.inits.Nodup := by
  induction l using List.reverseRecOn with
  | nil => simp
  | append_singleton l a ih =>
    have hinits : (l ++ [a]).inits = l.inits ++ [l ++ [a]] := by simp [List.inits_append]
    rw [hinits, List.nodup_append]
    refine ⟨ih, List.nodup_singleton _, ?_⟩
    intro beginning hbeginning whole hwhole
    rw [List.mem_singleton] at hwhole
    rintro rfl
    have hle := ((List.mem_inits _ _).1 hbeginning).length_le
    rw [hwhole, List.length_append, List.length_singleton] at hle
    omega

/-- Different directories above a path are met once each. -/
theorem nodup_above (p : Path) : p.above.Nodup := by
  unfold above
  rw [List.nodup_reverse]
  apply (nodup_inits p.segments.dropLast).map
  intro beginning beginning' heq
  exact (Path.mk.inj heq).2

theorem NormalForm.of_mem_above {p q : Path} (h : NormalForm p) (hq : q ∈ p.above) :
    NormalForm q ∧ q.root = p.root := by
  unfold above at hq
  rw [List.mem_reverse, List.mem_map] at hq
  obtain ⟨beginning, hbeginning, rfl⟩ := hq
  exact ⟨h.dropLast.of_prefix ((List.mem_inits _ _).1 hbeginning), rfl⟩

/-- Going up from the directory of a rooted path leads through the directories that the path lies in. -/
theorem climbsThrough_above {s : String} (h : isRooted s = true) :
    ClimbsThrough (directory s) ((ofString s).above.map toString) := by
  have hclimb := climbsThrough_inits (isRooted_iff.1 h) (ofString_normalForm s).dropLast
  rw [directory_eq h]
  unfold above
  rwa [List.map_reverse, List.map_map]

end ScriptFront.Path
