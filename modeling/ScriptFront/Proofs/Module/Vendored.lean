import ScriptFront.Module.Resolve
import ScriptFront.Proofs.Path.Absolute
import ScriptFront.Proofs.Path.Rooted

/-!
# Vendored files

The place of a path among the vendored files lies below the working directory, unless the path leads out of
the vendor directory and then starts on a drive (`vendored_eq_iff`): it is brought into normal form before
it is made absolute, and what is left of it is rooted then.
-/

namespace ScriptFront.Module

open ScriptFront.Path

variable {cwd path : String}

theorem combine_vendorDirectory (hpath : isRooted path = false) :
    combine vendorDirectory path = normalize ("vendor/" ++ path) := by
  unfold combine vendorDirectory
  rw [hpath, String.append_assoc]
  rfl

theorem isRooted_vendor (path : String) : isRooted ("vendor/" ++ path) = false := by
  have htext : unifySlashes ("vendor/" ++ path).toList =
      ['v', 'e', 'n', 'd', 'o', 'r', '/'] ++ unifySlashes path.toList := by
    simp [unifySlashes]
  unfold isRooted
  rw [htext]
  rfl

/-- Where a path on a drive leads from a rooted path if it is taken for a relative one. -/
theorem along_onDrive {p : Path} (hrooted : p.root ≠ .relative) {s : String} {letter : Char}
    {name : List Char} {rest : List (List Char)} (hletter : letter.isAlpha = true)
    (hs : ofString s = ⟨.relative, [letter, ':'] :: name :: rest⟩) :
    (p.along s.toList).segments = p.segments ++ [letter, ':'] :: name :: rest := by
  have hnormal : NormalForm ⟨.relative, [letter, ':'] :: name :: rest⟩ := hs ▸ ofString_normalForm s
  have hbehind : IsNormal true (name :: rest).reverse := (hnormal.onDrive hletter).segments
  have hne := hnormal.not_mem List.mem_cons_self
  have hdrive : IsPlain [letter, ':'] := ⟨hne.1, hne.2.1, hne.2.2, by simp, by simp⟩
  have hfold := hbehind.foldl_append ([letter, ':'] :: p.segments.reverse)
  rw [List.reverse_reverse] at hfold
  rw [along_eq_segments hrooted (by rw [hs]), hs]
  dsimp only
  rw [List.foldl_cons, hdrive.resolve_eq, hfold]
  simp

/-- The place among the vendored files is where the path leads from the vendor directory, but for paths
that start on a drive in the end. -/
theorem vendored_eq_iff (hcwd : isRooted cwd = true) (hpath : isRooted path = false) :
    vendored cwd path = normalize (cwd ++ "/vendor/" ++ path) ↔
      ¬ StartsOnDrive (ofString ("vendor/" ++ path)) := by
  have htext : cwd ++ "/vendor/" ++ path = cwd ++ "/" ++ ("vendor/" ++ path) := by
    rw [show "/vendor/" = "/" ++ "vendor/" by decide]
    simp only [String.append_assoc]
  unfold vendored
  rw [combine_vendorDirectory hpath, htext, normalize_slash hcwd]
  generalize hv : "vendor/" ++ path = v
  have hrelative : isRooted v = false := hv ▸ isRooted_vendor path
  have hroot : (ofString cwd).root ≠ .relative := isRooted_iff.1 hcwd
  by_cases hdrive : StartsOnDrive (ofString v)
  · refine iff_of_false (fun heq => ?_) (not_not.2 hdrive)
    obtain ⟨-, letter, name, rest, hletter, hsegments⟩ := hdrive
    have hstart : ofString v = ⟨.relative, [letter, ':'] :: name :: rest⟩ := by
      rw [← root_of_isRooted hrelative, ← hsegments]
    have hnormal : NormalForm ⟨.relative, [letter, ':'] :: name :: rest⟩ := hstart ▸ ofString_normalForm v
    have halong : NormalForm ((ofString cwd).along v.toList) := ofString_slash hcwd v ▸ ofString_normalForm _
    have hrooted : isRooted (normalize v) = true :=
      (isRooted_normalize_iff v).2 (.inr ⟨root_of_isRooted hrelative, letter, name, rest, hletter, hsegments⟩)
    rw [combine_of_isRooted hrooted, normalize_normalize] at heq
    have hpaths : ⟨.drive letter, name :: rest⟩ = (ofString cwd).along v.toList := by
      refine (hnormal.onDrive hletter).eq_of_toString halong (by simp) hroot ?_
      rw [← hnormal.toString_onDrive, ← hstart]
      exact heq
    -- The drive is a segment on one side, and a root on the other.
    have hlength := congrArg (fun p => p.segments.length) hpaths
    simp only [along_onDrive hroot hletter hstart, List.length_append, List.length_cons] at hlength
    omega
  · refine iff_of_true ?_ hdrive
    have hstays : isRooted (normalize v) = false :=
      Bool.eq_false_iff.2 fun h => ((isRooted_normalize_iff v).1 h).elim (Bool.eq_false_iff.1 hrelative) hdrive
    rw [combine_eq_slash hcwd hstays, normalize_slash hcwd, along_normalize hroot hstays]

/-- **Staying relative.** Bringing a path into normal form changes whether it is rooted exactly when it is a
relative path that is left with a drive in front, which takes a segment of a letter with a colon. From a
rooted directory, the place of a relative path among the vendored files is where it leads from the vendor
directory exactly when it is not left with a drive there. -/
theorem staysRelative_iff (cwd path : String) :
    (isRooted (normalize path) = isRooted path ↔ ¬ StartsOnDrive (ofString path)) ∧
    (StartsOnDrive (ofString path) → ∃ letter : Char, letter.isAlpha = true ∧
      [letter, ':'] ∈ splitFrom [] (unifySlashes path.toList)) ∧
    (isRooted cwd = true → isRooted path = false →
      (vendored cwd path = normalize (cwd ++ "/vendor/" ++ path) ↔
        ¬ StartsOnDrive (ofString ("vendor/" ++ path)))) := by
  refine ⟨?_, StartsOnDrive.exists_piece, vendored_eq_iff⟩
  have hiff := isRooted_normalize_iff path
  cases hpath : isRooted path with
  | true =>
    have hroot : (ofString path).root ≠ .relative := isRooted_iff.1 hpath
    exact iff_of_true (isRooted_normalize hpath) fun h => hroot h.1
  | false =>
    rw [hpath, or_iff_right Bool.false_ne_true] at hiff
    rw [← hiff, Bool.not_eq_true]

/-- A path out of the vendor directory to a segment like a drive with nothing behind it. -/
theorem staysRelative_iff_bareDrive :
    isRooted "/w" = true ∧ isRooted "../C:/x/.." = false ∧
      vendored "/w" "../C:/x/.." = normalize ("/w" ++ "/vendor/" ++ "../C:/x/..") ∧
      normalize ("/w" ++ "/vendor/" ++ "../C:/x/..") = "/w/C:" := by
  have hcwd : isRooted "/w" = true := by decide
  have hpath : isRooted "../C:/x/.." = false := by decide
  have hleft : ofString ("vendor/" ++ "../C:/x/..") = ⟨.relative, [['C', ':']]⟩ := by decide
  refine ⟨hcwd, hpath, ((staysRelative_iff _ _).2.2 hcwd hpath).2 ?_, by decide⟩
  rw [hleft]
  rintro ⟨-, letter, name, rest, -, hsegments⟩
  cases hsegments

/-- A point in front of a drive goes, and a move up takes the vendor directory away: both times a relative
path becomes a path on the drive. -/
theorem vendored_onDrive :
    (isRooted "./C:/x" = false ∧ isRooted (normalize "./C:/x") = true) ∧
    isRooted "/w" = true ∧ isRooted "../C:/x" = false ∧ vendored "/w" "../C:/x" = "C:/x" ∧
      normalize ("/w" ++ "/vendor/" ++ "../C:/x") = "/w/C:/x" := by
  decide

end ScriptFront.Module
