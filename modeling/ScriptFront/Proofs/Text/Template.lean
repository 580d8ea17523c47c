import Mathlib.Data.List.Infix
import ScriptFront.Diagnostic

/-!
# What stays of a template

Filling a placeholder leaves alone whatever does not hold it. `Cause.message_importFailed` says what
that makes of the message about a broken import: its path stands in it as written, unless the path itself
holds the placeholder of the argument behind it.
-/

namespace ScriptFront

namespace Text

/-- What starts a stretch without the pattern does not start with the pattern. -/
theorem not_prefix_of_not_infix {pattern s rest : List Char} {q : Char} (hs : ¬ pattern <:+: s)
    (hq : q ∉ pattern) : ¬ pattern <+: s ++ q :: rest := by
  intro hprefix
  have hstretch : s ++ [q] <+: s ++ q :: rest := (List.prefix_append_right_inj s).2 ⟨rest, rfl⟩
  obtain hinside | hbeyond := List.prefix_or_prefix_of_prefix hprefix hstretch
  · obtain rfl | hinside := List.prefix_concat_iff.1 hinside
    · exact hq (List.mem_append_right _ List.mem_cons_self)
    · exact hs hinside.isInfix
  · exact hq (hbeyond.subset (List.mem_append_right _ List.mem_cons_self))

/-- A stretch without the pattern stays as it is, up to a character that the pattern does not hold. -/
theorem replaceAll_append {pattern replacement s rest : List Char} {q : Char}
    (hs : ¬ pattern <:+: s) (hq : q ∉ pattern) :
    replaceAll pattern replacement (s ++ q :: rest) =
      s ++ replaceAll pattern replacement (q :: rest) := by
  unfold replaceAll
  induction s with
  | nil => rfl
  | cons c s ih =>
    have htail : ¬ pattern <:+: s := fun h => hs (h.trans (List.suffix_cons c s).isInfix)
    have hhere : ¬ pattern <+: c :: (s ++ q :: rest) := not_prefix_of_not_infix hs hq
    rw [List.cons_append, replaceFrom, if_neg (fun h => hhere (List.isPrefixOf_iff_prefix.1 h)),
      ih htail, List.cons_append]

end Text

namespace Cause

theorem message_importNotFound (path : String) :
    (importNotFound path).message = "Import error '" ++ path ++ "': file not found" := by
  have hfill : Text.fillFrom 0 "Import error '\x7b0\x7d': file not found".toList [path] =
      "Import error '".toList ++ (path.toList ++ "': file not found".toList) := rfl
  show String.ofList _ = _
  rw [hfill, ← String.toList_inj]
  simp

/-- The path of a broken import stands in the message as written, if it does not hold the placeholder
that is filled after it. -/
theorem message_importFailed {path : String} (h : ¬ Text.placeholder 1 <:+: path.toList) (cause : Cause)
    (position : Position) :
    (importFailed path cause position).message =
      "Import error '" ++ path ++ "': " ++ located cause.message position := by
  generalize hinner : located cause.message position = inner
  have hfirst : Text.replaceAll (Text.placeholder 0) path.toList
      "Import error '\x7b0\x7d': \x7b1\x7d".toList =
        "Import error".toList ++ ' ' :: '\'' :: (path.toList ++ '\'' :: ": \x7b1\x7d".toList) := rfl
  have hlast : Text.replaceAll (Text.placeholder 1) inner.toList ('\'' :: ": \x7b1\x7d".toList) =
      "': ".toList ++ (inner.toList ++ []) := rfl
  have hquote : '\'' ∉ Text.placeholder 1 := by decide
  have hstart : ∀ rest, Text.replaceAll (Text.placeholder 1) inner.toList
      ("Import error".toList ++ ' ' :: '\'' :: rest) =
        "Import error '".toList ++ Text.replaceAll (Text.placeholder 1) inner.toList rest := fun _ => rfl
  have hfill : Text.fillFrom 0 "Import error '\x7b0\x7d': \x7b1\x7d".toList [path, inner] =
      "Import error '".toList ++ (path.toList ++ ("': ".toList ++ (inner.toList ++ []))) := by
    show Text.replaceAll (Text.placeholder 1) inner.toList (Text.replaceAll _ _ _) = _
    rw [hfirst, hstart, Text.replaceAll_append h hquote, hlast]
  show String.ofList (Text.fillFrom 0 _ [path, located cause.message position]) = _
  rw [hinner, hfill, ← String.toList_inj]
  simp

end Cause

end ScriptFront
