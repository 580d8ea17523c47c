import Mathlib.Data.List.Infix
import ScriptFront.Production.SourceFile
import ScriptFront.Proofs.Token.Marker

/-!
# Sources with carriage returns

A source is cut at its first ignore marker, and then its carriage returns are dropped. The second step can
spell a marker that the first one did not see. `SplitsMarker` tells the texts with such a spelling, and only
for them is a prepared text cut again (`prepare_prepare_iff`), or does it matter whether the carriage returns
are dropped before the cut (`prepare_withoutReturns_iff`). Line ends are read alike with a carriage return in
front and without one, in every text (`prepare_withReturns`).
-/

namespace ScriptFront.Source

/-- The text without its carriage returns. -/
def withoutReturns (s : String) : String :=
  String.ofList (s.toList.filter (· ≠ '\r'))

/-- A character, with a carriage return in front of a line feed. -/
def lineEnd (c : Char) : List Char :=
  if c = '\n' then ['\r', '\n'] else [c]

/-- The text with a carriage return in front of every line feed. -/
def withReturns (s : String) : String :=
  String.ofList (s.toList.flatMap lineEnd)

/-- Whether what is read of a text spells the marker once its carriage returns are gone. -/
def SplitsMarker (s : String) : Prop :=
  ∃ spelling, spelling <:+: beforeMarker s.toList ∧ spelling.filter (· ≠ '\r') = ignoreMarker

variable {c : Char} {cs : List Char}

/-! ## The cut -/

theorem beforeMarker_of_starts (h : ignoreMarker <+: cs) : beforeMarker cs = [] := by
  cases cs with
  | nil => rfl
  | cons c cs => rw [beforeMarker, if_pos (List.isPrefixOf_iff_prefix.2 h)]

theorem beforeMarker_of_not_starts (h : ¬ ignoreMarker <+: c :: cs) :
    beforeMarker (c :: cs) = c :: beforeMarker cs := by
  rw [beforeMarker, if_neg (mt List.isPrefixOf_iff_prefix.1 h)]

theorem prefix_beforeMarker (cs : List Char) : beforeMarker cs <+: cs := by
  induction cs with
  | nil => exact List.prefix_rfl
  | cons c cs ih =>
    by_cases hhere : ignoreMarker <+: c :: cs
    · exact beforeMarker_of_starts hhere ▸ List.nil_prefix
    · exact beforeMarker_of_not_starts hhere ▸ (List.prefix_cons_inj c).2 ih

theorem not_infix_beforeMarker (cs : List Char) : ¬ ignoreMarker <:+: beforeMarker cs := by
  induction cs with
  | nil => decide
  | cons c cs ih =>
    by_cases hhere : ignoreMarker <+: c :: cs
    · rw [beforeMarker_of_starts hhere]
      decide
    · intro hwithin
      rw [beforeMarker_of_not_starts hhere] at hwithin
      obtain hstart | hlater := List.infix_cons_iff.1 hwithin
      · exact hhere (hstart.trans ((List.prefix_cons_inj c).2 (prefix_beforeMarker cs)))
      · exact ih hlater

theorem beforeMarker_eq_self_iff : beforeMarker cs = cs ↔ ¬ ignoreMarker <:+: cs := by
  refine ⟨fun h => h ▸ not_infix_beforeMarker cs, fun h => ?_⟩
  induction cs with
  | nil => rfl
  | cons c cs ih =>
    rw [beforeMarker_of_not_starts fun hstart => h hstart.isInfix,
      ih fun hlater => h (hlater.trans (List.suffix_cons c cs).isInfix)]

/-- What is cut off starts with the marker. -/
theorem beforeMarker_cut (cs : List Char) :
    beforeMarker cs = cs ∨ ∃ rest, cs = beforeMarker cs ++ (ignoreMarker ++ rest) := by
  induction cs with
  | nil => exact .inl rfl
  | cons c cs ih =>
    by_cases hhere : ignoreMarker <+: c :: cs
    · obtain ⟨rest, hrest⟩ := hhere
      exact .inr ⟨rest, by rw [beforeMarker_of_starts ⟨rest, hrest⟩, hrest, List.nil_append]⟩
    · rw [beforeMarker_of_not_starts hhere]
      exact ih.imp (congrArg (c :: ·)) fun ⟨rest, hrest⟩ => ⟨rest, congrArg (c :: ·) hrest⟩

/-- No end of the marker is also a start of it. -/
theorem marker_unbordered {part : List Char} (hend : part <:+ ignoreMarker) (hstart : part <+: ignoreMarker) :
    part = [] ∨ part = ignoreMarker := by
  have hall : ∀ part ∈ ignoreMarker.tails, part <+: ignoreMarker → part = [] ∨ part = ignoreMarker := by
    decide
  exact hall part ((List.mem_tails _ _).2 hend) hstart

/-- A text without the marker is cut right behind it where the marker follows: the marker does not start
in the text and end behind it. -/
theorem beforeMarker_append_marker (h : ¬ ignoreMarker <:+: cs) (rest : List Char) :
    beforeMarker (cs ++ (ignoreMarker ++ rest)) = cs := by
  induction cs with
  | nil => exact beforeMarker_of_starts (List.prefix_append _ _)
  | cons c cs ih =>
    have hhere : ¬ ignoreMarker <+: c :: cs ++ (ignoreMarker ++ rest) := by
      intro hstart
      have hfront : c :: cs <+: c :: cs ++ (ignoreMarker ++ rest) := List.prefix_append _ _
      obtain hinside | ⟨part, hpart⟩ := List.prefix_or_prefix_of_prefix hstart hfront
      · exact h hinside.isInfix
      · have hbehind : part <+: ignoreMarker ++ rest :=
          (List.prefix_append_right_inj (c :: cs)).1 (hpart ▸ hstart)
        have hend : part <:+ ignoreMarker := ⟨c :: cs, hpart⟩
        have hover : part <+: ignoreMarker :=
          List.prefix_of_prefix_length_le hbehind (List.prefix_append _ _) hend.length_le
        obtain rfl | rfl := marker_unbordered hend hover
        · exact h ⟨[], [], by rw [← hpart]; simp⟩
        · have hlength := congrArg List.length hpart
          simp only [List.length_append, List.length_cons] at hlength
          omega
    rw [List.cons_append] at hhere ⊢
    rw [beforeMarker_of_not_starts hhere,
      ih fun hlater => h (hlater.trans (List.suffix_cons c cs).isInfix)]

/-! ## Carriage returns -/

/-- A pattern in what is left of a list is spelled by a stretch of the list. -/
theorem infix_filter_iff {p : Char → Bool} {pattern : List Char} :
    pattern <:+: cs.filter p ↔ ∃ spelling, spelling <:+: cs ∧ spelling.filter p = pattern := by
  constructor
  · rintro ⟨front, back, h⟩
    obtain ⟨left, behind, rfl, hleft, hbehind⟩ := List.filter_eq_append_iff.1 h.symm
    obtain ⟨before, spelling, rfl, -, hspelling⟩ := List.filter_eq_append_iff.1 hleft
    exact ⟨spelling, ⟨before, behind, rfl⟩, hspelling⟩
  · rintro ⟨spelling, hwithin, rfl⟩
    exact hwithin.filter p

theorem toList_withoutReturns (s : String) : (withoutReturns s).toList = s.toList.filter (· ≠ '\r') :=
  String.toList_ofList

theorem not_mem_prepare (s : String) : '\r' ∉ (prepare s).toList := by
  rw [toList_prepare]
  intro hmem
  simpa using List.of_mem_filter hmem

theorem infix_prepare_iff (s : String) : ignoreMarker <:+: (prepare s).toList ↔ SplitsMarker s := by
  rw [toList_prepare, infix_filter_iff]
  rfl

/-- A text without carriage returns is only cut. -/
theorem toList_prepare_of_not_mem {s : String} (h : '\r' ∉ s.toList) :
    (prepare s).toList = beforeMarker s.toList := by
  rw [toList_prepare, List.filter_eq_self]
  intro c hc
  have hne : c ≠ '\r' := fun heq => h (heq ▸ (prefix_beforeMarker _).subset hc)
  exact decide_eq_true hne

theorem prepare_prepare_iff (s : String) : prepare (prepare s) = prepare s ↔ ¬ SplitsMarker s := by
  rw [← String.toList_inj, toList_prepare_of_not_mem (not_mem_prepare s), beforeMarker_eq_self_iff,
    infix_prepare_iff]

theorem prepare_withoutReturns_iff (s : String) :
    prepare (withoutReturns s) = prepare s ↔ ¬ SplitsMarker s := by
  have hreturns : '\r' ∉ (withoutReturns s).toList := by
    rw [toList_withoutReturns]
    intro hmem
    simpa using List.of_mem_filter hmem
  rw [← String.toList_inj, toList_prepare_of_not_mem hreturns, toList_withoutReturns, ← infix_prepare_iff]
  constructor
  · intro heq
    rw [← heq]
    exact not_infix_beforeMarker _
  · intro hprepare
    obtain hwhole | ⟨rest, hcut⟩ := beforeMarker_cut s.toList
    · rw [toList_prepare, hwhole] at hprepare ⊢
      exact beforeMarker_eq_self_iff.2 hprepare
    · -- The marker has no carriage return, so that what is read still ends in front of it.
      have hmarker : ignoreMarker.filter (· ≠ '\r') = ignoreMarker := by decide
      rw [toList_prepare] at hprepare ⊢
      conv_lhs => rw [hcut]
      rw [List.filter_append, List.filter_append, hmarker]
      exact beforeMarker_append_marker hprepare _

/-! ## Line ends -/

theorem prefix_flatMap_lineEnd_iff {pattern : List Char} (hpattern : '\r' ∉ pattern ∧ '\n' ∉ pattern)
    (cs : List Char) : pattern <+: cs.flatMap lineEnd ↔ pattern <+: cs := by
  induction cs generalizing pattern with
  | nil => rfl
  | cons c cs ih =>
    cases pattern with
    | nil => exact iff_of_true List.nil_prefix List.nil_prefix
    | cons q pattern =>
      obtain ⟨⟨hr, hreturn⟩, hn, hfeed⟩ := hpattern.imp List.ne_and_not_mem_of_not_mem_cons
        List.ne_and_not_mem_of_not_mem_cons
      rw [List.flatMap_cons, lineEnd]
      split
      · next hc => simp [hc, hr.symm, hn.symm]
      · rw [List.singleton_append, List.cons_prefix_cons, List.cons_prefix_cons, ih ⟨hreturn, hfeed⟩]

theorem beforeMarker_flatMap_lineEnd (cs : List Char) :
    beforeMarker (cs.flatMap lineEnd) = (beforeMarker cs).flatMap lineEnd := by
  induction cs with
  | nil => rfl
  | cons c cs ih =>
    have hstarts : ignoreMarker <+: (c :: cs).flatMap lineEnd ↔ ignoreMarker <+: c :: cs :=
      prefix_flatMap_lineEnd_iff (by decide) _
    by_cases hhere : ignoreMarker <+: c :: cs
    · rw [beforeMarker_of_starts hhere, beforeMarker_of_starts (hstarts.2 hhere)]
      rfl
    · rw [beforeMarker_of_not_starts hhere, List.flatMap_cons, List.flatMap_cons, ← ih]
      by_cases hc : c = '\n'
      · subst hc
        rw [lineEnd, if_pos rfl]
        exact (beforeMarker_cons (by decide) _).trans (congrArg _ (beforeMarker_cons (by decide) _))
      · rw [List.flatMap_cons, lineEnd, if_neg hc] at hstarts
        rw [lineEnd, if_neg hc]
        exact beforeMarker_of_not_starts (mt hstarts.1 hhere)

theorem filter_lineEnd (c : Char) : (lineEnd c).filter (· ≠ '\r') = [c].filter (· ≠ '\r') := by
  unfold lineEnd
  split
  · next hc => rw [hc]; rfl
  · rfl

theorem prepare_withReturns (s : String) : prepare (withReturns s) = prepare s := by
  rw [← String.toList_inj, toList_prepare, toList_prepare, withReturns, String.toList_ofList,
    beforeMarker_flatMap_lineEnd, List.filter_flatMap]
  simp only [filter_lineEnd]
  rw [← List.filter_flatMap, List.flatMap_singleton']

/-- **Sources with carriage returns.** A prepared text has no carriage return. It holds the marker exactly
when the text splits it, and then only does preparing it again, or dropping the carriage returns before
preparing it, give another text. Every source is read alike with and without carriage returns in front of
its line feeds. -/
theorem prepared_iff (s : String) :
    '\r' ∉ (prepare s).toList ∧
    (¬ ignoreMarker <:+: (prepare s).toList ↔ ¬ SplitsMarker s) ∧
    (prepare (prepare s) = prepare s ↔ ¬ SplitsMarker s) ∧
    (prepare (withoutReturns s) = prepare s ↔ ¬ SplitsMarker s) ∧
    ∀ path options, File.ofSource (withReturns s) path options = File.ofSource s path options := by
  refine ⟨not_mem_prepare s, not_congr (infix_prepare_iff s), prepare_prepare_iff s,
    prepare_withoutReturns_iff s, fun path options => ?_⟩
  unfold File.ofSource
  rw [prepare_withReturns]

/-- Here dropping a carriage return spells the marker. -/
theorem prepare_spellsMarker :
    prepare "//ts\r:ignore" = "//ts:ignore" ∧ ignoreMarker <:+: (prepare "//ts\r:ignore").toList ∧
      prepare (prepare "//ts\r:ignore") = "" ∧ prepare (withoutReturns "//ts\r:ignore") = "" := by
  decide

end ScriptFront.Source
