import ScriptFront.Proofs.Token.Apart

/-!
# The ignore marker

A source is read up to the ignore marker. A character that the marker does not have parts the source: the
marker stands before it or behind it (`Source.beforeMarker_append`).
-/

namespace ScriptFront.Source

theorem toList_prepare (s : String) : (prepare s).toList = (beforeMarker s.toList).filter (· ≠ '\r') :=
  String.toList_ofList

/-- The marker starts with a slash. -/
theorem beforeMarker_cons {c : Char} (hc : c ≠ '/') (cs : List Char) :
    beforeMarker (c :: cs) = c :: beforeMarker cs := by
  have hmarker : ignoreMarker = '/' :: "/ts:ignore".toList := by decide +kernel
  have hprefix : ignoreMarker.isPrefixOf (c :: cs) = false := by
    rw [hmarker, List.isPrefixOf, beq_eq_false_iff_ne.2 hc.symm]
    rfl
  rw [beforeMarker, hprefix]
  rfl

theorem beforeMarker_front {front : List Char} (h : ∀ c ∈ front, c ≠ '/') (cs : List Char) :
    beforeMarker (front ++ cs) = front ++ beforeMarker cs := by
  induction front with
  | nil => rfl
  | cons c front ih =>
    obtain ⟨hc, hfront⟩ := List.forall_mem_cons.1 h
    rw [List.cons_append, beforeMarker_cons hc, ih hfront, List.cons_append]

theorem toList_prepare_front {front : String} (h : ∀ c ∈ front.toList, c ≠ '/' ∧ c ≠ '\r') (s : String) :
    (prepare (front ++ s)).toList = front.toList ++ (prepare s).toList := by
  rw [toList_prepare, toList_prepare, String.toList_append, beforeMarker_front fun c hc => (h c hc).1,
    List.filter_append, List.filter_eq_self.2 fun c hc => decide_eq_true (h c hc).2]

/-- What stands behind a character that the marker does not have is read only if the marker does not stand
before it. -/
theorem beforeMarker_append {c : Char} (hc : c ∉ ignoreMarker) (cs rest : List Char) :
    beforeMarker (cs ++ c :: rest) =
      if beforeMarker cs = cs then cs ++ c :: beforeMarker rest else beforeMarker cs := by
  induction cs with
  | nil => exact beforeMarker_cons (by rintro rfl; exact hc (by decide)) rest
  | cons x cs ih =>
    have hprefix : ignoreMarker.isPrefixOf (x :: cs ++ c :: rest) = ignoreMarker.isPrefixOf (x :: cs) := by
      rw [Bool.eq_iff_iff, List.isPrefixOf_iff_prefix, List.isPrefixOf_iff_prefix]
      refine ⟨fun h => ?_, fun h => h.trans (List.prefix_append _ _)⟩
      by_contra hlong
      exact hc ((Lexeme.prefix_of_append rest h hlong).subset (by simp))
    rw [List.cons_append] at hprefix ⊢
    rw [beforeMarker, hprefix, beforeMarker]
    by_cases hmarker : ignoreMarker.isPrefixOf (x :: cs) = true
    · simp [hmarker]
    · simp only [hmarker, Bool.false_eq_true, if_false, ih]
      by_cases hcs : beforeMarker cs = cs
      · simp [hcs]
      · simp [hcs]

/-- Signs in a text whose characters the marker does not have are read with what stands behind them, or cut
off with it. -/
theorem toList_prepare_sign {sign : String} (hne : sign ≠ "")
    (hsign : (sign.toList.all fun c => decide (c ∉ ignoreMarker ∧ c ≠ '\r')) = true) (head s : String) :
    (prepare (head ++ sign ++ s)).toList = if beforeMarker head.toList = head.toList then
      (prepare head).toList ++ (sign.toList ++ (prepare s).toList) else (prepare head).toList := by
  have hsign : ∀ c ∈ sign.toList, c ∉ ignoreMarker ∧ c ≠ '\r' :=
    fun c hc => of_decide_eq_true (List.all_eq_true.1 hsign c hc)
  have hslash : ∀ c ∈ sign.toList, c ≠ '/' := by
    rintro c hc rfl
    exact (hsign _ hc).1 (by decide)
  have hkept : sign.toList.filter (fun c => decide (c ≠ '\r')) = sign.toList :=
    List.filter_eq_self.2 fun c hc => decide_eq_true (hsign c hc).2
  obtain ⟨c, cs, hchars⟩ := List.exists_cons_of_ne_nil (mt String.toList_eq_nil_iff.1 hne)
  have hparts := beforeMarker_append (hsign c (hchars ▸ List.mem_cons_self)).1 head.toList (cs ++ s.toList)
  have hbehind := beforeMarker_front hslash s.toList
  rw [hchars, List.cons_append, beforeMarker_cons (hslash c (hchars ▸ List.mem_cons_self)), List.cons_append,
    List.cons_inj_right] at hbehind
  rw [toList_prepare, String.toList_append, String.toList_append, List.append_assoc, hchars, List.cons_append,
    hparts, hbehind, ← List.cons_append, ← hchars]
  by_cases hhead : beforeMarker head.toList = head.toList
  · rw [if_pos hhead, if_pos hhead, toList_prepare, toList_prepare, hhead, List.filter_append, List.filter_append,
      hkept]
  · rw [if_neg hhead, if_neg hhead, toList_prepare]

end ScriptFront.Source
