import ScriptFront.Proofs.Parsed.Trees

/-!
# Lists that take the rest of the arguments

Every parameter list in a parsed tree, at any depth, is written in the source, and it takes the rest of
the arguments by the dots it is written with (`Source.variadic_iff`). Where the dots stand in front of its
last name they say what takes the rest. But dots with no name behind them are accepted as well, and then no
parameter takes it.
-/

namespace ScriptFront

variable {file : Cursor}

/-! ## The lists in a tree -/

/-- The parameters of a function. -/
def Node.parameters? : Node → Option Parameters
  | expr (.function _ parameters _) => some parameters
  | stmt (.funcDecl f) => some f.parameters
  | _ => none

/-- The parameters of a node that is made as the grammar makes it are written in the file. -/
theorem Node.Proper.isWritten {n : Node} (h : n.Proper file) {ps : Parameters}
    (hps : n.parameters? = some ps) : ps.IsWritten file := by
  unfold parameters? at hps
  split at hps
  · cases hps
    exact h
  · cases hps
    exact h.2
  · cases hps

/-! ## The lists of a source text -/

theorem Source.HasNode.isWritten {source : String} {n : Node} (h : HasNode source n) {ps : Parameters}
    (hps : n.parameters? = some ps) :
    ∃ tokens, tokenize (prepare source) = .ok tokens ∧ ps.IsWritten (Cursor.ofTokens tokens) := by
  obtain ⟨tokens, htokens, hnode⟩ := h.tokens
  refine ⟨tokens, htokens, ?_⟩
  obtain hproper | ⟨f, rfl, hf⟩ | ⟨c, rfl⟩ := hnode.node
  · exact hproper.isWritten hps
  · cases hps
    exact hf
  · cases hps

/-- The function that a source text is. -/
theorem Source.HasNode.of_parameters (source : String) (p : Parameters → Bool)
    (h : (Expr.ofSource source).toOption.any (fun e => (Node.expr e).parameters?.any p) = true) :
    ∃ n ps, HasNode source n ∧ n.parameters? = some ps ∧ p ps = true := by
  cases he : Expr.ofSource source with
  | error e =>
    rw [he] at h
    cases h
  | ok e =>
    rw [he] at h
    obtain ⟨_, ⟨⟩, h⟩ := (Option.any_eq_true _ _).1 h
    obtain ⟨ps, hps, hp⟩ := (Option.any_eq_true _ _).1 h
    exact ⟨_, ps, .expr he (.self _), hps, hp⟩

/-- Every parameter list in a tree that a source text is parsed to is written in the text, and its
parameters are the names of its entries. It takes the rest of the arguments just when its last entry is
written with `...`, or `...` stands behind its entries with no name. That the first alone decides is so just
when there are no such dots; then it has a parameter if it takes the rest. -/
theorem Source.variadic_iff {source : String} {n : Node} {ps : Parameters} (h : HasNode source n)
    (hps : n.parameters? = some ps) :
    ∃ tokens, tokenize (prepare source) = .ok tokens ∧ ∃ entries dangling,
      ps.Written (Cursor.ofTokens tokens) entries dangling ∧ ps.fields = entries.map (·.field) ∧
      (ps.variadic = true ↔ Parameters.lastDots entries = true ∨ dangling = true) ∧
      ((ps.variadic = true ↔ Parameters.lastDots entries = true) ↔ dangling = false) ∧
      (dangling = false → ps.variadic = true → ps.fields ≠ []) := by
  obtain ⟨tokens, htokens, entries, dangling, hwritten⟩ := h.isWritten hps
  refine ⟨tokens, htokens, entries, dangling, hwritten, hwritten.fields, ?_, ?_, ?_⟩
  · rw [hwritten.variadic, Bool.or_eq_true, or_comm]
  · rw [hwritten.variadic]
    cases dangling with
    | true => simp [hwritten.lastDots_of_dangling rfl]
    | false => simp
  · rintro rfl hvariadic hfields
    rw [hwritten.fields, List.map_eq_nil_iff] at hfields
    subst hfields
    rw [hwritten.variadic] at hvariadic
    cases hvariadic

/-- A list whose last parameter takes the rest, in an arrow function. -/
theorem Source.variadic_iff_rest :
    ∃ n ps, HasNode "(a, ...b) => b" n ∧ n.parameters? = some ps ∧ ps.variadic = true ∧
      ∃ tokens, tokenize (prepare "(a, ...b) => b") = .ok tokens ∧ ∃ entries dangling,
        ps.Written (Cursor.ofTokens tokens) entries dangling ∧
        (Parameters.lastDots entries = true ∨ dangling = true) := by
  obtain ⟨n, ps, hnode, hps, hvariadic⟩ :=
    HasNode.of_parameters "(a, ...b) => b" (·.variadic) (by decide +kernel)
  obtain ⟨tokens, htokens, entries, dangling, hwritten, -, hiff, -⟩ := variadic_iff hnode hps
  exact ⟨n, ps, hnode, hps, hvariadic, tokens, htokens, entries, dangling, hwritten, hiff.1 hvariadic⟩

/-- Dots with no name are accepted, and take the rest of the arguments for no parameter. -/
theorem Source.variadic_dangling :
    ∃ n ps, HasNode "(...) => 1" n ∧ n.parameters? = some ps ∧ ps.variadic = true ∧ ps.fields = [] := by
  obtain ⟨n, ps, hnode, hps, hboth⟩ := HasNode.of_parameters "(...) => 1"
    (fun ps => ps.variadic && ps.fields.isEmpty) (by decide +kernel)
  obtain ⟨hvariadic, hfields⟩ := Bool.and_eq_true_iff.1 hboth
  exact ⟨n, ps, hnode, hps, hvariadic, List.isEmpty_iff.1 hfields⟩

end ScriptFront
