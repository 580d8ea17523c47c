import ScriptFront.Proofs.Brackets.Nested
import ScriptFront.Proofs.Expression.RoundTrip
import ScriptFront.Proofs.Production.Accepted
import ScriptFront.Proofs.Token.Marker
import ScriptFront.Proofs.Token.Rescan

/-!
# Nesting without limit

The key of an index is read on the level of nesting that the index stands on. So `a[a[…a…]]` is accepted
with any number of brackets open at once, and the bound on the brackets that are held cannot be one on all
of them.
-/

namespace ScriptFront

open Production Spelling

/-! ## The expression -/

namespace Expr

/-- The name `a` with an index, whose key is the name `a` with an index, and so on. -/
def nestedIndex : Nat → Expr
  | 0 => .identifier ⟨.start, "a"⟩
  | n + 1 => .index (.identifier ⟨.start, "a"⟩) .start (nestedIndex n) false true

theorem spelled_nestedIndex (n : Nat) : (nestedIndex (n + 1)).spelled =
    (.identifier, "a") :: inBrackets (nestedIndex n).spelled := by
  simp [nestedIndex, spelled, inFront, isPostfix, optionalMark]

theorem markedAs_nestedIndex (n : Nat) : (nestedIndex n).MarkedAs true := by
  cases n with
  | zero => trivial
  | succ n => rfl

/-- All of it is read on one level. -/
theorem readable_nestedIndex (n : Nat) : Readable 0 (nestedIndex n) := by
  induction n with
  | zero => exact .identifier _
  | succ n ih =>
    have hname : Readable 0 (.identifier ⟨.start, "a"⟩) := .identifier _
    have hlink : StartsLink (optionalMark false ++ inBrackets (nestedIndex n).spelled) :=
      startsLink_optionalMark false (by decide) _
    apply Readable.index_of_front (hname.opens_link hlink) _ ih (markedAs_nestedIndex n)
    intro m ctx hm hd
    exact (hname.chains rfl m ctx hm hd).mono fun a ha => ha.1

theorem visible_nestedIndex (n : Nat) : (nestedIndex n).spelled.Visible := by
  induction n with
  | zero => simp [nestedIndex, spelled, Kind.isComment]
  | succ n ih => simp [spelled_nestedIndex, ih, Kind.isComment]

/-- Its tokens are names and square brackets. -/
theorem mem_spelled_nestedIndex {n : Nat} : ∀ x ∈ (nestedIndex n).spelled,
    x = (.identifier, "a") ∨ x = Mark.openBracket.shape ∨ x = Mark.closeBracket.shape := by
  induction n with
  | zero => simp [nestedIndex, spelled]
  | succ n ih =>
    intro x hx
    simp only [spelled_nestedIndex, inBrackets, List.mem_cons, List.mem_append, List.not_mem_nil,
      or_false, List.cons_append] at hx
    rcases hx with rfl | rfl | hx | rfl
    · exact .inl rfl
    · exact .inr (.inl rfl)
    · exact ih x hx
    · exact .inr (.inr rfl)

end Expr

/-! ## The text -/

namespace Source

/-- A text without slashes and carriage returns is read as it is. -/
theorem prepare_eq {s : String} (h : ∀ c ∈ s.toList, c ≠ '/' ∧ c ≠ '\r') : prepare s = s := by
  have hchars := toList_prepare_front h ""
  rw [String.append_empty] at hchars
  exact String.toList_injective (hchars.trans (List.append_nil _))

/-- Tokens with a blank behind each. -/
def spaced (ts : List Token) : String := String.ofList (ts.flatMap fun t => t.written ++ [' '])

theorem tokenize_spaced {ts : List Token} (hts : ∀ t ∈ ts, Rewritable t) :
    ∃ tokens, tokenize (spaced ts) = .ok tokens ∧
      tokens.map Token.shape = ts.map Token.shape ++ [(.endOfFile, "")] := by
  have hfuel : ts.length < (ts.flatMap fun t => t.written ++ [' ']).length + 1 := by
    clear hts
    induction ts with
    | nil => simp
    | cons t ts ih =>
      simp only [List.flatMap_cons, List.length_cons, List.length_append, List.length_nil]
      omega
  obtain ⟨tokens, hrun, hshapes⟩ := tokensFrom_flatMap hts _ .start [] hfuel
  refine ⟨tokens, ?_, hshapes⟩
  unfold tokenize spaced
  rw [String.toList_ofList]
  exact hrun

/-- The text `a [ a [ … a … ] ] ` with `n` brackets open in the middle. -/
def nestedIndex (n : Nat) : String :=
  spaced ((Expr.nestedIndex n).spelled.map fun x => ⟨x.1, x.2, .start⟩)

variable {n : Nat}

theorem mem_nestedIndex_tokens {t : Token}
    (h : t ∈ (Expr.nestedIndex n).spelled.map fun x => (⟨x.1, x.2, .start⟩ : Token)) :
    t = ⟨.identifier, "a", .start⟩ ∨ t = ⟨.mark .openBracket, "[", .start⟩ ∨
      t = ⟨.mark .closeBracket, "]", .start⟩ := by
  obtain ⟨x, hx, rfl⟩ := List.mem_map.1 h
  rcases Expr.mem_spelled_nestedIndex x hx with rfl | rfl | rfl
  · exact .inl rfl
  · exact .inr (.inl rfl)
  · exact .inr (.inr rfl)

theorem prepare_nestedIndex (n : Nat) : prepare (nestedIndex n) = nestedIndex n := by
  apply prepare_eq
  intro c hc
  unfold nestedIndex spaced at hc
  rw [String.toList_ofList] at hc
  obtain ⟨t, ht, hc⟩ := List.mem_flatMap.1 hc
  have hwritten : t.written ++ [' '] ∈ [['a', ' '], ['[', ' '], [']', ' ']] := by
    rcases mem_nestedIndex_tokens ht with rfl | rfl | rfl
    · exact List.mem_cons_self
    · exact List.mem_cons_of_mem _ List.mem_cons_self
    · exact List.mem_cons_of_mem _ (List.mem_cons_of_mem _ List.mem_cons_self)
  have hplain : ∀ cs ∈ [['a', ' '], ['[', ' '], [']', ' ']], ∀ c ∈ cs, c ≠ '/' ∧ c ≠ '\r' := by simp
  exact hplain _ hwritten c hc

theorem tokenize_nestedIndex (n : Nat) : ∃ tokens, tokenize (nestedIndex n) = .ok tokens ∧
    tokens.map Token.shape = (Expr.nestedIndex n).spelled ++ [(.endOfFile, "")] := by
  have hstart : Text.isIdentifierStart 'a' = true := by decide
  have hname : Rewritable ⟨.identifier, "a", .start⟩ :=
    ⟨⟨by decide, 'a', [], rfl, hstart, by simp [Text.isIdentifierPart_of_start hstart]⟩, by decide, rfl⟩
  have hall : ∀ t ∈ (Expr.nestedIndex n).spelled.map fun x => (⟨x.1, x.2, .start⟩ : Token),
      Rewritable t := by
    intro t ht
    rcases mem_nestedIndex_tokens ht with rfl | rfl | rfl
    · exact hname
    · exact ⟨rfl, by decide, rfl⟩
    · exact ⟨rfl, by decide, rfl⟩
  obtain ⟨tokens, htokens, hshapes⟩ := tokenize_spaced hall
  refine ⟨tokens, htokens, ?_⟩
  rw [hshapes, List.map_map]
  exact congrArg (· ++ _) (List.map_id _)

/-! ## Open brackets -/

/-- The tokens in front of the innermost key. -/
def openings : Nat → List Kind
  | 0 => []
  | n + 1 => .identifier :: .mark .openBracket :: openings n

theorem openBehind_openings (n : Nat) (before : List Bracket) :
    openBehind before (openings n) = some (List.replicate n .square ++ before) := by
  induction n generalizing before with
  | zero => rfl
  | succ n ih =>
    have hread : openBehind before (openings (n + 1)) = openBehind (.square :: before) (openings n) := rfl
    rw [hread, ih, List.replicate_succ', List.append_assoc, List.singleton_append]

theorem openings_front (n : Nat) : openings n <+: (Expr.nestedIndex n).spelled.map Prod.fst := by
  induction n with
  | zero => exact List.nil_prefix
  | succ n ih =>
    have hkinds : (Expr.nestedIndex (n + 1)).spelled.map Prod.fst = .identifier :: .mark .openBracket ::
        ((Expr.nestedIndex n).spelled.map Prod.fst ++ [.mark .closeBracket]) := by
      simp [Expr.spelled_nestedIndex, inBrackets]
    rw [hkinds, openings, List.prefix_cons_inj, List.prefix_cons_inj]
    exact ih.trans (List.prefix_append _ _)

/-- Tokens with the shapes of nested indexes are read as one expression. -/
theorem ofTokens_nestedIndex {tokens : List Token} {source : String}
    (htokens : tokenize source = .ok tokens)
    (hshapes : tokens.map Token.shape = (Expr.nestedIndex n).spelled ++ [(.endOfFile, "")]) :
    ∃ e, Expr.ofTokens tokens ⟨false⟩ = .ok e := by
  have hvisible : (Token.visible tokens).map Token.shape = (Expr.nestedIndex n).spelled := by
    have hfilter : (Token.visible tokens).map Token.shape = (tokens.map Token.shape).filter
        fun x => !x.1.isComment && x.1 != .endOfFile := by
      rw [List.filter_map]
      rfl
    rw [hfilter, hshapes, List.filter_append, List.filter_eq_self.2]
    · exact List.append_nil _
    · intro x hx
      obtain ⟨hseen, hinside⟩ := Expr.visible_nestedIndex n x hx
      simp [hseen, hinside]
  have hshifts : (Token.visible tokens).IsChain Token.ShiftsTogether := by
    have hmark : ∀ t ∈ Token.visible tokens, t.kind ≠ .mark .greater := by
      intro t ht hgreater
      have hmem := hvisible ▸ List.mem_map_of_mem (f := Token.shape) ht
      have hshape : t.shape.1 = .mark .greater := hgreater
      rcases Expr.mem_spelled_nestedIndex _ hmem with h | h | h
      all_goals
        rw [h] at hshape
        cases hshape
    generalize Token.visible tokens = ts at hmark
    induction ts with
    | nil => exact .nil
    | cons t ts ih =>
      rw [List.forall_mem_cons] at hmark
      exact (ih hmark.2).cons fun t' _ hgreater => absurd hgreater hmark.1
  have hspells : (Cursor.ofTokens tokens).Spells (Expr.nestedIndex n).spelled :=
    ⟨Token.visible tokens, tokenize_at htokens, hvisible, hshifts⟩
  have hlength : (Expr.nestedIndex n).spelled.length ≤ (Cursor.ofTokens tokens).remaining + 1 := by
    rw [Cursor.remaining, hspells.length_ahead]
    exact Nat.le_succ _
  have hyields : Yields ⟨false, 0⟩ (Grammar.ofDepth _).wholeExpression _ (Expr.nestedIndex n).Alike [] :=
    (Expr.readable_nestedIndex n).whole (Expr.markedAs_nestedIndex n) hlength
      (show 0 + 2 * 0 < depthLimit by decide)
  obtain ⟨e, d, hok, -, -⟩ := hyields _ hspells
  refine ⟨e, ?_⟩
  unfold Expr.ofTokens runOn
  dsimp only
  rw [hok]
  rfl

/-- Indexes in the keys of indexes are accepted at any depth: the text with `n` of them has `n` brackets
open in its middle. -/
theorem accepted_nestedIndex (n : Nat) : Accepted (nestedIndex n) ∧
    ∃ tokens, tokenize (prepare (nestedIndex n)) = .ok tokens ∧
      ∃ ks, ks <+: (Token.significant tokens).map (·.kind) ∧
        openBehind [] ks = some (List.replicate n .square) := by
  obtain ⟨tokens, htokens, hshapes⟩ := tokenize_nestedIndex n
  have hprepared : tokenize (prepare (nestedIndex n)) = .ok tokens := by
    rw [prepare_nestedIndex]
    exact htokens
  obtain ⟨e, he⟩ := ofTokens_nestedIndex htokens hshapes
  refine ⟨.inr ⟨e, ?_⟩, tokens, hprepared, openings n, ?_, ?_⟩
  · unfold Expr.ofSource
    rw [hprepared]
    exact he
  · have hseen : Token.significant tokens = tokens := by
      unfold Token.significant
      apply List.filter_eq_self.2
      intro t ht
      have hmem := hshapes ▸ List.mem_map_of_mem (f := Token.shape) ht
      obtain hmem | hmem := List.mem_append.1 hmem
      · have hseen := (Expr.visible_nestedIndex n _ hmem).1
        simpa [Token.shape] using hseen
      · have hkind : t.kind = .endOfFile := congrArg Prod.fst (List.mem_singleton.1 hmem)
        rw [hkind]
        rfl
    have hkinds : tokens.map (·.kind) = (tokens.map Token.shape).map Prod.fst := by
      rw [List.map_map]
      rfl
    rw [hseen, hkinds, hshapes, List.map_append]
    exact (openings_front n).trans (List.prefix_append _ _)
  · rw [openBehind_openings, List.append_nil]

/-- A thousand and one brackets are more than five for each level of nesting, and are open at once in a
text that is accepted. -/
theorem accepted_nestedIndex_deep : Accepted (nestedIndex 1001) ∧
    ∃ tokens, tokenize (prepare (nestedIndex 1001)) = .ok tokens ∧
      ∃ ks brackets, ks <+: (Token.significant tokens).map (·.kind) ∧
        openBehind [] ks = some brackets ∧ 5 * depthLimit < brackets.length := by
  obtain ⟨haccepted, tokens, htokens, ks, hks, hopen⟩ := accepted_nestedIndex 1001
  refine ⟨haccepted, tokens, htokens, ks, _, hks, hopen, ?_⟩
  rw [List.length_replicate]
  decide

end Source

end ScriptFront
