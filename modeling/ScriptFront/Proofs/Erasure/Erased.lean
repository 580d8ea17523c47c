import ScriptFront.Proofs.Erasure.Admitted
import ScriptFront.Proofs.Erasure.Files
import ScriptFront.Proofs.Erasure.Found
import ScriptFront.Proofs.Erasure.MemberRead

/-!
# Types do not change the tree

A type may be inserted behind the name of a variable, a class field, a parameter or a caught value, or behind
the question mark there, and between the parameters of a function and its body; a cast may be inserted behind
every postfix expression. The file stays the same.
-/

namespace ScriptFront

/-- The inserted type is read to its end. -/
theorem Token.Admits.readsInserted {before behind type : List Token} {opening : Token}
    (h : Admits before opening behind) (htype : TypePart.Derives (.item .type) type) {k : Nat}
    (hk : type.length < k) : Production.ReadsInserted (h.insertion type) (Grammar.ofDepth k).type :=
  TypePart.Reads.enters htype.reads hk h.ends

open Production in
/-- A type may be inserted at every place for one: unless the nesting gets too deep, the file stays the
same. -/
theorem File.ofTokens_inserted {before behind type : List Token} {opening : Token} {path : String}
    {options : Options} {f : File} (htype : TypePart.Derives (.item .type) type)
    (hadmits : Token.Admits before opening behind)
    (hplace : Slot.InFile ⟨(Cursor.ofTokens behind).remaining, opening.isWord "as"⟩ options (before ++ behind))
    (hok : File.ofTokens (before ++ behind) path options = .ok f) :
    File.ofTokens (before ++ opening :: (type ++ behind)) path options = .ok f ∨
      ∃ position, File.ofTokens (before ++ opening :: (type ++ behind)) path options =
        .error ⟨.nestingTooDeep, position⟩ := by
  let P := hadmits.insertion type
  have hwithout : Cursor.ofTokens (before ++ behind) = P.without P.before := hadmits.ofTokens_without
  have hwithin : Cursor.ofTokens (before ++ opening :: (type ++ behind)) = P.within P.before :=
    hadmits.ofTokens_within htype.seen
  have hdepth : (P.within P.before).remaining + 1 = (P.without P.before).remaining + 1 + (type.length + 1) := by
    have hlonger : (P.within P.before).remaining = (P.without P.before).remaining + (type.length + 1) :=
      hadmits.remaining_within
    omega
  have hslot : P.slot = ⟨(Cursor.ofTokens behind).remaining, opening.isWord "as"⟩ :=
    congrArg (Slot.mk · _) hadmits.alike.length
  have hreads (k : Nat) (hk : type.length + 1 ≤ k) : ReadsInserted P (Grammar.ofDepth k).type :=
    hadmits.readsInserted htype hk
  have hasked : Slot.Asked P.slot options (before ++ behind) := hslot ▸ hplace.asked
  unfold Slot.Asked at hasked
  rw [hwithout] at hasked
  unfold File.ofTokens runOn at hok ⊢
  rw [hwithout] at hok
  rw [hwithin, hadmits.comments_eq htype.seen]
  dsimp only at hok ⊢
  rw [hdepth]
  cases hrun : (Grammar.ofDepth ((P.without P.before).remaining + 1)).constructs ⟨options.optimize, 0⟩
      (P.without P.before) with
  | error e =>
    rw [hrun] at hok
    cases hok
  | ok r =>
    obtain ⟨d, e⟩ := r
    rw [hrun] at hok
    cases hok
    rcases Grammar.constructs_inserted hreads hrun hasked with ⟨e', -, hinserted⟩ | ⟨position, hdeep⟩
    · left
      rw [hinserted]
      rfl
    · right
      rw [hdeep]
      exact ⟨position, rfl⟩

/-- In `class A { b; c(d) { try { let e = d } catch (f) { } } }`, the type `keyof A | B[]` may be inserted behind
`b`, `d` and `c(d)`, behind `e` and, with `as`, behind the second `d`, and behind `f`. -/
theorem File.ofTokens_inserted_class :
    let tokens : List Token := [⟨.keyword .classWord, "class", ⟨1, 1⟩⟩, ⟨.identifier, "A", ⟨1, 7⟩⟩,
      ⟨.mark .openBrace, "\x7b", ⟨1, 9⟩⟩, ⟨.identifier, "b", ⟨1, 11⟩⟩, ⟨.mark .semicolon, ";", ⟨1, 12⟩⟩,
      ⟨.identifier, "c", ⟨1, 14⟩⟩, ⟨.mark .openParen, "(", ⟨1, 15⟩⟩, ⟨.identifier, "d", ⟨1, 16⟩⟩,
      ⟨.mark .closeParen, ")", ⟨1, 17⟩⟩, ⟨.mark .openBrace, "\x7b", ⟨1, 19⟩⟩,
      ⟨.keyword .tryWord, "try", ⟨1, 21⟩⟩, ⟨.mark .openBrace, "\x7b", ⟨1, 25⟩⟩,
      ⟨.keyword .letWord, "let", ⟨1, 27⟩⟩, ⟨.identifier, "e", ⟨1, 31⟩⟩, ⟨.mark .equals, "=", ⟨1, 33⟩⟩,
      ⟨.identifier, "d", ⟨1, 35⟩⟩, ⟨.mark .closeBrace, "\x7d", ⟨1, 37⟩⟩,
      ⟨.keyword .catchWord, "catch", ⟨1, 39⟩⟩, ⟨.mark .openParen, "(", ⟨1, 45⟩⟩,
      ⟨.identifier, "f", ⟨1, 46⟩⟩, ⟨.mark .closeParen, ")", ⟨1, 47⟩⟩, ⟨.mark .openBrace, "\x7b", ⟨1, 49⟩⟩,
      ⟨.mark .closeBrace, "\x7d", ⟨1, 51⟩⟩, ⟨.mark .closeBrace, "\x7d", ⟨1, 53⟩⟩,
      ⟨.mark .closeBrace, "\x7d", ⟨1, 55⟩⟩, ⟨.endOfFile, "", ⟨1, 56⟩⟩]
    let type : List Token := [⟨.identifier, "keyof", ⟨2, 1⟩⟩, ⟨.identifier, "A", ⟨2, 7⟩⟩,
      ⟨.mark .bar, "|", ⟨2, 9⟩⟩, ⟨.identifier, "B", ⟨2, 11⟩⟩, ⟨.mark .openBracket, "[", ⟨2, 12⟩⟩,
      ⟨.mark .closeBracket, "]", ⟨2, 13⟩⟩]
    let colon : Token := ⟨.mark .colon, ":", ⟨1, 1⟩⟩
    let places : List (Nat × Token) := [(4, colon), (8, colon), (9, colon), (14, colon),
      (16, ⟨.identifier, "as", ⟨1, 1⟩⟩), (20, colon)]
    ∃ f, ∀ x ∈ places,
      File.ofTokens (tokens.take x.1 ++ tokens.drop x.1) "test.ts" ⟨false⟩ = .ok f ∧
      (File.ofTokens (tokens.take x.1 ++ x.2 :: (type ++ tokens.drop x.1)) "test.ts" ⟨false⟩ = .ok f ∨
        ∃ position, File.ofTokens (tokens.take x.1 ++ x.2 :: (type ++ tokens.drop x.1)) "test.ts" ⟨false⟩ =
          .error ⟨.nestingTooDeep, position⟩) := by
  intro tokens type colon places
  have hkeyof : TypePart.Derives .operand [⟨.identifier, "keyof", ⟨2, 1⟩⟩, ⟨.identifier, "A", ⟨2, 7⟩⟩] :=
    .operand (.inr ⟨_, rfl, rfl⟩) (.named rfl .pathEnd) .plain
  have harray : TypePart.Derives .operand [⟨.identifier, "B", ⟨2, 11⟩⟩, ⟨.mark .openBracket, "[", ⟨2, 12⟩⟩,
      ⟨.mark .closeBracket, "]", ⟨2, 13⟩⟩] :=
    .operand (.inl rfl) (.named rfl .pathEnd) (.array rfl rfl .plain)
  have htype : TypePart.Derives (.item .type) type := .type (.join hkeyof rfl (.last harray))
  obtain ⟨d, hread⟩ : ∃ d, Production.runOn Grammar.constructs ⟨false⟩ tokens = .ok d := ⟨_, rfl⟩
  obtain ⟨f, hf⟩ : ∃ f, File.ofTokens tokens "test.ts" ⟨false⟩ = .ok f := by
    unfold File.ofTokens
    rw [hread]
    exact ⟨_, rfl⟩
  have hadmits : ∀ x ∈ places, Token.Admits (tokens.take x.1) x.2 (tokens.drop x.1) := by
    simp only [places, List.forall_mem_cons]
    refine ⟨?_, ?_, ?_, ?_, ?_, ?_, by simp⟩
    all_goals constructor <;> decide
  have hasked : ∀ x ∈ places,
      Slot.Asked ⟨(Cursor.ofTokens (tokens.drop x.1)).remaining, x.2.isWord "as"⟩ ⟨false⟩ tokens := by
    simp only [places, List.forall_mem_cons]
    refine ⟨?_, ?_, ?_, ?_, ?_, ?_, by simp⟩
    all_goals
      intro r h
      cases h
  refine ⟨f, fun x hx => ?_⟩
  have htokens : tokens.take x.1 ++ tokens.drop x.1 = tokens := List.take_append_drop x.1 tokens
  have hok : File.ofTokens (tokens.take x.1 ++ tokens.drop x.1) "test.ts" ⟨false⟩ = .ok f := by
    rw [htokens]
    exact hf
  refine ⟨hok, File.ofTokens_inserted htype (hadmits x hx) ?_ hok⟩
  rw [htokens]
  exact (Slot.asked_iff hread).1 (hasked x hx)

/-- From `type = 5` to `type as T = 5`, which starts like the declaration of a type `as`. -/
theorem File.ofTokens_castBehindType :
    (∃ f, File.ofTokens [⟨.identifier, "type", ⟨1, 1⟩⟩, ⟨.mark .equals, "=", ⟨1, 11⟩⟩, ⟨.int, "5", ⟨1, 13⟩⟩,
        ⟨.endOfFile, "", ⟨1, 14⟩⟩] "test.ts" ⟨false⟩ = .ok f ∧
      f.statements = [.assign (.identifier ⟨⟨1, 1⟩, "type"⟩) (.constant ⟨1, 13⟩ .int "5")]) ∧
    TypePart.Derives (.item .type) [⟨.identifier, "T", ⟨1, 9⟩⟩] ∧
    File.ofTokens [⟨.identifier, "type", ⟨1, 1⟩⟩, ⟨.identifier, "as", ⟨1, 6⟩⟩, ⟨.identifier, "T", ⟨1, 9⟩⟩,
      ⟨.mark .equals, "=", ⟨1, 11⟩⟩, ⟨.int, "5", ⟨1, 13⟩⟩, ⟨.endOfFile, "", ⟨1, 14⟩⟩] "test.ts" ⟨false⟩ =
        .error ⟨.expecting "=" "T", ⟨1, 9⟩⟩ :=
  ⟨⟨_, rfl, rfl⟩, .type (.last (.operand (.inl rfl) (.named rfl .pathEnd) .plain)), rfl⟩

end ScriptFront
