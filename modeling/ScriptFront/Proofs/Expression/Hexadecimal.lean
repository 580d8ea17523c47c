import ScriptFront.Proofs.Expression.FlatParse
import ScriptFront.Proofs.Text.Positional
import ScriptFront.Proofs.Token.Marker
import ScriptFront.Proofs.Token.Scans

/-!
# Hexadecimal literals

A hexadecimal literal is one token, whatever the case of its sign for the base, and the token keeps all
digits. Where an expression starts with such a token, it stands for its number if that is in the signed
64-bit range, and else nothing is made of the expression. Both together say what a text that is all
hexadecimal literal is read as (`Expr.ofSource_hexadecimal`).
-/

namespace ScriptFront

open Text (hexDigits hexNumber)

/-! ## The literal as a token -/

theorem Token.dropBytes?_sign (digits : List Char) :
    dropBytes? 2 ('0' :: 'x' :: digits) = some digits := by
  have hzero : Char.utf8Size '0' = 1 := rfl
  have hx : Char.utf8Size 'x' = 1 := rfl
  simp [dropBytes?, hzero, hx]

section Literal

variable {sign digits : String} (hsign : sign = "0x" ∨ sign = "0X") (hne : digits ≠ "")
  (hdigits : digits.toList ⊆ hexDigits)

include hne hdigits

theorem Token.hexValue?_eq {t : Token} (ht : t.text = "0x" ++ digits) :
    t.hexValue? = if hexNumber digits < 2 ^ 63 then some (hexNumber digits : Int) else none := by
  have htext : t.text.toList = '0' :: 'x' :: digits.toList := by
    rw [ht, String.toList_append]
    rfl
  unfold hexValue?
  rw [htext, dropBytes?_sign, Option.getD_some,
    Text.readSigned64_digits (mt String.toList_eq_nil_iff.1 hne)
      fun _ hc => Text.isDigit_of_mem_hexDigits (hdigits hc),
    Text.numberOf_eq_hexNumber hdigits]

include hsign

/-- Both signs for the base open a literal, which ends with the text. -/
theorem Lexeme.atStart_hexadecimal :
    atStart (sign ++ digits).toList = .ok ⟨.hex, "0x" ++ digits, (sign ++ digits).toList.length⟩ := by
  have htext : String.ofList ('0' :: 'x' :: digits.toList) = "0x" ++ digits := by
    rw [← String.toList_inj, String.toList_ofList, String.toList_append]
    rfl
  have hread : hexadecimal (digits.toList ++ []) = _ :=
    hexadecimal_digits (mt String.toList_eq_nil_iff.1 hne)
      (fun _ hc => Text.isDigit_of_mem_hexDigits (hdigits hc)) (by rintro _ ⟨⟩)
  rw [List.append_nil, htext] at hread
  rw [String.toList_append, List.length_append]
  rcases hsign with rfl | rfl
  · exact (atStart_number (by decide)).trans hread
  · exact (atStart_number (by decide)).trans hread

theorem Source.tokenize_hexadecimal :
    tokenize (sign ++ digits) = .ok [⟨.hex, "0x" ++ digits, .start⟩,
      .endOfFile (Position.start.advanceAll (sign ++ digits).toList)] := by
  have hread := Lexeme.atStart_hexadecimal hsign hne hdigits
  have hlead : (sign ++ digits).toList ≠ [] := by
    intro hnil
    rw [hnil] at hread
    cases hread
  rw [tokenize_eq_scan, scan_lexeme .start hread hlead, List.drop_length, List.take_length]
  rfl

omit hne in
/-- Neither the ignore marker nor a carriage return stands in a literal. -/
theorem Source.prepare_hexadecimal : prepare (sign ++ digits) = sign ++ digits := by
  have hplain : ∀ c ∈ (sign ++ digits).toList, c ≠ '/' ∧ c ≠ '\r' := by
    rw [String.toList_append, List.forall_mem_append]
    constructor
    · rcases hsign with rfl | rfl <;> simp
    · exact fun _ hc => ⟨ne_of_mem_of_not_mem (hdigits hc) (by decide),
        ne_of_mem_of_not_mem (hdigits hc) (by decide)⟩
  have hkept := toList_prepare_front hplain ""
  rw [String.append_empty] at hkept
  rw [← String.toList_inj, hkept]
  exact List.append_nil _

end Literal

/-! ## The literal as an expression -/

namespace Grammar

open Production

variable {g : Grammar} {ctx : Context} {c : Cursor} {t : Token} {ts : List Token} {optimize : Bool}

theorem primary_hexadecimal (hc : c.At (t :: ts)) (ht : t.kind = .hex) :
    g.primary ctx c =
      match t.hexValue? with
      | some n => .ok (.constant t.position .int (toString n), c.next)
      | none => .error ⟨.invalidHexLiteral t.text, t.position⟩ := by
  unfold primary
  rw [run_peek_bind, hc.peek_cons]
  simp only [ht, ConstantKind.ofKind?, run_discard_next_bind]
  cases t.hexValue? <;> rfl

/-- A literal that stands for no number in the range ends an expression that starts with it, whatever
follows. -/
theorem wholeExpression_refused (hc : c.At (t :: ts)) (ht : t.kind = .hex) (hvalue : t.hexValue? = none) :
    g.wholeExpression ⟨optimize, 0⟩ c = .error ⟨.invalidHexLiteral t.text, t.position⟩ := by
  have hunary : ∀ ctx, g.unaryExpression ctx c = .error ⟨.invalidHexLiteral t.text, t.position⟩ := by
    intro ctx
    rw [unaryExpression_eq g ctx hc (.inr (.inr ht))]
    refine run_bind_of_error ?_
    rw [primary_hexadecimal hc ht, hvalue]
  have hconditional : ∀ ctx, g.conditional ctx c = .error ⟨.invalidHexLiteral t.text, t.position⟩ :=
    fun ctx => run_bind_of_error (run_bind_of_error (hunary ctx))
  have harrow : c.startsArrow = false := by
    unfold Cursor.startsArrow
    rw [hc.peekKind_cons, ht]
  refine run_bind_of_error ?_
  unfold valueExpression
  rw [run_nested _ _ (show 0 < depthLimit by decide), run_asks_bind, harrow]
  exact hconditional _

/-- A literal that is all of a token list is the constant of its number. -/
theorem wholeExpression_hexadecimal {n : Nat} {value : Int} (hn : 1 ≤ n) (hc : c.At [t]) (ht : t.kind = .hex)
    (hvalue : t.hexValue? = some value) :
    ∃ d, (ofDepth n).wholeExpression ⟨optimize, 0⟩ c =
      .ok (.constant t.position .int (toString value), d) := by
  have hoperand : t.operand? = some (.operand t.position (some .int) (toString value)) := by
    unfold Token.operand?
    rw [ht]
    dsimp only
    rw [hvalue]
    rfl
  have hnot : ¬ HasArguments [t] := by
    rintro (⟨hname, -⟩ | hnil)
    · rw [ht] at hname
      cases hname
    · exact hnil
  obtain ⟨e, d, hok, hinorder, hgrouped⟩ :=
    wholeExpression_grouped n optimize hc (.mk hoperand .nil) hn hnot
  obtain rfl : e = .constant t.position .int (toString value) := hgrouped.unique .constant hinorder
  exact ⟨d, hok⟩

end Grammar

/-- Tokens of which only a literal is seen are read as the constant of its number, or refused. -/
theorem Expr.ofTokens_hexadecimal {t : Token} {tokens : List Token} (hc : (Cursor.ofTokens tokens).At [t])
    (ht : t.kind = .hex) (options : Options) :
    ofTokens tokens options =
      match t.hexValue? with
      | some n => .ok (.constant t.position .int (toString n))
      | none => .error ⟨.invalidHexLiteral t.text, t.position⟩ := by
  unfold ofTokens Production.runOn
  dsimp only
  cases hvalue : t.hexValue? with
  | some n =>
    obtain ⟨d, hok⟩ := Grammar.wholeExpression_hexadecimal (Nat.le_add_left 1 _) hc ht hvalue
    rw [hok]
    rfl
  | none =>
    rw [Grammar.wholeExpression_refused hc ht hvalue]
    rfl

/-! ## The literal as a text -/

theorem Cause.message_invalidHexLiteral (text : String) :
    (invalidHexLiteral text).message = "Error parsing hex literal '" ++ text ++ "'" := by
  have hfill : Text.fillFrom 0 "Error parsing hex literal '\x7b0\x7d'".toList [text] =
      "Error parsing hex literal '".toList ++ (text.toList ++ "'".toList) := rfl
  show String.ofList _ = _
  rw [hfill, ← String.toList_inj]
  simp

theorem Expr.ofSource_of_tokenize {source : String} {tokens : List Token}
    (h : Source.tokenize (Source.prepare source) = .ok tokens) :
    ofSource source = ofTokens tokens ⟨false⟩ := by
  unfold ofSource
  rw [h]
  rfl

/-- **Hexadecimal literals.** Digits of any number and case behind the sign for the base are read as the
number that they stand for, written in decimal, if it is below 2^63. A larger number is refused with all its
digits, neither cut nor brought into the range. -/
theorem Expr.ofSource_hexadecimal {sign digits : String} (hsign : sign = "0x" ∨ sign = "0X")
    (hne : digits ≠ "") (hdigits : digits.toList ⊆ hexDigits) :
    (hexNumber digits < 2 ^ 63 →
      ofSource (sign ++ digits) = .ok (.constant .start .int (toString (hexNumber digits)))) ∧
    (2 ^ 63 ≤ hexNumber digits →
      ofSource (sign ++ digits) = .error ⟨.invalidHexLiteral ("0x" ++ digits), .start⟩ ∧
      (Cause.invalidHexLiteral ("0x" ++ digits)).message =
        "Error parsing hex literal '" ++ ("0x" ++ digits) ++ "'") := by
  have htokens := Source.tokenize_hexadecimal hsign hne hdigits
  rw [← Source.prepare_hexadecimal hsign hdigits] at htokens
  have hvalue := Token.hexValue?_eq hne hdigits (t := ⟨.hex, "0x" ++ digits, .start⟩) rfl
  rw [ofSource_of_tokenize htokens,
    ofTokens_hexadecimal (t := ⟨.hex, "0x" ++ digits, .start⟩) (Source.tokenize_at htokens) rfl]
  constructor
  · intro hlt
    rw [hvalue, if_pos hlt]
    rfl
  · intro hle
    rw [hvalue, if_neg (Nat.not_lt.2 hle)]
    exact ⟨rfl, Cause.message_invalidHexLiteral _⟩

/-- The largest number of the range behind leading zeros, and the number after it. -/
theorem Expr.ofSource_hexadecimal_bounds :
    ofSource "0X007fffFFFFffffFFFF" = .ok (.constant .start .int "9223372036854775807") ∧
    ofSource "0x8000000000000000" = .error ⟨.invalidHexLiteral "0x8000000000000000", .start⟩ ∧
    (Cause.invalidHexLiteral "0x8000000000000000").message =
      "Error parsing hex literal '0x8000000000000000'" := by
  have hlargest : hexNumber "007fffFFFFffffFFFF" = 9223372036854775807 := by decide
  have hbeyond : hexNumber "8000000000000000" = 9223372036854775808 := by decide
  have hread := (ofSource_hexadecimal (.inr rfl) (by decide)
    (by decide : "007fffFFFFffffFFFF".toList ⊆ hexDigits)).1 (by rw [hlargest]; decide)
  rw [hlargest] at hread
  exact ⟨hread, (ofSource_hexadecimal (.inl rfl) (by decide)
    (by decide : "8000000000000000".toList ⊆ hexDigits)).2 (by rw [hbeyond]; decide)⟩

end ScriptFront
