import ScriptFront.Proofs.Erasure.Insertion

/-!
# The types of the grammar

`TypePart.Derives part w` says that the tokens `w` make up a part of a type. Parts that stand between
brackets have the closing one with them, but for type arguments and type parameters.

A function type goes on as far as it can, so it is the last operand of a union, and array brackets behind
it belong to its result (`TypePart.Derives.join_type`, `TypePart.Derives.array`).
-/

namespace ScriptFront

/-! ## Tokens in types -/

/-- Whether the token is one of some marks. -/
def Kind.among (ms : List Mark) (k : Kind) : Bool := ms.any (k == .mark ·)

/-- Whether the token is a type by itself and no name. -/
def Kind.isLiteralType : Kind → Bool
  | .string | .int | .float | .hex | .rune => true
  | .keyword .trueWord | .keyword .falseWord | .keyword .nullWord | .keyword .undefinedWord => true
  | _ => false

/-- Whether the token can be the name of a member of an object type. -/
def Kind.namesMember : Kind → Bool
  | .identifier | .keyword _ | .string | .int => true
  | _ => false

/-- Whether a member of an object type may start with the token. -/
def Kind.startsMember : Kind → Bool
  | .mark .openBracket | .mark .openParen | .mark .less => true
  | k => k.namesMember

theorem Kind.among_eq_true {ms : List Mark} {k : Kind} : k.among ms = true ↔ ∃ m ∈ ms, k = .mark m := by
  unfold among
  simp

theorem Kind.among_eq_false {ms : List Mark} {k : Kind} (h : ∀ m, k ≠ .mark m) : k.among ms = false := by
  refine eq_false_of_ne_true fun hk => ?_
  obtain ⟨m, -, hm⟩ := among_eq_true.1 hk
  exact h m hm

theorem Kind.among_mono {ms ms' : List Mark} {k : Kind} (hms : ms ⊆ ms') (hk : k.among ms' = false) :
    k.among ms = false := by
  refine eq_false_of_ne_true fun h => ?_
  obtain ⟨m, hm, rfl⟩ := among_eq_true.1 h
  rw [among_eq_true.2 ⟨m, hms hm, rfl⟩] at hk
  cases hk

/-- Names are no marks. -/
theorem Kind.among_of_isName {ms : List Mark} {k : Kind} (h : k.isName = true) : k.among ms = false := by
  refine among_eq_false fun m hm => ?_
  rw [hm] at h
  cases h

theorem Kind.startsMember_of_namesMember {k : Kind} (h : k.namesMember = true) : k.startsMember = true := by
  cases k with
  | mark m => cases h
  | _ => exact h

theorem Kind.startsMember_of_opensSignature {k : Kind} (h : opensSignature k = true) :
    k.startsMember = true := by
  have hk : k = .mark .openParen ∨ k = .mark .less := by simpa [opensSignature] using h
  rcases hk with rfl | rfl <;> rfl

theorem Production.joinsTypes_eq {k : Kind} (h : joinsTypes k = true) : k = .mark .bar ∨ k = .mark .ampersand := by
  simpa [joinsTypes] using h

namespace Token

/-- A word that may go in front of a type. -/
def isTypeOperator (t : Token) : Bool := t.isWord "keyof" || t.isWord "readonly"

/-- Whether the token is the name of a type, or starts a qualified one. -/
def namesType (t : Token) : Bool :=
  match t.kind with
  | .identifier => !t.isTypeOperator
  | .keyword .trueWord | .keyword .falseWord | .keyword .nullWord | .keyword .undefinedWord
  | .keyword .typeofWord | .keyword .newWord => false
  | .keyword _ => true
  | _ => false

theorem isWord_of_kind {t : Token} (h : t.kind ≠ .identifier) (w : String) : t.isWord w = false := by
  unfold isWord
  rw [beq_eq_false_iff_ne.2 h]
  rfl

theorem isTypeOperator_of_kind {t : Token} (h : t.kind ≠ .identifier) : t.isTypeOperator = false := by
  unfold isTypeOperator
  rw [isWord_of_kind h, isWord_of_kind h]
  rfl

theorem isName_of_namesType {t : Token} (h : t.namesType = true) : t.kind.isName = true := by
  unfold namesType at h
  revert h
  cases t.kind with
  | identifier | keyword k => exact fun _ => rfl
  | _ => exact fun h => nomatch h

theorem isTypeOperator_of_namesType {t : Token} (h : t.namesType = true) : t.isTypeOperator = false := by
  by_cases hkind : t.kind = .identifier
  · unfold namesType at h
    rw [hkind] at h
    simpa using h
  · exact isTypeOperator_of_kind hkind

/-- A token of the kind, or none. -/
def MayBe (k : Kind) (w : List Token) : Prop := w = [] ∨ ∃ t : Token, t.kind = k ∧ w = [t]

/-- One word in front of a type, or none. -/
def MayOperate (w : List Token) : Prop := w = [] ∨ ∃ t : Token, t.isTypeOperator = true ∧ w = [t]

end Token

/-! ## Parts of types -/

/-- What lists in types consist of. -/
inductive TypeItem where
  | type
  /-- Of a tuple. -/
  | element
  | parameter
  | typeParameter
deriving DecidableEq, Repr

/-- The mark that closes a list of such items. -/
def TypeItem.close : TypeItem → Mark
  | type | typeParameter => .greater
  | element => .closeBracket
  | parameter => .closeParen

inductive TypePart where
  | item (i : TypeItem)
  /-- Items with commas between them, one at least. -/
  | separated (i : TypeItem)
  /-- Items with commas between them, up to a closing mark. -/
  | listed (i : TypeItem)
  /-- A type behind a mark, or nothing. -/
  | behind (m : Mark)
  /-- What a type parameter has behind its name. -/
  | bounds
  | union
  /-- What stands in a union. -/
  | operand
  | brackets
  /-- An operand without the word in front of it and the array brackets behind it. -/
  | primary
  /-- What a qualified name has behind its first name. -/
  | path
  | function
  /-- Parameters and a result, with an arrow between them. -/
  | arrow
  /-- The members of an object type, up to the closing brace. -/
  | members
  | member
  /-- A member without its `readonly`. -/
  | field
  | signature
  /-- Parameters, and a result behind a colon if there is one. -/
  | call
deriving DecidableEq, Repr

namespace TypePart

open Token

/-- Whether tokens make up a part of a type. -/
inductive Derives : TypePart → List Token → Prop
  -- unions and intersections
  | type {w : List Token} (hw : Derives union w) : Derives (item .type) w
  | leading {t : Token} {w : List Token} (ht : Production.joinsTypes t.kind = true) (hw : Derives union w) :
    Derives (item .type) (t :: w)
  | last {w : List Token} (hw : Derives operand w) : Derives union w
  | join {t : Token} {v w : List Token} (hv : Derives operand v)
    (ht : Production.joinsTypes t.kind = true) (hw : Derives union w) : Derives union (v ++ t :: w)
  | function {u w : List Token} (hu : MayOperate u) (hw : Derives function w) : Derives union (u ++ w)
  | operand {u v w : List Token} (hu : MayOperate u) (hv : Derives primary v)
    (hw : Derives brackets w) : Derives operand (u ++ (v ++ w))
  | plain : Derives brackets []
  | array {o c : Token} {w : List Token} (ho : o.kind = .mark .openBracket)
    (hc : c.kind = .mark .closeBracket) (hw : Derives brackets w) : Derives brackets (o :: c :: w)
  -- names and literals
  | named {t : Token} {w : List Token} (ht : t.namesType = true) (hw : Derives path w) :
    Derives primary (t :: w)
  | generic {t o c : Token} {v w : List Token} (ht : t.namesType = true) (hv : Derives path v)
    (ho : o.kind = .mark .less) (hw : Derives (separated .type) w) (hc : c.kind = .mark .greater) :
    Derives primary (t :: (v ++ o :: (w ++ [c])))
  | query {q t : Token} {w : List Token} (hq : q.kind = .keyword .typeofWord) (ht : t.kind.isName = true)
    (hw : Derives path w) : Derives primary (q :: t :: w)
  | literal {t : Token} (ht : t.kind.isLiteralType = true) : Derives primary [t]
  | negative {m t : Token} (hm : m.kind = .mark .minus) (ht : t.kind = .int ∨ t.kind = .float) :
    Derives primary [m, t]
  | pathEnd : Derives path []
  | pathDot {p t : Token} {w : List Token} (hp : p.kind = .mark .dot) (ht : t.kind.isName = true)
    (hw : Derives path w) : Derives path (p :: t :: w)
  -- types in brackets
  | parenthesized {o c : Token} {w : List Token} (ho : o.kind = .mark .openParen)
    (hw : Derives (item .type) w) (hc : c.kind = .mark .closeParen) : Derives primary (o :: (w ++ [c]))
  | tuple {o : Token} {w : List Token} (ho : o.kind = .mark .openBracket)
    (hw : Derives (listed .element) w) : Derives primary (o :: w)
  | object {o : Token} {w : List Token} (ho : o.kind = .mark .openBrace) (hw : Derives members w) :
    Derives primary (o :: w)
  | element {u v w : List Token} (hu : MayBe (.mark .ellipsis) u) (hv : Derives (item .type) v)
    (hw : MayBe (.mark .question) w) : Derives (item .element) (u ++ (v ++ w))
  -- functions
  | callArrow {o a : Token} {v w : List Token} (ho : o.kind = .mark .openParen)
    (hv : Derives (listed .parameter) v) (ha : a.kind = .mark .arrow)
    (hw : Derives (item .type) w) : Derives arrow (o :: (v ++ a :: w))
  | arrow {w : List Token} (hw : Derives arrow w) : Derives function w
  | genericArrow {o c : Token} {v w : List Token} (ho : o.kind = .mark .less)
    (hv : Derives (separated .typeParameter) v) (hc : c.kind = .mark .greater) (hw : Derives arrow w) :
    Derives function (o :: (v ++ c :: w))
  | constructor {n : Token} {w : List Token} (hn : n.kind = .keyword .newWord) (hw : Derives arrow w) :
    Derives function (n :: w)
  | parameter {t : Token} {u v w : List Token} (hu : MayBe (.mark .ellipsis) u)
    (ht : t.kind.isName = true) (hv : MayBe (.mark .question) v) (hw : Derives (behind .colon) w) :
    Derives (item .parameter) (u ++ t :: (v ++ w))
  | typeParameter {t : Token} {w : List Token} (ht : t.kind.isName = true) (hw : Derives bounds w) :
    Derives (item .typeParameter) (t :: w)
  | unbound {w : List Token} (hw : Derives (behind .equals) w) : Derives bounds w
  | bound {t : Token} {v w : List Token} (ht : t.isWord "extends" = true) (hv : Derives (item .type) v)
    (hw : Derives (behind .equals) w) : Derives bounds (t :: (v ++ w))
  | absent {m : Mark} : Derives (behind m) []
  | present {m : Mark} {t : Token} {w : List Token} (ht : t.kind = .mark m)
    (hw : Derives (item .type) w) : Derives (behind m) (t :: w)
  -- lists
  | separatedLast {i : TypeItem} {w : List Token} (hw : Derives (item i) w) : Derives (separated i) w
  | separatedMore {i : TypeItem} {t : Token} {v w : List Token} (hv : Derives (item i) v)
    (ht : t.kind = .mark .comma) (hw : Derives (separated i) w) : Derives (separated i) (v ++ t :: w)
  | listedClose {i : TypeItem} {c : Token} (hc : c.kind = .mark i.close) : Derives (listed i) [c]
  | listedLast {i : TypeItem} {c : Token} {w : List Token} (hw : Derives (item i) w)
    (hc : c.kind = .mark i.close) : Derives (listed i) (w ++ [c])
  | listedMore {i : TypeItem} {t : Token} {v w : List Token} (hv : Derives (item i) v)
    (ht : t.kind = .mark .comma) (hw : Derives (listed i) w) : Derives (listed i) (v ++ t :: w)
  -- members of object types
  | membersClose {c : Token} (hc : c.kind = .mark .closeBrace) : Derives members [c]
  | membersSeparator {s : Token} {w : List Token} (hs : s.kind.among [.comma, .semicolon] = true)
    (hw : Derives members w) : Derives members (s :: w)
  | membersMember {s : Token} {v w : List Token} (hv : Derives member v)
    (hs : s.kind.among [.comma, .semicolon, .closeBrace] = true) (hw : Derives members (s :: w)) :
    Derives members (v ++ s :: w)
  | member {w : List Token} (hw : Derives field w) : Derives member w
  | readonly {r t : Token} {w : List Token} (hr : r.isWord "readonly" = true)
    (ht : t.kind.isName = true ∨ t.kind = .mark .openBracket) (hw : Derives field (t :: w)) :
    Derives member (r :: t :: w)
  | property {n : Token} {v w : List Token} (hn : n.kind.namesMember = true)
    (hv : MayBe (.mark .question) v) (hw : Derives (behind .colon) w) : Derives field (n :: (v ++ w))
  | method {n : Token} {v w : List Token} (hn : n.kind.namesMember = true)
    (hv : MayBe (.mark .question) v) (hw : Derives signature w) : Derives field (n :: (v ++ w))
  | callMember {w : List Token} (hw : Derives signature w) : Derives field w
  | index {o t c : Token} {u v w : List Token} (ho : o.kind = .mark .openBracket)
    (ht : t.kind.isName = true) (hu : Derives (behind .colon) u) (hc : c.kind = .mark .closeBracket)
    (hv : MayBe (.mark .question) v) (hw : Derives (behind .colon) w) :
    Derives field (o :: t :: (u ++ c :: (v ++ w)))
  | mapped {o t i c : Token} {u v w : List Token} (ho : o.kind = .mark .openBracket)
    (ht : t.kind.isName = true) (hi : i.isWord "in" = true) (hu : Derives (item .type) u)
    (hc : c.kind = .mark .closeBracket) (hv : MayBe (.mark .question) v)
    (hw : Derives (behind .colon) w) : Derives field (o :: t :: i :: (u ++ c :: (v ++ w)))
  | call {o : Token} {v w : List Token} (ho : o.kind = .mark .openParen)
    (hv : Derives (listed .parameter) v) (hw : Derives (behind .colon) w) :
    Derives call (o :: (v ++ w))
  | signature {w : List Token} (hw : Derives call w) : Derives signature w
  | genericSignature {o c : Token} {v w : List Token} (ho : o.kind = .mark .less)
    (hv : Derives (separated .typeParameter) v) (hc : c.kind = .mark .greater) (hw : Derives call w) :
    Derives signature (o :: (v ++ c :: w))

/-! ## First tokens -/

/-- What a name in a type has not behind it, but a parameter has. -/
def parameterMarks : List Mark := [.colon, .question, .comma, .closeParen]

/-- What no operand of a union starts with. -/
def closingMarks : List Mark := [.bar, .ampersand, .greater, .closeBracket, .ellipsis] ++ parameterMarks

/-- Whether `t` and the tokens behind it cannot be taken for anything but the start of a type: `t` does not
join or end types, and if it is a name, it is not the name of a parameter. -/
structure Opens (t : Token) (w : List Token) : Prop where
  first : t.kind.among closingMarks = false
  second : t.kind.isName = true → ∀ s ∈ w.head?, s.kind.among parameterMarks = false

theorem Opens.append {t : Token} {v w : List Token} (h : Opens t v)
    (hw : ∀ s ∈ w.head?, s.kind.among parameterMarks = false) : Opens t (v ++ w) := by
  refine ⟨h.first, fun ht s hs => ?_⟩
  cases v with
  | nil => exact hw s hs
  | cons u v => exact h.second ht s hs

theorem Opens.of_mark {t : Token} {w : List Token} {m : Mark} (ht : t.kind = .mark m)
    (hm : Kind.among closingMarks (.mark m) = false) :
    Opens t w := by
  refine ⟨by rw [ht]; exact hm, fun hname => ?_⟩
  rw [ht] at hname
  cases hname

namespace Derives

variable {t : Token} {v w : List Token}

theorem path_head (h : Derives .path w) : ∀ s ∈ w.head?, s.kind = .mark .dot := by
  cases h with
  | pathEnd => simp
  | pathDot hp _ _ => simpa using hp

theorem brackets_head (h : Derives .brackets w) : ∀ s ∈ w.head?, s.kind = .mark .openBracket := by
  cases h with
  | plain => simp
  | array ho _ _ => simpa using ho

theorem second_of_path (h : Derives .path w) : ∀ s ∈ w.head?, s.kind.among parameterMarks = false := by
  intro s hs
  rw [h.path_head s hs]
  rfl

/-- A type without a word in front of it. -/
theorem primary_opens (h : Derives .primary w) :
    ∃ t v, w = t :: v ∧ t.isTypeOperator = false ∧ Opens t v := by
  have hmark {o : Token} {m : Mark} (ho : o.kind = .mark m) : o.isTypeOperator = false :=
    isTypeOperator_of_kind (by rw [ho]; simp)
  have hnamed {t : Token} {v : List Token} (ht : t.namesType = true) (hv : Derives .path v) : Opens t v :=
    ⟨Kind.among_of_isName (isName_of_namesType ht), fun _ => hv.second_of_path⟩
  cases h with
  | named ht hw => exact ⟨_, _, rfl, isTypeOperator_of_namesType ht, hnamed ht hw⟩
  | generic ht hv ho _ _ =>
    refine ⟨_, _, rfl, isTypeOperator_of_namesType ht, (hnamed ht hv).append fun s hs => ?_⟩
    cases hs
    rw [ho]
    rfl
  | query hq ht hw =>
    refine ⟨_, _, rfl, isTypeOperator_of_kind (by rw [hq]; simp), by rw [hq]; rfl, fun _ s hs => ?_⟩
    cases hs
    exact Kind.among_of_isName ht
  | literal ht =>
    refine ⟨_, [], rfl, isTypeOperator_of_kind fun h => ?_, Kind.among_eq_false fun m hm => ?_, fun _ => by simp⟩
    · rw [h] at ht
      cases ht
    · rw [hm] at ht
      cases ht
  | negative hm _ => exact ⟨_, _, rfl, hmark hm, .of_mark hm rfl⟩
  | parenthesized ho _ _ => exact ⟨_, _, rfl, hmark ho, .of_mark ho rfl⟩
  | tuple ho _ => exact ⟨_, _, rfl, hmark ho, .of_mark ho rfl⟩
  | object ho _ => exact ⟨_, _, rfl, hmark ho, .of_mark ho rfl⟩

theorem arrow_opens (h : Derives .arrow w) : ∃ t v, w = t :: v ∧ t.kind = .mark .openParen := by
  cases h with
  | callArrow ho _ _ _ => exact ⟨_, _, rfl, ho⟩

theorem function_opens (h : Derives .function w) :
    ∃ t v, w = t :: v ∧ t.isTypeOperator = false ∧ Opens t v := by
  have hmark {o : Token} {v : List Token} {m : Mark} (ho : o.kind = .mark m)
      (hm : Kind.among closingMarks (.mark m) = false) :
      o.isTypeOperator = false ∧ Opens o v :=
    ⟨isTypeOperator_of_kind (by rw [ho]; simp), .of_mark ho hm⟩
  cases h with
  | arrow hw =>
    obtain ⟨o, v, rfl, ho⟩ := hw.arrow_opens
    exact ⟨o, v, rfl, hmark ho rfl⟩
  | genericArrow ho _ _ _ => exact ⟨_, _, rfl, hmark ho rfl⟩
  | constructor hn hw =>
    refine ⟨_, _, rfl, isTypeOperator_of_kind (by rw [hn]; simp), by rw [hn]; rfl, fun _ s hs => ?_⟩
    obtain ⟨o, v, rfl, ho⟩ := hw.arrow_opens
    cases hs
    rw [ho]
    rfl

/-- A word in front of a type is no name of a parameter. -/
theorem operated_opens {u v : List Token} (hu : MayOperate u) (hv : ∃ t w, v = t :: w ∧ Opens t w) :
    ∃ t w, u ++ v = t :: w ∧ Opens t w := by
  obtain ⟨s, v, rfl, hs⟩ := hv
  rcases hu with rfl | ⟨t, ht, rfl⟩
  · exact ⟨s, v, rfl, hs⟩
  · have hkind : t.kind = .identifier := Decidable.byContradiction fun h => by
      rw [isTypeOperator_of_kind h] at ht
      cases ht
    refine ⟨t, s :: v, rfl, by rw [hkind]; rfl, fun _ u hu => ?_⟩
    cases hu
    exact Kind.among_mono (List.subset_append_right ..) hs.first

theorem operand_opens (h : Derives .operand w) : ∃ t v, w = t :: v ∧ Opens t v := by
  cases h with
  | operand hu hv hw =>
    obtain ⟨t, v, rfl, -, ht⟩ := hv.primary_opens
    refine operated_opens hu ⟨t, _, rfl, ht.append fun s hs => ?_⟩
    rw [hw.brackets_head s hs]
    rfl

theorem union_opens (h : Derives .union w) : ∃ t v, w = t :: v ∧ Opens t v := by
  cases h with
  | last hw => exact hw.operand_opens
  | join hv ht hw =>
    obtain ⟨t, v, rfl, hopens⟩ := hv.operand_opens
    refine ⟨t, _, rfl, hopens.append fun s hs => ?_⟩
    cases hs
    rcases Production.joinsTypes_eq ht with h | h <;> rw [h] <;> rfl
  | function hu hw =>
    obtain ⟨t, v, rfl, -, ht⟩ := hw.function_opens
    exact operated_opens hu ⟨t, v, rfl, ht⟩

theorem type_opens (h : Derives (.item .type) w) : ∃ t v, w = t :: v ∧
    (t.kind.isName = true → ∀ s ∈ v.head?, s.kind.among parameterMarks = false) ∧
      t.kind.among [.closeParen, .closeBracket, .greater, .ellipsis] = false := by
  cases h with
  | type hw =>
    obtain ⟨t, v, rfl, ht⟩ := hw.union_opens
    exact ⟨t, v, rfl, ht.second, Kind.among_mono (by decide) ht.first⟩
  | leading ht hw =>
    rcases Production.joinsTypes_eq ht with h | h
    all_goals
      refine ⟨_, _, rfl, fun hname => ?_, by rw [h]; rfl⟩
      rw [h] at hname
      cases hname

/-- No item of a list is taken for the end of the list. -/
theorem item_head {i : TypeItem} (h : Derives (.item i) w) : ∃ t v, w = t :: v ∧ t.kind ≠ .mark i.close := by
  have hname {t : Token} (ht : t.kind.isName = true) (m : Mark) : t.kind ≠ .mark m := by
    intro h
    rw [h] at ht
    cases ht
  have htype {w : List Token} (h : Derives (.item .type) w) {m : Mark}
      (hm : m ∈ [.closeParen, .closeBracket, .greater, .ellipsis]) : ∃ t v, w = t :: v ∧ t.kind ≠ .mark m := by
    obtain ⟨t, v, rfl, -, ht⟩ := h.type_opens
    refine ⟨t, v, rfl, fun h => ?_⟩
    rw [Kind.among_eq_true.2 ⟨m, hm, h⟩] at ht
    cases ht
  cases h with
  | type hw => exact htype (.type hw) (by decide)
  | leading ht hw => exact htype (.leading ht hw) (by decide)
  | element hu hv hw =>
    rcases hu with rfl | ⟨s, hs, rfl⟩
    · obtain ⟨t, v, rfl, ht⟩ := htype hv (m := .closeBracket) (by decide)
      exact ⟨t, _, rfl, ht⟩
    · exact ⟨s, _, rfl, by rw [hs]; decide⟩
  | parameter hu ht hv hw =>
    rcases hu with rfl | ⟨s, hs, rfl⟩
    · exact ⟨_, _, rfl, hname ht _⟩
    · exact ⟨s, _, rfl, by rw [hs]; decide⟩
  | typeParameter ht hw => exact ⟨_, _, rfl, hname ht _⟩

theorem call_head (h : Derives .call w) : ∃ t v, w = t :: v ∧ t.kind = .mark .openParen := by
  cases h with
  | call ho _ _ => exact ⟨_, _, rfl, ho⟩

theorem signature_head (h : Derives .signature w) : ∃ t v, w = t :: v ∧ opensSignature t.kind = true := by
  cases h with
  | signature hw =>
    obtain ⟨t, v, rfl, ht⟩ := hw.call_head
    exact ⟨t, v, rfl, by rw [ht]; rfl⟩
  | genericSignature ho _ _ _ => exact ⟨_, _, rfl, by rw [ho]; rfl⟩

/-- What a member of an object type starts with. -/
theorem field_head (h : Derives .field w) : ∃ t v, w = t :: v ∧ t.kind.startsMember = true := by
  cases h with
  | property hn _ _ | method hn _ _ => exact ⟨_, _, rfl, Kind.startsMember_of_namesMember hn⟩
  | callMember hw =>
    obtain ⟨t, v, rfl, ht⟩ := hw.signature_head
    exact ⟨t, v, rfl, Kind.startsMember_of_opensSignature ht⟩
  | index ho _ _ _ _ _ | mapped ho _ _ _ _ _ _ => exact ⟨_, _, rfl, by rw [ho]; rfl⟩

theorem member_head (h : Derives .member w) : ∃ t v, w = t :: v ∧ t.kind.startsMember = true := by
  cases h with
  | member hw => exact hw.field_head
  | readonly hr _ _ =>
    refine ⟨_, _, rfl, ?_⟩
    rw [kind_of_isWord hr]
    rfl

end Derives

end TypePart

/-! ## Comments in types -/

section Seen

variable {k : Kind} {t : Token} {w : List Token}

theorem Kind.isComment_of_isName (h : k.isName = true) : k.isComment = false := by
  cases k <;> first | rfl | cases h

theorem Kind.isComment_of_namesMember (h : k.namesMember = true) : k.isComment = false := by
  cases k <;> first | rfl | cases h

theorem Kind.isComment_of_isLiteralType (h : k.isLiteralType = true) : k.isComment = false := by
  cases k <;> first | rfl | cases h

theorem Kind.isComment_of_among {ms : List Mark} (h : k.among ms = true) : k.isComment = false := by
  obtain ⟨m, -, rfl⟩ := among_eq_true.1 h
  rfl

theorem Kind.isComment_of_joinsTypes (h : Production.joinsTypes k = true) : k.isComment = false := by
  rcases Production.joinsTypes_eq h with rfl | rfl <;> rfl

theorem Token.isComment_of_isWord {s : String} (h : t.isWord s = true) : t.kind.isComment = false := by
  rw [kind_of_isWord h]
  rfl

theorem Token.MayBe.seen {m : Mark} (h : MayBe (.mark m) w) : ∀ t ∈ w, t.kind.isComment = false := by
  rcases h with rfl | ⟨t, ht, rfl⟩
  · exact List.forall_mem_nil _
  · exact List.forall_mem_singleton.2 (ht ▸ rfl)

theorem Token.MayOperate.seen (h : MayOperate w) : ∀ t ∈ w, t.kind.isComment = false := by
  rcases h with rfl | ⟨t, ht, rfl⟩
  · exact List.forall_mem_nil _
  · refine List.forall_mem_singleton.2 ?_
    rcases Bool.or_eq_true_iff.1 ht with h | h <;> exact isComment_of_isWord h

/-- There are no comments in a type. -/
theorem TypePart.Derives.seen {part : TypePart} (h : Derives part w) : ∀ t ∈ w, t.kind.isComment = false := by
  have hmark {t : Token} {m : Mark} (ht : t.kind = .mark m) : t.kind.isComment = false := ht ▸ rfl
  have hkeyword {t : Token} {k : Keyword} (ht : t.kind = .keyword k) : t.kind.isComment = false := ht ▸ rfl
  have hnumber {t : Token} (ht : t.kind = .int ∨ t.kind = .float) : t.kind.isComment = false := by
    rcases ht with h | h <;> rw [h] <;> rfl
  have hnamed {t : Token} (ht : t.namesType = true) : t.kind.isComment = false :=
    Kind.isComment_of_isName (Token.isName_of_namesType ht)
  induction h with
  | plain | pathEnd | absent => exact List.forall_mem_nil _
  | type _ ih | last _ ih | arrow _ ih | unbound _ ih | separatedLast _ ih | member _ ih | callMember _ ih
  | signature _ ih => exact ih
  | _ =>
    simp only [List.forall_mem_append, List.forall_mem_cons, List.not_mem_nil, false_imp_iff, implies_true, and_true]
    grind [Kind.isComment_of_isName, Kind.isComment_of_namesMember, Kind.isComment_of_isLiteralType,
      Kind.isComment_of_among, Kind.isComment_of_joinsTypes, Token.isComment_of_isWord, Token.MayBe.seen,
      Token.MayOperate.seen]

end Seen

/-! ## Types in other places -/

theorem forall₂_append_left_iff {α β : Type} {R : α → β → Prop} {u v : List α} {w : List β} :
    List.Forall₂ R (u ++ v) w ↔ ∃ u' v', List.Forall₂ R u u' ∧ List.Forall₂ R v v' ∧ w = u' ++ v' := by
  constructor
  · intro h
    induction u generalizing w with
    | nil => exact ⟨[], w, .nil, h, rfl⟩
    | cons a u ih =>
      obtain ⟨b, w, hab, hrest, rfl⟩ := List.forall₂_cons_left_iff.1 h
      obtain ⟨u', v', hu, hv, rfl⟩ := ih hrest
      exact ⟨b :: u', v', .cons hab hu, hv, rfl⟩
  · rintro ⟨u', v', hu, hv, rfl⟩
    exact List.rel_append hu hv

namespace Token

/-- Whether two tokens differ in their places at most. -/
structure Same (t u : Token) : Prop where
  kind : t.kind = u.kind
  text : t.text = u.text

variable {t u : Token} {v w : List Token}

theorem Same.isWord (h : t.Same u) (s : String) : t.isWord s = u.isWord s := by
  unfold Token.isWord
  rw [h.kind, h.text]

theorem Same.namesType (h : t.Same u) : t.namesType = u.namesType := by
  unfold Token.namesType isTypeOperator
  rw [h.kind, h.isWord, h.isWord]

theorem MayBe.moved {k : Kind} (hv : MayBe k v) (h : List.Forall₂ Same v w) : MayBe k w := by
  rcases hv with rfl | ⟨t, ht, rfl⟩
  · exact .inl (List.forall₂_nil_left_iff.1 h)
  · obtain ⟨u, w, htu, hw, rfl⟩ := List.forall₂_cons_left_iff.1 h
    exact .inr ⟨u, htu.kind ▸ ht, by rw [List.forall₂_nil_left_iff.1 hw]⟩

theorem MayOperate.moved (hv : MayOperate v) (h : List.Forall₂ Same v w) : MayOperate w := by
  rcases hv with rfl | ⟨t, ht, rfl⟩
  · exact .inl (List.forall₂_nil_left_iff.1 h)
  · obtain ⟨u, w, htu, hw, rfl⟩ := List.forall₂_cons_left_iff.1 h
    refine .inr ⟨u, ?_, by rw [List.forall₂_nil_left_iff.1 hw]⟩
    unfold isTypeOperator at ht ⊢
    rwa [← htu.isWord, ← htu.isWord]

end Token

/-- A type is one wherever it stands. -/
theorem TypePart.Derives.moved {part : TypePart} {v w : List Token} (h : Derives part v)
    (hw : List.Forall₂ Token.Same v w) : Derives part w := by
  induction h generalizing w with
  | plain | pathEnd | absent =>
    obtain rfl := List.forall₂_nil_left_iff.1 hw
    constructor
  | type _ ih | last _ ih | arrow _ ih | unbound _ ih | separatedLast _ ih | member _ ih | callMember _ ih
  | signature _ ih =>
    constructor
    exact ih hw
  | membersMember _ hs _ ihv ihw =>
    obtain ⟨v', behind, hv, hbehind, rfl⟩ := forall₂_append_left_iff.1 hw
    obtain ⟨s', w', hsame, hw', rfl⟩ := List.forall₂_cons_left_iff.1 hbehind
    exact .membersMember (ihv hv) (hsame.kind ▸ hs) (ihw (.cons hsame hw'))
  | readonly hr ht _ ih =>
    obtain ⟨r', behind, hsame, hbehind, rfl⟩ := List.forall₂_cons_left_iff.1 hw
    obtain ⟨t', w', hsame', hw', rfl⟩ := List.forall₂_cons_left_iff.1 hbehind
    exact .readonly (hsame.isWord _ ▸ hr) (hsame'.kind ▸ ht) (ih (.cons hsame' hw'))
  | _ =>
    simp only [List.forall₂_cons_left_iff, forall₂_append_left_iff, List.forall₂_nil_left_iff] at hw
    grind [Derives, Token.Same.kind, Token.Same.isWord, Token.Same.namesType, Token.MayBe.moved,
      Token.MayOperate.moved]

end ScriptFront
