import ScriptFront.Production.Statement
import ScriptFront.Proofs.Erasure.Crossing
import ScriptFront.Proofs.Erasure.TypeSyntax
import ScriptFront.Proofs.Production.StatementsRead

/-!
# Types are read to their end
-/

namespace ScriptFront

open Production

/-- The parameters of a function type are told from a type in parentheses by their names. -/
theorem Cursor.startsFunctionType_iff {c : Cursor} : c.startsFunctionType = true ↔
    (c.peekNth 1).kind.among [.closeParen, .ellipsis] = true ∨
      (c.peekNth 1).kind.isName = true ∧
        ((c.peekNth 2).kind.among [.colon, .question, .comma] = true ∨
          (c.peekNth 2).kind = .mark .closeParen ∧ (c.peekNth 3).kind = .mark .arrow) := by
  unfold startsFunctionType
  split
  case h_5 h₁ h₂ h₃ h₄ =>
    have hnot : (c.peekNth 1).kind.isName = false := by
      revert h₃ h₄
      cases (c.peekNth 1).kind with
      | identifier => exact fun h _ => absurd rfl h
      | keyword k => exact fun _ h => absurd rfl (h k)
      | _ => exact fun _ _ => rfl
    simp_all [Kind.among]
  case h_1 | h_2 => simp_all [Kind.among]
  all_goals
    -- a name: what is behind it tells
    split <;> simp_all [Kind.among, Kind.isName]

namespace TypeItem

/-- The production for an item, where types are read by `t`. -/
def reader (t : Production Unit) : TypeItem → Production Unit
  | type => t
  | element => do
    discard (optional (.mark .ellipsis))
    t
    discard (optional (.mark .question))
  | parameter => do
    discard (optional (.mark .ellipsis))
    discard name
    discard (optional (.mark .question))
    ascribedType t
  | typeParameter => do
    discard name
    if ← isAtWord "extends" then
      discard next
      t
    if ← skips (.mark .equals) then t

end TypeItem

namespace TypePart

/-- The production for a part of a type, where types inside it are read by `t`. The position is that of the
opening brace, for an object type that does not end. -/
def reader (t : Production Unit) (brace : Position) : TypePart → Production Unit
  | item i => i.reader t
  | separated i => discard (Production.separated (i.reader t))
  | listed i => discard (Production.listed i.close (i.reader t))
  | behind m => do if ← skips (.mark m) then t
  | bounds => do
    if ← isAtWord "extends" then
      discard next
      t
    if ← skips (.mark .equals) then t
  | union => rounds do
    arrayType t
    if joinsTypes (← peekKind) then
      discard next
      return true
    else return false
  | operand => arrayType t
  | brackets => rounds do
    if ← asks Cursor.startsArraySuffix then
      advance 2
      return true
    else return false
  | primary | function => primaryType t
  | path => rounds do
    if ← skips (.mark .dot) then
      discard name
      return true
    else return false
  | arrow => functionType t
  | members => rounds do
    match ← peekKind with
    | .mark .closeBrace =>
      discard next
      return false
    | .endOfFile => fail .unclosedBlock brace
    | .mark .comma | .mark .semicolon =>
      discard next
      return true
    | _ =>
      typeMember t
      return true
  | member => typeMember t
  | field => bareTypeMember t
  | signature => Production.signature t
  | call => do
    typeParameterList t
    ascribedType t

/-- The marks that may stand behind an item of a list, a member or what these end with. -/
def ends : List Mark := [.comma, .semicolon, .closeParen, .closeBracket, .closeBrace, .greater]

/-- What may stand behind a part of a type. -/
def follow : TypePart → Kind → Bool
  | item .type | union | function | arrow => fun k => !k.continuesType
  | separated _ => Kind.among [.greater]
  | listed _ | members => fun _ => true
  | behind m => fun k => k.among ends && !k.among [m]
  | item _ | bounds | member | field | signature | call => Kind.among ends
  | operand => fun k => !k.among [.dot, .less, .openBracket, .arrow]
  | brackets => fun k => !k.among [.openBracket]
  | primary => fun k => !k.among [.dot, .less, .arrow]
  | path => fun k => !k.among [.dot]

/-- How many tokens more than its own a part needs: a type is read by going into the grammar once more. -/
def slack : TypePart → Nat
  | item .type | item .element | separated _ => 1
  | _ => 0

/-- Whether a part is read to its end, whatever may follow it. -/
def Reads (part : TypePart) (w : List Token) : Prop :=
  ∀ {k : Nat} {b : Position} {d : Cursor}, w.length + part.slack ≤ k → part.follow d.peekKind = true →
    Crosses (part.reader (Grammar.ofDepth k).type b) (d.prepend w) () d

/-! ## What may follow -/

section Follow

variable {ms : List Mark} {k : Kind}

theorem ne_of_not_among {m : Mark} (h : (!k.among ms) = true) (hm : m ∈ ms) : k ≠ .mark m := by
  rintro rfl
  rw [Kind.among_eq_true.2 ⟨m, hm, rfl⟩] at h
  cases h

theorem not_among_mono {ms' : List Mark} (h : (!k.among ms') = true) (hms : ms ⊆ ms') :
    (!k.among ms) = true := by
  rw [Bool.not_eq_true'] at h ⊢
  exact Kind.among_mono hms h

/-- What may not follow a type may not follow its parts. -/
theorem not_among_of_ends {k : Kind} (h : (!k.continuesType) = true)
    (hms : ∀ m ∈ ms, (Kind.mark m).continuesType = true) : (!k.among ms) = true := by
  rw [Bool.not_eq_true'] at h ⊢
  refine eq_false_of_ne_true fun hk => ?_
  obtain ⟨m, hm, rfl⟩ := Kind.among_eq_true.1 hk
  rw [hms m hm] at h
  cases h

theorem ne_of_among {k' : Kind} (h : k.among ms = true) (hk' : ∀ m ∈ ms, k' ≠ .mark m) : k ≠ k' := by
  obtain ⟨m, hm, rfl⟩ := Kind.among_eq_true.1 h
  exact fun h => hk' m hm h.symm

theorem ne_mark_of_among {m : Mark} (h : k.among ms = true) (hm : m ∉ ms) : k ≠ .mark m :=
  ne_of_among h fun _ hm' h => hm (Kind.mark.inj h ▸ hm')

theorem follow_item (i : TypeItem) (h : k.among ends = true) : (item i).follow k = true := by
  cases i with
  | type =>
    obtain ⟨m, hm, rfl⟩ := Kind.among_eq_true.1 h
    revert m
    decide
  | _ => exact h

theorem slack_item (i : TypeItem) : (item i).slack ≤ 1 := by cases i <;> decide

end Follow

/-! ## Names and brackets -/

namespace Reads

variable {t o c : Token} {u v w : List Token}

theorem pathEnd : Reads path [] := by
  intro k brace d _ hd
  exact .rounds_done ((Crosses.skips_false (ne_of_not_among hd List.mem_cons_self)).bind .pure)

theorem pathDot {p : Token} (hp : p.kind = .mark .dot) (ht : t.kind.isName = true) (hw : Reads path w) :
    Reads path (p :: t :: w) := by
  intro k brace d hk hd
  refine .rounds_again (d := d.prepend w) ?_ ?_ (hw (b := brace) (k := k) ?_ hd)
  · exact (Crosses.skips_true hp (by simp)).bind ((Crosses.name ht).discard.bind .pure)
  · exact Cursor.remaining_prepend_lt (by simp only [List.length_cons]; omega)
  · simp [slack] at hk ⊢
    omega

theorem plain : Reads brackets [] := by
  intro k brace d _ hd
  have hstart : d.startsArraySuffix = false := by
    unfold Cursor.startsArraySuffix Cursor.isAt
    rw [beq_eq_false_iff_ne.2 (ne_of_not_among hd List.mem_cons_self), Bool.false_and]
  refine .rounds_done (.asks_bind ?_)
  rw [Cursor.prepend_nil, hstart]
  exact .pure

theorem array (ho : o.kind = .mark .openBracket) (hc : c.kind = .mark .closeBracket)
    (hw : Reads brackets w) : Reads brackets (o :: c :: w) := by
  intro k brace d hk hd
  refine .rounds_again (d := d.prepend w) (.asks_bind ?_) ?_ (hw (b := brace) (k := k) ?_ hd)
  · have hstart : (d.prepend (o :: c :: w)).startsArraySuffix = true := by
      unfold Cursor.startsArraySuffix
      rw [Cursor.isAt_prepend, Cursor.peekNth_prepend]
      show (o.kind == _ && c.kind == _) = true
      rw [ho, hc]
      rfl
    rw [hstart]
    exact (Crosses.advance (v := [o, c]) (by simp [ho, hc])).bind .pure
  · exact Cursor.remaining_prepend_lt (by simp only [List.length_cons]; omega)
  · simp [slack] at hk ⊢
    omega

/-! ## Names and literals -/

/-- A name starts a named type. -/
theorem run_primaryType_name {r : Production Unit} {d : Cursor} (ht : t.namesType = true) (ctx : Context) :
    primaryType r ctx (d.prepend (t :: w)) = namedType r ctx (d.prepend (t :: w)) := by
  unfold primaryType
  rw [run_peekKind_bind, Cursor.peekKind_prepend]
  unfold Token.namesType at ht
  revert ht
  cases t.kind with
  | identifier => exact fun _ => rfl
  | keyword k => cases k <;> first | exact fun _ => rfl | exact fun ht => nomatch ht
  | _ => exact fun ht => nomatch ht

theorem primaryType_name {r : Production Unit} {d e : Cursor} (ht : t.namesType = true)
    (h : Crosses (namedType r) (d.prepend (t :: w)) () e) :
    Crosses (primaryType r) (d.prepend (t :: w)) () e := by
  intro ctx
  rw [run_primaryType_name ht]
  exact h ctx

theorem named (ht : t.namesType = true) (hw : Reads path w) : Reads primary (t :: w) := by
  intro k brace d hk hd
  refine primaryType_name ht ?_
  unfold namedType qualifiedName
  refine Crosses.bind ((Crosses.name (Token.isName_of_namesType ht)).discard.bind
    (hw (k := k) (b := brace) ?_ (not_among_mono hd (by decide)))) (.isAt_bind ?_)
  · simp [slack] at hk ⊢
    omega
  · rw [Cursor.isAt, beq_eq_false_iff_ne.2 (ne_of_not_among hd (by decide))]
    exact .pure

theorem generic (ht : t.namesType = true) (hv : Reads path v) (ho : o.kind = .mark .less)
    (hw : Reads (separated .type) w) (hc : c.kind = .mark .greater) :
    Reads primary (t :: (v ++ o :: (w ++ [c]))) := by
  intro k brace d hk hd
  simp only [slack, List.length_cons, List.length_append] at hk
  refine primaryType_name ht ?_
  rw [← List.cons_append, Cursor.prepend_append]
  unfold namedType qualifiedName
  refine Crosses.bind ((Crosses.name (Token.isName_of_namesType ht)).discard.bind
    (hv (k := k) (b := brace) (by simp only [slack]; omega) ?_)) (.isAt_bind ?_)
  · rw [Cursor.peekKind_prepend, ho]
    rfl
  · rw [Cursor.isAt_prepend, ho]
    unfold typeArguments
    refine (Crosses.accept ho (by simp)).discard.bind ?_
    rw [Cursor.prepend_append]
    refine (hw (k := k) (b := brace) (by simp only [slack]; omega) ?_).bind
      (Crosses.accept hc (by simp)).discard
    rw [Cursor.peekKind_prepend, hc]
    rfl

theorem query {q : Token} (hq : q.kind = .keyword .typeofWord) (ht : t.kind.isName = true)
    (hw : Reads path w) : Reads primary (q :: t :: w) := by
  intro k brace d hk hd
  unfold reader primaryType
  refine .peekKind_bind ?_
  rw [Cursor.peekKind_prepend, hq]
  refine (Crosses.next (by simp [hq])).discard.bind ?_
  unfold qualifiedName
  refine (Crosses.name ht).discard.bind (hw (k := k) (b := brace) ?_ (not_among_mono hd (by decide)))
  simp only [slack, List.length_cons] at hk ⊢
  omega

theorem literal (ht : t.kind.isLiteralType = true) : Reads primary [t] := by
  intro k brace d hk hd
  have hend : t.kind ≠ .endOfFile := fun h => by
    rw [h] at ht
    cases ht
  have hnext : Crosses (Functor.discard Production.next) (d.prepend [t]) () d :=
    (Crosses.next (w := []) hend).discard
  unfold reader primaryType
  refine .peekKind_bind ?_
  rw [Cursor.peekKind_prepend]
  revert ht
  cases t.kind with
  | string | int | float | hex | rune => exact fun _ => hnext
  | keyword k => cases k <;> first | exact fun _ => hnext | exact fun ht => nomatch ht
  | _ => exact fun ht => nomatch ht

theorem negative {m : Token} (hm : m.kind = .mark .minus) (ht : t.kind = .int ∨ t.kind = .float) :
    Reads primary [m, t] := by
  intro k brace d hk hd
  unfold reader primaryType
  refine .peekKind_bind ?_
  rw [Cursor.peekKind_prepend, hm]
  have hnext : (d.prepend [m, t]).peekNth 1 = t := rfl
  have hstart : (d.prepend [m, t]).startsNegative = true := by
    unfold Cursor.startsNegative
    rw [hnext]
    rcases ht with h | h <;> rw [h]
  refine .asks_bind ?_
  rw [hstart]
  exact .advance (v := [m, t]) (w := []) (by rcases ht with h | h <;> simp [hm, h])

/-! ## Types -/

/-- A type is read by going into the grammar once more. -/
theorem enters {k : Nat} {d : Cursor} (hw : Reads (.item .type) w) (hk : w.length < k)
    (hd : d.peekKind.continuesType = false) :
    Crosses (Grammar.ofDepth k).type (d.prepend w) () d :=
  by
  refine hw (b := .start) hk ?_
  show (!d.peekKind.continuesType) = true
  rw [hd]
  rfl

theorem type (hopens : ∃ t v, w = t :: v ∧ Opens t v) (hw : Reads union w) : Reads (.item .type) w := by
  intro k brace d hk hd
  obtain ⟨t, v, rfl, ht⟩ := hopens
  cases k with
  | zero => exact absurd hk (Nat.not_succ_le_zero _)
  | succ k =>
    have hjoins : joinsTypes t.kind = false := by
      refine eq_false_of_ne_true fun h => ?_
      have hfirst := ht.first
      rcases joinsTypes_eq h with h | h <;> rw [h] at hfirst <;> cases hfirst
    show Crosses (Grammar.ofDepth (k + 1)).type _ _ _
    rw [Grammar.ofDepth_succ]
    refine .nested (.peekKind_bind ?_)
    rw [Cursor.peekKind_prepend, hjoins]
    exact hw (b := brace) (Nat.le_of_succ_le_succ hk) hd

theorem leading (ht : joinsTypes t.kind = true) (hw : Reads union w) : Reads (.item .type) (t :: w) := by
  intro k brace d hk hd
  cases k with
  | zero => exact absurd hk (Nat.not_succ_le_zero _)
  | succ k =>
    have hend : t.kind ≠ .endOfFile := fun h => by
      rw [h] at ht
      cases ht
    show Crosses (Grammar.ofDepth (k + 1)).type _ _ _
    rw [Grammar.ofDepth_succ]
    refine .nested (.peekKind_bind ?_)
    rw [Cursor.peekKind_prepend, ht]
    exact (Crosses.next hend).discard.bind
      (hw (b := brace) (Nat.le_of_succ_le (Nat.le_of_succ_le_succ hk)) hd)

/-! ## Types in brackets -/

/-- What stands in parentheses is no list of parameters. -/
theorem startsFunctionType_type {d : Cursor} (hw : Derives (.item .type) w) (hc : c.kind = .mark .closeParen)
    (hd : d.peekKind ≠ .mark .arrow) : (d.prepend (o :: (w ++ [c]))).startsFunctionType = false := by
  obtain ⟨t, v, rfl, hsecond, hfirst⟩ := hw.type_opens
  refine eq_false_of_ne_true fun h => ?_
  rw [Cursor.startsFunctionType_iff] at h
  simp only [Cursor.peekNth_prepend, List.cons_append] at h
  rcases h with h | ⟨hname, h⟩
  · have hfirst' : t.kind.among [.closeParen, .ellipsis] = false := Kind.among_mono (by decide) hfirst
    exact Bool.false_ne_true (hfirst'.symm.trans h)
  · cases v with
    | nil =>
      have hthird : ((d.prepend ([] ++ [c])).peekNth 0).kind = .mark .closeParen := hc
      rw [hthird] at h
      rcases h with h | ⟨-, h⟩
      · cases h
      · exact hd h
    | cons s v =>
      have hs : s.kind.among parameterMarks = false := hsecond hname s rfl
      have hmarks : s.kind.among [.colon, .question, .comma] = false := Kind.among_mono (by decide) hs
      rcases h with h | ⟨h, -⟩
      · exact Bool.false_ne_true (hmarks.symm.trans h)
      · rw [show s.kind = .mark .closeParen from h] at hs
        cases hs

theorem parenthesized (ho : o.kind = .mark .openParen) (hderives : Derives (.item .type) w)
    (hw : Reads (.item .type) w) (hc : c.kind = .mark .closeParen) : Reads primary (o :: (w ++ [c])) := by
  intro k brace d hk hd
  simp only [slack, List.length_cons, List.length_append] at hk
  unfold reader primaryType
  refine .peekKind_bind ?_
  rw [Cursor.peekKind_prepend, ho]
  refine .asks_bind ?_
  rw [startsFunctionType_type hderives hc (ne_of_not_among hd (by decide))]
  refine (Crosses.next (by simp [ho])).discard.bind ?_
  rw [Cursor.prepend_append]
  refine (hw.enters (by omega) ?_).bind (Crosses.accept hc (by simp)).discard
  rw [Cursor.peekKind_prepend, hc]
  rfl

theorem tuple (ho : o.kind = .mark .openBracket) (hw : Reads (.listed .element) w) :
    Reads primary (o :: w) := by
  intro k brace d hk hd
  simp only [slack, List.length_cons] at hk
  unfold reader primaryType
  refine .peekKind_bind ?_
  rw [Cursor.peekKind_prepend, ho]
  exact (Crosses.accept ho (by simp)).discard.bind
    (hw (k := k) (b := brace) (by simp only [slack]; omega) rfl)

theorem object (ho : o.kind = .mark .openBrace) (hw : Reads members w) : Reads primary (o :: w) := by
  intro k brace d hk hd
  simp only [slack, List.length_cons] at hk
  unfold reader primaryType
  refine .peekKind_bind ?_
  rw [Cursor.peekKind_prepend, ho]
  exact (Crosses.accept ho (by simp)).bind
    (hw (k := k) (b := o.position) (by simp only [slack]; omega) rfl)

/-- A token that may be missing is read if it is there. -/
theorem maybe {d : Cursor} {k : Kind} (hu : Token.MayBe k u) (hk : k ≠ .endOfFile) (hd : d.peekKind ≠ k) :
    Crosses (discard (optional k)) (d.prepend u) () d := by
  rcases hu with rfl | ⟨t, ht, rfl⟩
  · exact (Crosses.optional_none hd).discard
  · exact (Crosses.optional_some (w := []) ht hk).discard

theorem element (hu : Token.MayBe (.mark .ellipsis) u) (hderives : Derives (.item .type) v)
    (hv : Reads (.item .type) v) (hw : Token.MayBe (.mark .question) w) :
    Reads (.item .element) (u ++ (v ++ w)) := by
  intro k brace d hk hd
  simp only [slack, List.length_append] at hk
  rw [Cursor.prepend_append, Cursor.prepend_append]
  refine (maybe hu (by simp) ?_).bind ((hv.enters (by omega) ?_).bind (maybe hw (by simp) ?_))
  · obtain ⟨t, v, rfl, -, ht⟩ := hderives.type_opens
    rw [Cursor.peekKind_prepend]
    intro h
    rw [h] at ht
    cases ht
  · rcases hw with rfl | ⟨t, ht, rfl⟩
    · rw [Cursor.prepend_nil]
      simpa [follow] using follow_item .type hd
    · rw [Cursor.peekKind_prepend, ht]
      rfl
  · exact ne_mark_of_among hd (by decide)

/-! ## Operands and unions -/

/-- A word in front of a type, if there is one, is passed over. -/
theorem run_operated {r : Production Unit} {d : Cursor}
    (hopens : ∃ t w, v = t :: w ∧ t.isTypeOperator = false ∧ Opens t w) (hu : Token.MayOperate u)
    (ctx : Context) : arrayType r ctx (d.prepend (u ++ v)) =
      (do primaryType r; brackets.reader r .start) ctx (d.prepend v) := by
  obtain ⟨s, v, rfl, hs, hopens⟩ := hopens
  unfold arrayType
  rw [run_asks_bind]
  rcases hu with rfl | ⟨t, ht, rfl⟩
  · have hstart : (d.prepend (s :: v)).startsTypeOperator = false := by
      unfold Cursor.startsTypeOperator
      rw [Cursor.peek_prepend, show (s.isWord "keyof" || s.isWord "readonly") = false from hs]
      rfl
    rw [List.nil_append, hstart]
    rfl
  · have hnot : s.kind.among [.bar, .ampersand, .comma, .greater] = false :=
      Kind.among_mono (by decide) hopens.first
    have hstart : (d.prepend (t :: s :: v)).startsTypeOperator = true := by
      unfold Cursor.startsTypeOperator
      rw [Cursor.peek_prepend, show (t.isWord "keyof" || t.isWord "readonly") = true from ht,
        Cursor.peekNth_prepend, show (d.prepend (s :: v)).peekNth 0 = s from rfl]
      split
      · next h => rw [h] at hnot; cases hnot
      · next h => rw [h] at hnot; cases hnot
      · next h => rw [h] at hnot; cases hnot
      · next h => rw [h] at hnot; cases hnot
      · rfl
    have hend : t.kind ≠ .endOfFile := fun h => by
      rw [Token.isTypeOperator_of_kind (by rw [h]; simp)] at ht
      cases ht
    rw [List.singleton_append, hstart, if_pos rfl, run_discard_next_bind, Cursor.next_prepend hend]
    rfl

/-- A type with a word in front of it, if there is one, and array brackets behind it. -/
theorem operated {r : Production Unit} {d e : Cursor}
    (hopens : ∃ t w, v = t :: w ∧ t.isTypeOperator = false ∧ Opens t w) (hu : Token.MayOperate u)
    (hv : Crosses (do primaryType r; brackets.reader r .start) (d.prepend v) () e) :
    Crosses (arrayType r) (d.prepend (u ++ v)) () e := by
  intro ctx
  rw [run_operated hopens hu]
  exact hv ctx

theorem operand (hderives : Derives .primary v) (hu : Token.MayOperate u) (hv : Reads primary v)
    (hbrackets : Derives .brackets w) (hw : Reads brackets w) : Reads .operand (u ++ (v ++ w)) := by
  intro k brace d hk hd
  simp only [slack, List.length_append] at hk
  have hopens : ∃ t w', v ++ w = t :: w' ∧ t.isTypeOperator = false ∧ Opens t w' := by
    obtain ⟨t, v, rfl, ht, hopens⟩ := hderives.primary_opens
    refine ⟨t, v ++ w, rfl, ht, hopens.append fun s hs => ?_⟩
    rw [hbrackets.brackets_head s hs]
    rfl
  refine operated hopens hu ?_
  rw [Cursor.prepend_append]
  refine (hv (k := k) (b := brace) (by simp only [slack]; omega) ?_).bind
    (hw (k := k) (b := .start) (by simp only [slack]; omega) (not_among_mono hd (by decide)))
  cases w with
  | nil => exact not_among_mono hd (by decide)
  | cons o w =>
    rw [Cursor.peekKind_prepend, hbrackets.brackets_head o rfl]
    rfl

/-- Behind the last operand, a union ends. -/
theorem lastOperand {r : Production Unit} {brace : Position} {c d : Cursor} (h : Crosses (arrayType r) c () d)
    (hd : d.peekKind.continuesType = false) : Crosses (union.reader r brace) c () d := by
  have hjoins : joinsTypes d.peekKind = false := by
    refine eq_false_of_ne_true fun h => ?_
    rcases joinsTypes_eq h with h | h <;> rw [h] at hd <;> cases hd
  refine .rounds_done (h.bind (.peekKind_bind ?_))
  rw [hjoins]
  exact .pure

theorem last (hw : Reads .operand w) : Reads union w := by
  intro k brace d hk hd
  exact lastOperand (hw (b := brace) hk (not_among_of_ends hd (by decide))) (by simpa [follow] using hd)

theorem join (hv : Reads .operand v) (ht : joinsTypes t.kind = true) (hw : Reads union w) :
    Reads union (v ++ t :: w) := by
  intro k brace d hk hd
  simp only [slack, List.length_append, List.length_cons] at hk
  have hend : t.kind ≠ .endOfFile := fun h => by
    rw [h] at ht
    cases ht
  refine .rounds_again (d := d.prepend w) ?_ ?_
    (hw (k := k) (b := brace) (by simp only [slack]; omega) hd)
  · rw [Cursor.prepend_append]
    refine (hv (k := k) (b := brace) (by simp only [slack]; omega) ?_).bind (.peekKind_bind ?_)
    · rw [Cursor.peekKind_prepend]
      rcases joinsTypes_eq ht with h | h <;> rw [h] <;> rfl
    · rw [Cursor.peekKind_prepend, ht]
      exact (Crosses.next hend).discard.bind .pure
  · exact Cursor.remaining_prepend_lt (by simp only [List.length_append, List.length_cons]; omega)

theorem function (hderives : Derives .function w) (hu : Token.MayOperate u) (hw : Reads .function w) :
    Reads union (u ++ w) := by
  intro k brace d hk hd
  simp only [slack, List.length_append] at hk
  have hends : d.peekKind.continuesType = false := by simpa [follow] using hd
  refine lastOperand (operated hderives.function_opens hu ?_) hends
  exact (hw (k := k) (b := brace) (by simp only [slack]; omega) hd).bind
    (plain (b := .start) (Nat.zero_le k) (not_among_of_ends hd (by decide)))

/-! ## Behind a mark -/

theorem absent {m : Mark} : Reads (behind m) [] := by
  intro k brace d _ hd
  have hm : (!d.peekKind.among [m]) = true := (Bool.and_eq_true_iff.1 hd).2
  exact (Crosses.skips_false (ne_of_not_among hm List.mem_cons_self)).bind .pure

/-- The marks behind a part of a type do not go on with a type. -/
theorem ends_continuesType {k : Kind} (h : k.among ends = true) : k.continuesType = false := by
  simpa [follow] using follow_item .type h

theorem present {m : Mark} (ht : t.kind = .mark m) (hw : Reads (.item .type) w) :
    Reads (behind m) (t :: w) := by
  intro k brace d hk hd
  simp only [slack, List.length_cons] at hk
  exact (Crosses.skips_true ht (by simp)).bind
    (hw.enters (by omega) (ends_continuesType (Bool.and_eq_true_iff.1 hd).1))

theorem follow_behind {m : Mark} {k : Kind} (h : k.among ends = true) (hm : m ∉ ends) :
    (behind m).follow k = true := by
  have hnot : k.among [m] = false := by
    refine eq_false_of_ne_true fun hk => ?_
    obtain ⟨m', hm', rfl⟩ := Kind.among_eq_true.1 hk
    exact ne_mark_of_among h (List.mem_singleton.1 hm' ▸ hm) rfl
  exact Bool.and_eq_true_iff.2 ⟨h, by rw [hnot]; rfl⟩

/-- What stands behind a mark, or nothing, and then something else. -/
theorem behind_peekKind {m : Mark} {d : Cursor} {k : Kind} (h : Derives (.behind m) w) (hd : d.peekKind ≠ k)
    (hk : k ≠ .mark m) : (d.prepend w).peekKind ≠ k := by
  cases h with
  | absent => exact hd
  | present ht _ =>
    rw [Cursor.peekKind_prepend, ht]
    exact hk.symm

/-! ## Functions -/

theorem parameter (hu : Token.MayBe (.mark .ellipsis) u) (ht : t.kind.isName = true)
    (hv : Token.MayBe (.mark .question) v) (hderives : Derives (.behind .colon) w)
    (hw : Reads (behind .colon) w) : Reads (.item .parameter) (u ++ t :: (v ++ w)) := by
  intro k brace d hk hd
  simp only [slack, List.length_append, List.length_cons] at hk
  rw [Cursor.prepend_append]
  refine (maybe hu (by simp) ?_).bind ((Crosses.name ht).discard.bind ?_)
  · rw [Cursor.peekKind_prepend]
    intro h
    rw [h] at ht
    cases ht
  · rw [Cursor.prepend_append]
    refine (maybe hv (by simp) ?_).bind (hw (k := k) (b := brace) (by simp only [slack]; omega) ?_)
    · exact behind_peekKind hderives (ne_mark_of_among hd (by decide)) (by simp)
    · exact follow_behind hd (by decide)

theorem unbound (hderives : Derives (.behind .equals) w) (hw : Reads (behind .equals) w) : Reads bounds w := by
  intro k brace d hk hd
  have hkind : (d.prepend w).peekKind ≠ .identifier :=
    behind_peekKind hderives (ne_of_among hd (by simp)) (by simp)
  refine .isAtWord_bind ?_
  rw [Token.isWord_of_kind hkind]
  exact hw (b := brace) hk (follow_behind hd (by decide))

theorem bound (ht : t.isWord "extends" = true) (hv : Reads (.item .type) v)
    (hderives : Derives (.behind .equals) w) (hw : Reads (behind .equals) w) :
    Reads bounds (t :: (v ++ w)) := by
  intro k brace d hk hd
  simp only [slack, List.length_append, List.length_cons] at hk
  have hend : t.kind ≠ .endOfFile := fun h => by
    rw [Token.isWord_of_kind (by rw [h]; simp)] at ht
    cases ht
  refine .isAtWord_bind ?_
  rw [Cursor.peek_prepend, ht]
  refine (Crosses.next hend).discard.bind ?_
  rw [Cursor.prepend_append]
  refine (hv.enters (by omega) ?_).bind
    (hw (k := k) (b := brace) (by simp only [slack]; omega) (follow_behind hd (by decide)))
  cases hderives with
  | absent => exact ends_continuesType hd
  | present ht _ =>
    rw [Cursor.peekKind_prepend, ht]
    rfl

theorem typeParameter (ht : t.kind.isName = true) (hw : Reads bounds w) :
    Reads (.item .typeParameter) (t :: w) := by
  intro k brace d hk hd
  simp only [slack, List.length_cons] at hk
  exact (Crosses.name ht).discard.bind (hw (k := k) (b := brace) (by simp only [slack]; omega) hd)

/-- Parameters up to the closing parenthesis. -/
theorem parameterList {k : Nat} {d : Cursor} (ho : o.kind = .mark .openParen)
    (hv : Reads (.listed .parameter) v) (hk : v.length ≤ k) :
    Crosses (typeParameterList (Grammar.ofDepth k).type) (d.prepend (o :: (v ++ w))) () (d.prepend w) := by
  unfold typeParameterList
  refine (Crosses.accept ho (by simp)).discard.bind ?_
  rw [Cursor.prepend_append]
  exact hv (b := .start) hk rfl

theorem callArrow {a : Token} (ho : o.kind = .mark .openParen) (hv : Reads (.listed .parameter) v)
    (ha : a.kind = .mark .arrow) (hw : Reads (.item .type) w) : Reads .arrow (o :: (v ++ a :: w)) := by
  intro k brace d hk hd
  simp only [slack, List.length_append, List.length_cons] at hk
  exact (parameterList ho hv (by omega)).bind ((Crosses.accept ha (by simp)).discard.bind
    (hw.enters (by omega) (by simpa [follow] using hd)))

/-- A parameter shows by what is behind its name, or by what is behind its list. -/
theorem parameter_starts {e : Cursor} (h : Derives (.item .parameter) v) (he : e.peekKind = .mark .comma ∨
      e.peekKind = .mark .closeParen ∧ (e.peekNth 1).kind = .mark .arrow) :
    ((e.prepend v).peekNth 0).kind.among [.closeParen, .ellipsis] = true ∨
      ((e.prepend v).peekNth 0).kind.isName = true ∧
        (((e.prepend v).peekNth 1).kind.among [.colon, .question, .comma] = true ∨
          ((e.prepend v).peekNth 1).kind = .mark .closeParen ∧
            ((e.prepend v).peekNth 2).kind = .mark .arrow) := by
  cases h with
  | @parameter t u q w hu ht hq hw =>
    rcases hu with rfl | ⟨s, hs, rfl⟩
    · refine .inr ⟨ht, ?_⟩
      rcases hq with rfl | ⟨s, hs, rfl⟩
      · cases hw with
        | absent =>
          rcases he with he | ⟨he, harrow⟩
          · left
            show (e.peekKind).among _ = true
            rw [he]
            rfl
          · exact .inr ⟨he, harrow⟩
        | @present _ s w hs _ =>
          left
          show s.kind.among _ = true
          rw [hs]
          rfl
      · left
        show s.kind.among _ = true
        rw [hs]
        rfl
    · left
      show s.kind.among _ = true
      rw [hs]
      rfl

/-- The parameters of a function type are not taken for a type. -/
theorem startsFunctionType_parameters {a : Token} {d : Cursor} (hv : Derives (.listed .parameter) v)
    (ha : a.kind = .mark .arrow) : (d.prepend (o :: (v ++ a :: w))).startsFunctionType = true := by
  rw [Cursor.startsFunctionType_iff, Cursor.peekNth_prepend, Cursor.peekNth_prepend, Cursor.peekNth_prepend]
  cases hv with
  | @listedClose _ c hc =>
    left
    show c.kind.among _ = true
    rw [hc]
    rfl
  | listedLast hv hc =>
    rw [List.append_assoc, Cursor.prepend_append]
    exact parameter_starts hv (.inr ⟨hc, ha⟩)
  | listedMore hv ht _ =>
    rw [List.append_assoc, Cursor.prepend_append]
    exact parameter_starts hv (.inl ht)

theorem startsFunctionType_arrow {d : Cursor} (h : Derives .arrow w) :
    (d.prepend w).startsFunctionType = true := by
  cases h with
  | callArrow _ hv ha _ => exact startsFunctionType_parameters hv ha

theorem arrow (hderives : Derives .arrow w) (hw : Reads .arrow w) : Reads .function w := by
  intro k brace d hk hd
  unfold reader primaryType
  refine .peekKind_bind ?_
  obtain ⟨o, v, rfl, ho⟩ := hderives.arrow_opens
  rw [Cursor.peekKind_prepend, ho]
  refine .asks_bind ?_
  rw [startsFunctionType_arrow hderives]
  exact hw (b := brace) hk hd

/-- Type parameters up to the closing angle bracket. -/
theorem typeParameters {k : Nat} {d : Cursor} (ho : o.kind = .mark .less)
    (hv : Reads (separated .typeParameter) v) (hc : c.kind = .mark .greater) (hk : v.length < k) :
    Crosses (Production.typeParameters (Grammar.ofDepth k).type) (d.prepend (o :: (v ++ c :: w))) ()
      (d.prepend w) := by
  unfold Production.typeParameters
  refine (Crosses.skips_true ho (by simp)).bind ?_
  rw [Cursor.prepend_append]
  refine (hv (k := k) (b := .start) hk ?_).bind (Crosses.accept hc (by simp)).discard
  rw [Cursor.peekKind_prepend, hc]
  rfl

theorem genericArrow (ho : o.kind = .mark .less) (hv : Reads (separated .typeParameter) v)
    (hc : c.kind = .mark .greater) (hw : Reads .arrow w) : Reads .function (o :: (v ++ c :: w)) := by
  intro k brace d hk hd
  simp only [slack, List.length_append, List.length_cons] at hk
  unfold reader primaryType
  refine .peekKind_bind ?_
  rw [Cursor.peekKind_prepend, ho]
  exact (typeParameters ho hv hc (by omega)).bind
    (hw (k := k) (b := brace) (by simp only [slack]; omega) hd)

theorem constructor {n : Token} (hn : n.kind = .keyword .newWord) (hderives : Derives .arrow w)
    (hw : Reads .arrow w) : Reads .function (n :: w) := by
  intro k brace d hk hd
  simp only [slack, List.length_cons] at hk
  unfold reader primaryType
  refine .peekKind_bind ?_
  rw [Cursor.peekKind_prepend, hn]
  obtain ⟨o, v, rfl, ho⟩ := hderives.arrow_opens
  refine .peekNth_bind ?_
  rw [Cursor.peekNth_prepend, if_pos (show ((d.prepend (o :: v)).peekNth 0).kind = _ from ho)]
  exact (Crosses.next (by simp [hn])).discard.bind
    (hw (k := k) (b := brace) (by simp only [slack, List.length_cons] at hk ⊢; omega) hd)

/-! ## Lists -/

theorem separatedLast {i : TypeItem} (hw : Reads (item i) w) : Reads (separated i) w := by
  intro k brace d hk hd
  have hd' : d.peekKind.among ends = true := by
    obtain ⟨m, hm, h⟩ := Kind.among_eq_true.1 hd
    rw [h, List.mem_singleton.1 hm]
    rfl
  have hslack := slack_item i
  exact .separated_last (hw (k := k) (b := brace) (by simp only [slack] at hk hslack ⊢; omega)
    (follow_item i hd')) (ne_mark_of_among hd (by decide))

theorem separatedMore {i : TypeItem} (hv : Reads (item i) v) (ht : t.kind = .mark .comma)
    (hw : Reads (separated i) w) : Reads (separated i) (v ++ t :: w) := by
  intro k brace d hk hd
  have hslack := slack_item i
  simp only [slack, List.length_append, List.length_cons] at hk
  refine .separated_more (t := t) (d := d) (w := w) ?_ ht
    (Cursor.remaining_prepend_lt (by simp only [List.length_append, List.length_cons]; omega))
    (hw (k := k) (b := brace) (by simp only [slack]; omega) hd)
  rw [Cursor.prepend_append]
  refine hv (k := k) (b := brace) (by omega) (follow_item i ?_)
  rw [Cursor.peekKind_prepend, ht]
  rfl

theorem listedClose {i : TypeItem} (hc : c.kind = .mark i.close) : Reads (listed i) [c] := by
  intro k brace d _ _
  exact .listed_close (w := []) hc

theorem close_mem_ends (i : TypeItem) : i.close ∈ ends := by cases i <;> decide

theorem listedLast {i : TypeItem} (hderives : Derives (item i) w) (hw : Reads (item i) w)
    (hc : c.kind = .mark i.close) : Reads (listed i) (w ++ [c]) := by
  intro k brace d hk hd
  have hslack := slack_item i
  simp only [slack, List.length_append, List.length_singleton] at hk
  obtain ⟨t, v, rfl, ht⟩ := hderives.item_head
  refine .listed_last (t := c) (d := d) (w := []) ht ?_ hc (by cases i <;> decide)
  rw [Cursor.prepend_append]
  refine hw (k := k) (b := brace) (by omega) (follow_item i ?_)
  rw [Cursor.peekKind_prepend, hc]
  exact Kind.among_eq_true.2 ⟨_, close_mem_ends i, rfl⟩

theorem listedMore {i : TypeItem} (hderives : Derives (item i) v) (hv : Reads (item i) v)
    (ht : t.kind = .mark .comma) (hw : Reads (listed i) w) : Reads (listed i) (v ++ t :: w) := by
  intro k brace d hk hd
  have hslack := slack_item i
  simp only [slack, List.length_append, List.length_cons] at hk
  obtain ⟨s, v, rfl, hs⟩ := hderives.item_head
  refine .listed_more (t := t) (d := d) (w := w) hs ?_ ht
    (Cursor.remaining_prepend_lt (by simp only [List.length_append, List.length_cons]; omega))
    (hw (k := k) (b := brace) (by simp only [slack]; omega) hd)
  rw [Cursor.prepend_append]
  refine hv (k := k) (b := brace) (by omega) (follow_item i ?_)
  rw [Cursor.peekKind_prepend, ht]
  rfl

end Reads

end TypePart

end ScriptFront
