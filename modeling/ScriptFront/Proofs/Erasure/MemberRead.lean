import ScriptFront.Proofs.Erasure.TypeRead

/-!
# Members of object types are read to their end

With the members, every part of a type is read to its end: `TypePart.Derives.reads`.
-/

namespace ScriptFront

open Production

namespace TypePart

namespace Reads

variable {t o c : Token} {u v w : List Token}

theorem call (ho : o.kind = .mark .openParen) (hv : Reads (.listed .parameter) v)
    (hw : Reads (behind .colon) w) : Reads .call (o :: (v ++ w)) := by
  intro k brace d hk hd
  simp only [slack, List.length_append, List.length_cons] at hk
  exact (parameterList ho hv (by omega)).bind
    (hw (k := k) (b := brace) (by simp only [slack]; omega) (follow_behind hd (by decide)))

theorem signature (hderives : Derives .call w) (hw : Reads .call w) : Reads .signature w := by
  intro k brace d hk hd
  obtain ⟨o, v, rfl, ho⟩ := hderives.call_head
  have hnone : Crosses (Production.typeParameters (Grammar.ofDepth k).type) (d.prepend (o :: v)) ()
      (d.prepend (o :: v)) := by
    refine (Crosses.skips_false ?_).bind .pure
    rw [Cursor.peekKind_prepend, ho]
    decide
  exact hnone.bind (hw (k := k) (b := brace) hk hd)

theorem genericSignature (ho : o.kind = .mark .less) (hv : Reads (separated .typeParameter) v)
    (hc : c.kind = .mark .greater) (hw : Reads .call w) : Reads .signature (o :: (v ++ c :: w)) := by
  intro k brace d hk hd
  simp only [slack, List.length_append, List.length_cons] at hk
  exact (typeParameters ho hv hc (by omega)).bind
    (hw (k := k) (b := brace) (by simp only [slack]; omega) hd)

/-- What may follow a member opens no list of parameters. -/
theorem opensSignature_of_among {k : Kind} (h : k.among ends = true) : opensSignature k = false := by
  obtain ⟨m, hm, rfl⟩ := Kind.among_eq_true.1 h
  revert m
  decide

/-- A member with a name, where what is behind the name and its question mark is read by `rest`. -/
theorem bareTypeMember_named {r : Production Unit} {n : Token} {d : Cursor} (hn : n.kind.namesMember = true)
    (hnew : n.kind = .keyword .newWord → opensSignature (d.prepend w).peekKind = true →
      Crosses (Production.signature r) (d.prepend w) () d)
    (hrest : Crosses (do
      discard (optional (.mark .question))
      if opensSignature (← peekKind) then Production.signature r else ascribedType r) (d.prepend w) () d) :
    Crosses (bareTypeMember r) (d.prepend (n :: w)) () d := by
  have hnext : Crosses (discard Production.next) (d.prepend (n :: w)) () (d.prepend w) := by
    refine (Crosses.next fun h => ?_).discard
    rw [h] at hn
    cases hn
  have hnamed : Crosses (namedMember r) (d.prepend (n :: w)) () d := hnext.bind hrest
  unfold bareTypeMember
  refine .peekKind_bind ?_
  rw [Cursor.peekKind_prepend]
  by_cases hword : n.kind = .keyword .newWord
  · rw [hword]
    refine .asks_bind ?_
    show Crosses (if (d.prepend (n :: w)).startsMethod = true then _ else _) _ _ _
    split
    · next h => exact hnext.bind (hnew hword h)
    · exact hnamed
  · revert hn hword
    cases n.kind with
    | identifier | string | int => exact fun _ _ => hnamed
    | keyword k => cases k <;> first | exact fun _ _ => hnamed | exact fun _ h => absurd rfl h
    | _ => exact fun hn => nomatch hn

theorem property {n : Token} (hn : n.kind.namesMember = true) (hv : Token.MayBe (.mark .question) v)
    (hderives : Derives (.behind .colon) w) (hw : Reads (behind .colon) w) : Reads .field (n :: (v ++ w)) := by
  intro k brace d hk hd
  simp only [slack, List.length_cons, List.length_append] at hk
  have hplain : opensSignature (d.prepend w).peekKind = false := by
    cases hderives with
    | absent => exact opensSignature_of_among hd
    | present ht _ =>
      rw [Cursor.peekKind_prepend, ht]
      rfl
  refine bareTypeMember_named hn (fun _ hopens => ?_) ?_
  · rcases hv with rfl | ⟨s, hs, rfl⟩
    · exact absurd (hplain.symm.trans hopens) Bool.false_ne_true
    · rw [List.singleton_append, Cursor.peekKind_prepend, hs] at hopens
      cases hopens
  · rw [Cursor.prepend_append]
    refine (maybe hv (by simp) ?_).bind (.peekKind_bind ?_)
    · exact behind_peekKind hderives (ne_mark_of_among hd (by decide)) (by simp)
    · rw [hplain]
      exact hw (k := k) (b := brace) (by simp only [slack]; omega) (follow_behind hd (by decide))

theorem method {n : Token} (hn : n.kind.namesMember = true) (hv : Token.MayBe (.mark .question) v)
    (hderives : Derives .signature w) (hw : Reads .signature w) : Reads .field (n :: (v ++ w)) := by
  intro k brace d hk hd
  simp only [slack, List.length_cons, List.length_append] at hk
  obtain ⟨o, w, rfl, ho⟩ := hderives.signature_head
  have hsignature := hw (k := k) (b := brace) (d := d) (by simp only [slack]; omega) hd
  refine bareTypeMember_named hn (fun _ hopens => ?_) ?_
  · rcases hv with rfl | ⟨s, hs, rfl⟩
    · exact hsignature
    · rw [List.singleton_append, Cursor.peekKind_prepend, hs] at hopens
      cases hopens
  · rw [Cursor.prepend_append]
    refine (maybe hv (by simp) ?_).bind (.peekKind_bind ?_)
    · rw [Cursor.peekKind_prepend]
      intro h
      rw [h] at ho
      cases ho
    · rw [Cursor.peekKind_prepend, ho]
      exact hsignature

theorem callMember (hderives : Derives .signature w) (hw : Reads .signature w) : Reads .field w := by
  intro k brace d hk hd
  have hsignature := hw (k := k) (b := brace) (d := d) hk hd
  obtain ⟨o, w, rfl, ho⟩ := hderives.signature_head
  have hkind : o.kind = .mark .openParen ∨ o.kind = .mark .less := by simpa [opensSignature] using ho
  refine .peekKind_bind ?_
  rw [Cursor.peekKind_prepend]
  rcases hkind with h | h <;> rw [h] <;> exact hsignature

/-- What is behind the closing bracket of a member. -/
theorem closesBracket {r : Production Unit} {d : Cursor} (hc : c.kind = .mark .closeBracket)
    (hv : Token.MayBe (.mark .question) v) (hderives : Derives (.behind .colon) w)
    (hd : d.peekKind.among ends = true) (hw : Crosses (ascribedType r) (d.prepend w) () d) :
    Crosses (do
      discard (accept (.mark .closeBracket))
      discard (optional (.mark .question))
      ascribedType r) (d.prepend (c :: (v ++ w))) () d := by
  refine (Crosses.accept hc (by simp)).discard.bind ?_
  rw [Cursor.prepend_append]
  exact (maybe hv (by simp)
    (behind_peekKind hderives (ne_mark_of_among hd (by decide)) (by simp))).bind hw

theorem index (ho : o.kind = .mark .openBracket) (ht : t.kind.isName = true)
    (hfirst : Derives (.behind .colon) u) (hu : Reads (behind .colon) u) (hc : c.kind = .mark .closeBracket)
    (hv : Token.MayBe (.mark .question) v) (hderives : Derives (.behind .colon) w)
    (hw : Reads (behind .colon) w) : Reads .field (o :: t :: (u ++ c :: (v ++ w))) := by
  intro k brace d hk hd
  simp only [slack, List.length_cons, List.length_append] at hk
  have hbehind : (d.prepend (c :: (v ++ w))).peekKind = .mark .closeBracket := hc
  refine .peekKind_bind ?_
  rw [Cursor.peekKind_prepend, ho]
  refine (Crosses.accept ho (by simp)).discard.bind ((Crosses.name ht).discard.bind (.isAtWord_bind ?_))
  rw [Cursor.prepend_append]
  have hword : ((d.prepend (c :: (v ++ w))).prepend u).peek.isWord "in" = false := by
    refine Token.isWord_of_kind ?_ _
    exact behind_peekKind hfirst (by rw [hbehind]; simp) (by simp)
  rw [hword]
  refine Crosses.bind (hu (k := k) (b := brace) (by simp only [slack]; omega) ?_)
    (closesBracket hc hv hderives hd
      (hw (k := k) (b := brace) (by simp only [slack]; omega) (follow_behind hd (by decide))))
  rw [hbehind]
  rfl

theorem mapped {i : Token} (ho : o.kind = .mark .openBracket) (ht : t.kind.isName = true)
    (hi : i.isWord "in" = true) (hu : Reads (.item .type) u) (hc : c.kind = .mark .closeBracket)
    (hv : Token.MayBe (.mark .question) v) (hderives : Derives (.behind .colon) w)
    (hw : Reads (behind .colon) w) : Reads .field (o :: t :: i :: (u ++ c :: (v ++ w))) := by
  intro k brace d hk hd
  simp only [slack, List.length_cons, List.length_append] at hk
  refine .peekKind_bind ?_
  rw [Cursor.peekKind_prepend, ho]
  refine (Crosses.accept ho (by simp)).discard.bind ((Crosses.name ht).discard.bind (.isAtWord_bind ?_))
  rw [Cursor.peek_prepend, hi]
  refine (Crosses.next (by rw [Token.kind_of_isWord hi]; simp)).discard.bind ?_
  rw [Cursor.prepend_append]
  refine Crosses.bind (hu.enters (by omega) ?_) (closesBracket hc hv hderives hd
    (hw (k := k) (b := brace) (by simp only [slack]; omega) (follow_behind hd (by decide))))
  rw [Cursor.peekKind_prepend, hc]
  rfl

/-- Behind the name of a member comes no name and no bracket, so `readonly` is a name there. -/
theorem startsReadonly_field {d : Cursor} (h : Derives .field w) (hd : d.peekKind.among ends = true) :
    (d.prepend w).startsReadonly = false := by
  have hnamed {n : Token} {v : List Token} (hv : ((d.prepend v).peekKind.isName ||
      (d.prepend v).peekKind == .mark .openBracket) = false) : (d.prepend (n :: v)).startsReadonly = false := by
    show (n.isWord "readonly" && _) = false
    exact (congrArg (n.isWord "readonly" && ·) hv).trans (Bool.and_false _)
  have hsign {o : Token} {v : List Token} (ho : opensSignature o.kind = true) :
      o.kind = .mark .openParen ∨ o.kind = .mark .less := by simpa [opensSignature] using ho
  have hmark {o : Token} {v : List Token} {m : Mark} (ho : o.kind = .mark m) :
      (d.prepend (o :: v)).startsReadonly = false := by
    unfold Cursor.startsReadonly
    rw [Cursor.peek_prepend, Token.isWord_of_kind (by rw [ho]; simp), Bool.false_and]
  cases h with
  | property hn hv hw =>
    refine hnamed ?_
    rcases hv with rfl | ⟨s, hs, rfl⟩
    · cases hw with
      | absent =>
        obtain ⟨m, hm, h⟩ := Kind.among_eq_true.1 hd
        rw [List.nil_append, Cursor.prepend_nil, h]
        clear h
        revert m
        decide
      | present ht _ =>
        rw [List.nil_append, Cursor.peekKind_prepend, ht]
        rfl
    · rw [List.singleton_append, Cursor.peekKind_prepend, hs]
      rfl
  | method hn hv hw =>
    refine hnamed ?_
    rcases hv with rfl | ⟨s, hs, rfl⟩
    · obtain ⟨o, w, rfl, ho⟩ := hw.signature_head
      rw [List.nil_append, Cursor.peekKind_prepend]
      rcases hsign ho (v := []) with h | h <;> rw [h] <;> rfl
    · rw [List.singleton_append, Cursor.peekKind_prepend, hs]
      rfl
  | callMember hw =>
    obtain ⟨o, w, rfl, ho⟩ := hw.signature_head
    rcases hsign ho (v := []) with h | h <;> exact hmark h
  | index ho _ _ _ _ _ | mapped ho _ _ _ _ _ _ => exact hmark ho

theorem member (hderives : Derives .field w) (hw : Reads .field w) : Reads .member w := by
  intro k brace d hk hd
  refine .asks_bind ?_
  rw [startsReadonly_field hderives hd]
  exact hw (k := k) (b := brace) hk hd

theorem readonly {s : Token} (hs : s.isWord "readonly" = true)
    (ht : t.kind.isName = true ∨ t.kind = .mark .openBracket) (hw : Reads .field (t :: w)) :
    Reads .member (s :: t :: w) := by
  intro k brace d hk hd
  simp only [slack, List.length_cons] at hk
  have hstarts : (d.prepend (s :: t :: w)).startsReadonly = true := by
    show (s.isWord "readonly" && (t.kind.isName || t.kind == .mark .openBracket)) = true
    rcases ht with h | h <;> rw [hs, h] <;> rfl
  refine .asks_bind ?_
  rw [hstarts]
  exact (Crosses.next (by rw [Token.kind_of_isWord hs]; simp)).discard.bind
    (hw (k := k) (b := brace) (by simp only [slack, List.length_cons]; omega) hd)

theorem membersClose (hc : c.kind = .mark .closeBrace) : Reads members [c] := by
  intro k brace d _ _
  refine .rounds_done (.peekKind_bind ?_)
  rw [Cursor.peekKind_prepend, hc]
  exact (Crosses.next (w := []) (by rw [hc]; simp)).discard.bind .pure

theorem membersSeparator {s : Token} (hs : s.kind.among [.comma, .semicolon] = true) (hw : Reads members w) :
    Reads members (s :: w) := by
  intro k brace d hk hd
  simp only [slack, List.length_cons] at hk
  refine .rounds_again (d := d.prepend w) (.peekKind_bind ?_)
    (Cursor.remaining_prepend_lt (by simp only [List.length_cons]; omega))
    (hw (k := k) (b := brace) (by simp only [slack]; omega) hd)
  have hend : s.kind ≠ .endOfFile := ne_of_among hs (by simp)
  have hnext : Crosses (do discard Production.next; return true) (d.prepend (s :: w)) true (d.prepend w) :=
    (Crosses.next hend).discard.bind .pure
  rw [Cursor.peekKind_prepend]
  have hkind : s.kind = .mark .comma ∨ s.kind = .mark .semicolon := by simpa [Kind.among] using hs
  rcases hkind with h | h <;> rw [h] <;> exact hnext

theorem membersMember {s : Token} (hderives : Derives .member v) (hv : Reads .member v)
    (hs : s.kind.among [.comma, .semicolon, .closeBrace] = true) (hw : Reads members (s :: w)) :
    Reads members (v ++ s :: w) := by
  intro k brace d hk hd
  obtain ⟨t, v, rfl, ht⟩ := hderives.member_head
  simp only [slack, List.length_append, List.length_cons] at hk
  refine .rounds_again (d := d.prepend (s :: w)) (.peekKind_bind ?_)
    (Cursor.remaining_prepend_lt (by simp only [List.length_append, List.length_cons]; omega))
    (hw (k := k) (b := brace) (by simp only [slack, List.length_cons]; omega) hd)
  have hmember : Crosses (do typeMember (Grammar.ofDepth k).type; return true)
      (d.prepend (t :: v ++ s :: w)) true (d.prepend (s :: w)) := by
    rw [Cursor.prepend_append]
    refine (hv (k := k) (b := brace) (by simp only [slack, List.length_cons]; omega) ?_).bind .pure
    obtain ⟨m, hm, h⟩ := Kind.among_eq_true.1 hs
    rw [Cursor.peekKind_prepend, h]
    clear h
    revert m
    decide
  have hnot {k : Kind} (hk : k.startsMember = false) (h : t.kind = k) : False :=
    Bool.false_ne_true ((h ▸ hk).symm.trans ht)
  rw [List.cons_append, Cursor.peekKind_prepend]
  split
  case h_5 => exact hmember
  all_goals
    next h => exact (hnot rfl h).elim

end Reads

/-- A part of a type is read to its end. -/
theorem Derives.reads {part : TypePart} {w : List Token} (h : Derives part w) : Reads part w := by
  induction h with
  | type hw ih => exact Reads.type hw.union_opens ih
  | leading ht _ ih => exact Reads.leading ht ih
  | last _ ih => exact Reads.last ih
  | join _ ht _ ihv ihw => exact Reads.join ihv ht ihw
  | function hu hw ih => exact Reads.function hw hu ih
  | operand hu hv hw ihv ihw => exact Reads.operand hv hu ihv hw ihw
  | plain => exact Reads.plain
  | array ho hc _ ih => exact Reads.array ho hc ih
  | named ht _ ih => exact Reads.named ht ih
  | generic ht _ ho _ hc ihv ihw => exact Reads.generic ht ihv ho ihw hc
  | query hq ht _ ih => exact Reads.query hq ht ih
  | literal ht => exact Reads.literal ht
  | negative hm ht => exact Reads.negative hm ht
  | pathEnd => exact Reads.pathEnd
  | pathDot hp ht _ ih => exact Reads.pathDot hp ht ih
  | parenthesized ho hw hc ih => exact Reads.parenthesized ho hw ih hc
  | tuple ho _ ih => exact Reads.tuple ho ih
  | object ho _ ih => exact Reads.object ho ih
  | element hu hv hw ih => exact Reads.element hu hv ih hw
  | callArrow ho _ ha _ ihv ihw => exact Reads.callArrow ho ihv ha ihw
  | arrow hw ih => exact Reads.arrow hw ih
  | genericArrow ho _ hc _ ihv ihw => exact Reads.genericArrow ho ihv hc ihw
  | constructor hn hw ih => exact Reads.constructor hn hw ih
  | parameter hu ht hv hw ih => exact Reads.parameter hu ht hv hw ih
  | typeParameter ht _ ih => exact Reads.typeParameter ht ih
  | unbound hw ih => exact Reads.unbound hw ih
  | bound ht _ hw ihv ihw => exact Reads.bound ht ihv hw ihw
  | absent => exact Reads.absent
  | present ht _ ih => exact Reads.present ht ih
  | separatedLast _ ih => exact Reads.separatedLast ih
  | separatedMore _ ht _ ihv ihw => exact Reads.separatedMore ihv ht ihw
  | listedClose hc => exact Reads.listedClose hc
  | listedLast hw hc ih => exact Reads.listedLast hw ih hc
  | listedMore hv ht _ ihv ihw => exact Reads.listedMore hv ihv ht ihw
  | membersClose hc => exact Reads.membersClose hc
  | membersSeparator hs _ ih => exact Reads.membersSeparator hs ih
  | membersMember hv hs _ ihv ihw => exact Reads.membersMember hv ihv hs ihw
  | member hw ih => exact Reads.member hw ih
  | readonly hr ht _ ih => exact Reads.readonly hr ht ih
  | property hn hv hw ih => exact Reads.property hn hv hw ih
  | method hn hv hw ih => exact Reads.method hn hv hw ih
  | callMember hw ih => exact Reads.callMember hw ih
  | index ho ht hu hc hv hw ihu ihw => exact Reads.index ho ht hu ihu hc hv hw ihw
  | mapped ho ht hi _ hc hv hw ihu ihw => exact Reads.mapped ho ht hi ihu hc hv hw ihw
  | call ho _ _ ihv ihw => exact Reads.call ho ihv ihw
  | signature hw ih => exact Reads.signature hw ih
  | genericSignature ho _ hc _ ihv ihw => exact Reads.genericSignature ho ihv hc ihw

end TypePart

end ScriptFront
