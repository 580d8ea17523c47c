import ScriptFront.Proofs.Erasure.MemberRead

/-!
# Types without their closing sign

A type ends with a name, a literal or a closing bracket. If it ends with the `>` sign of type arguments and
another operator stands in the place of that sign, the type is refused (`TypePart.Derives.cut`): all that
stands before the sign is read as it is in the type, and then the sign is missed.
-/

namespace ScriptFront

namespace Production

variable {α β : Type} {p : Production α} {f : α → Production β} {c d : Cursor} {a : α}

/-- Whether a production fails from a cursor on, and not for want of rounds. -/
def Refuses (p : Production α) (c : Cursor) : Prop := ∀ ctx, ∃ e, p ctx c = .error e ∧ e.cause ≠ .stalled

namespace Refuses

/-- What is refused behind the tokens that are read is refused. -/
theorem behind (hp : Crosses p c a d) (hf : Refuses (f a) d) : Refuses (p >>= f) c := by
  intro ctx
  rcases hp ctx with hok | ⟨position, hdeep⟩
  · rw [run_bind_of_ok hok]
    exact hf ctx
  · exact ⟨_, run_bind_of_error hdeep, by simp⟩

theorem bind (hp : Refuses p c) : Refuses (p >>= f) c := by
  intro ctx
  obtain ⟨e, herror, he⟩ := hp ctx
  exact ⟨e, run_bind_of_error herror, he⟩

theorem nested (hp : Refuses p c) : Refuses (Production.nested p) c := by
  intro ctx
  by_cases hdepth : ctx.depth < depthLimit
  · rw [run_nested p c hdepth]
    exact hp _
  · exact ⟨_, run_nested_of_le p c (Nat.not_lt.1 hdepth), by simp⟩

theorem accept {k : Kind} (h : c.peekKind ≠ k) : Refuses (Production.accept k) c :=
  fun ctx => ⟨_, run_accept_of_not ctx (beq_eq_false_iff_ne.2 h), by simp⟩

theorem peekKind_bind {f : Kind → Production β} (hf : Refuses (f c.peekKind) c) :
    Refuses (peekKind >>= f) c := hf

theorem peekNth_bind {n : Nat} {f : Token → Production β} (hf : Refuses (f (c.peekNth n)) c) :
    Refuses (peekNth n >>= f) c := hf

theorem isAt_bind {k : Kind} {f : Bool → Production β} (hf : Refuses (f (c.isAt k)) c) :
    Refuses (isAt k >>= f) c := hf

theorem asks_bind {h : Cursor → α} (hf : Refuses (f (h c)) c) : Refuses (asks h >>= f) c := hf

theorem rounds {p : Production Bool} (hp : Refuses p c) : Refuses (Production.rounds p) c := by
  intro ctx
  obtain ⟨e, herror, he⟩ := hp ctx
  exact ⟨e, run_bind_of_error (run_bind_of_error herror), he⟩

theorem rounds_again {p : Production Bool} (hp : Crosses p c true d) (hlt : d.remaining < c.remaining)
    (hrest : Refuses (Production.rounds p) d) : Refuses (Production.rounds p) c := by
  intro ctx
  obtain ⟨e, herror, he⟩ := hrest ctx
  rcases hp.bind (f := fun b => if b then Pure.pure (.again ()) else Pure.pure (.done ()))
    (b := Turn.again ()) .pure ctx with hok | ⟨position, hdeep⟩
  · refine ⟨e, (Crosses.run_loop_again hok hlt ?_).trans herror, he⟩
    intro position hstalled
    have := herror.symm.trans hstalled
    cases this
    exact he rfl
  · exact ⟨_, run_bind_of_error hdeep, by simp⟩

end Refuses

end Production

/-! ## Last tokens -/

namespace TypePart

open Production Token

/-- Whether the part is a type or may be the end of one. -/
def endsTypes : TypePart → Bool
  | item .type | union | operand | primary | function | arrow => true
  | _ => false

/-- What the last token of a part may be. -/
def endsWith : TypePart → Kind → Bool
  | path => Kind.isName
  | brackets => (· == .mark .closeBracket)
  | listed i => (· == .mark i.close)
  | members => (· == .mark .closeBrace)
  | part => fun k => !part.endsTypes ||
    (k.isName || k.isLiteralType || k.among [.closeParen, .closeBracket, .closeBrace, .greater])

namespace Derives

variable {part : TypePart} {w : List Token} {g : Token}

/-- The end of a type is not missing. -/
theorem ne_nil (h : Derives part w) (hpart : part.endsTypes = true) : w ≠ [] := by
  induction h with
  | type _ ih | last _ ih | arrow _ ih => exact ih rfl
  | function _ _ ih | operand _ _ _ ih _ => simp [ih rfl]
  | _ => first | (cases hpart; done) | simp

theorem closed_ne_nil {i : TypeItem} (h : Derives (listed i) w) : w ≠ [] := by cases h <;> simp

theorem members_ne_nil (h : Derives members w) : w ≠ [] := by cases h <;> simp

/-- A type ends with a name, a literal or a closing bracket. -/
theorem kind_last (h : Derives part w) : ∀ t ∈ w.getLast?, part.endsWith t.kind = true := by
  -- what stands behind other tokens, and what may be missing behind one
  have hbehind {p : Kind → Bool} {front w : List Token} (hne : w ≠ []) (hw : ∀ t ∈ w.getLast?, p t.kind = true) :
      ∀ t ∈ (front ++ w).getLast?, p t.kind = true := by
    rwa [List.getLast?_append_of_ne_nil front hne]
  have hskip {p : Kind → Bool} {t : Token} {w : List Token} (hne : w ≠ [])
      (hw : ∀ t ∈ w.getLast?, p t.kind = true) : ∀ s ∈ (t :: w).getLast?, p s.kind = true :=
    @hbehind p [t] w hne hw
  have hcons {p : Kind → Bool} {t : Token} {w : List Token} (ht : p t.kind = true)
      (hw : ∀ t ∈ w.getLast?, p t.kind = true) : ∀ s ∈ (t :: w).getLast?, p s.kind = true := by
    cases w with
    | nil => simpa using ht
    | cons s w => rwa [List.getLast?_cons_cons]
  have hlast {p : Kind → Bool} {front : List Token} {t : Token} (ht : p t.kind = true) :
      ∀ s ∈ (front ++ [t]).getLast?, p s.kind = true := hbehind (List.cons_ne_nil _ _) (hcons ht (by simp))
  have hname {k : Kind} (hk : k.isName = true) : primary.endsWith k = true := by simp [endsWith, hk]
  have hmark {k : Kind} {m : Mark} (hk : k = .mark m) (hm : primary.endsWith (.mark m) = true) :
      primary.endsWith k = true := hk ▸ hm
  induction h with
  | type _ ih | last _ ih | arrow _ ih => exact ih
  | leading _ hw ih => exact hskip (hw.ne_nil rfl) ih
  | join _ _ hw _ ih => exact hbehind (List.cons_ne_nil _ _) (hskip (hw.ne_nil rfl) ih)
  | function _ hw ih => exact hbehind (hw.ne_nil rfl) ih
  | operand _ hv hw ihv ihw =>
    refine hbehind (List.append_ne_nil_of_left_ne_nil (hv.ne_nil rfl) _) ?_
    cases hw with
    | plain => rwa [List.append_nil]
    | array ho hc hw =>
      refine hbehind (List.cons_ne_nil _ _) fun t ht => ?_
      exact hmark (m := .closeBracket) (eq_of_beq (ihw t ht)) rfl
  | plain | pathEnd => simp
  | array _ hc _ ih => exact hskip (List.cons_ne_nil _ _) (hcons (by simp [endsWith, hc]) ih)
  | named ht _ ih =>
    exact hcons (hname (Token.isName_of_namesType ht)) fun t h => hname (ih t h)
  | generic _ _ _ _ hc _ _ =>
    exact hskip (by simp) (hbehind (by simp) (hskip (by simp) (hlast (by rw [hc]; rfl))))
  | query _ ht _ ih =>
    exact hskip (List.cons_ne_nil _ _) (hcons (hname ht) fun t h => hname (ih t h))
  | literal ht => simp [endsWith, ht]
  | negative _ ht =>
    refine hskip (List.cons_ne_nil _ _) (hcons ?_ (by simp))
    rcases ht with h | h <;> rw [h] <;> rfl
  | pathDot _ ht _ ih => exact hskip (List.cons_ne_nil _ _) (hcons ht ih)
  | parenthesized _ _ hc _ => exact hskip (by simp) (hlast (by rw [hc]; rfl))
  | tuple _ hw ih =>
    refine hskip hw.closed_ne_nil fun t ht => ?_
    exact hmark (m := .closeBracket) (eq_of_beq (ih t ht)) rfl
  | object _ hw ih =>
    refine hskip hw.members_ne_nil fun t ht => ?_
    exact hmark (m := .closeBrace) (eq_of_beq (ih t ht)) rfl
  | callArrow _ _ _ hw _ ih =>
    exact hskip (by simp) (hbehind (by simp) (hskip (hw.ne_nil rfl) ih))
  | genericArrow _ _ _ hw _ ih =>
    exact hskip (by simp) (hbehind (by simp) (hskip (hw.ne_nil rfl) ih))
  | constructor _ hw ih => exact hskip (hw.ne_nil rfl) ih
  | listedClose hc => simp [endsWith, hc]
  | listedLast _ hc _ => exact hlast (by simp [endsWith, hc])
  | listedMore _ _ hw _ ih =>
    exact hbehind (List.cons_ne_nil _ _) (hskip hw.closed_ne_nil ih)
  | membersClose hc => simp [endsWith, hc]
  | membersSeparator _ hw ih => exact hskip hw.members_ne_nil ih
  | membersMember _ _ _ _ ih => exact hbehind (List.cons_ne_nil _ _) ih
  | _ => exact fun _ _ => rfl
end Derives

/-! ## Another sign in the place of the last -/

theorem exists_of_append (front : List Token) {v w : List Token} {g : Token} (hne : v ≠ [])
    (h : front ++ v = w ++ [g]) : ∃ u, v = u ++ [g] ∧ w = front ++ u := by
  obtain ⟨u, t, rfl⟩ := (List.eq_nil_or_concat v).resolve_left hne
  rw [List.concat_eq_append, ← List.append_assoc] at h
  obtain ⟨hw, ht⟩ := List.append_inj' h rfl
  obtain rfl := (List.cons.inj ht).1
  exact ⟨u, List.concat_eq_append, hw.symm⟩

section Front

variable {t g : Token} {v w : List Token}

/-- What a type does not start with may be missing behind its first token. -/
theorem Opens.front (h : Opens t (v ++ w)) : Opens t v := by
  refine ⟨h.first, fun ht s hs => h.second ht s ?_⟩
  rw [List.head?_append, hs]
  rfl

/-- A type that does not start with `>` has a first token before it. -/
theorem front_of_opens {t : Token} {v : List Token} (h : w ++ [g] = t :: v) (ht : Opens t v)
    (hg : g.kind = .mark .greater) : ∃ v', w = t :: v' ∧ Opens t v' := by
  cases w with
  | nil =>
    have hfirst := ht.first
    rw [← (List.cons.inj h).1, hg] at hfirst
    cases hfirst
  | cons s w =>
    obtain ⟨rfl, rfl⟩ := List.cons.inj h
    exact ⟨w, rfl, ht.front⟩

/-- What stands before the last token of a function type has the parameters and the arrow. -/
theorem Derives.arrow_front (h : Derives .arrow (w ++ [g])) : ∃ o v a u, o.kind = .mark .openParen ∧
    Derives (.listed .parameter) v ∧ a.kind = .mark .arrow ∧ w = o :: (v ++ a :: u) := by
  generalize hv : w ++ [g] = all at h
  cases h with
  | @callArrow o a v u ho hparameters ha hw =>
    have hfront : (o :: (v ++ [a])) ++ u = w ++ [g] := by simp [hv]
    obtain ⟨u, -, rfl⟩ := exists_of_append _ (hw.ne_nil rfl) hfront
    exact ⟨o, v, a, u, ho, hparameters, ha, by simp⟩

end Front

/-- Whether a part without its last token is refused in front of an operator. -/
def Cut (part : TypePart) (w : List Token) : Prop :=
  ∀ (k : Nat) (b : Position) (d : Cursor), w.length + 1 + part.slack ≤ k →
    d.peekKind = .mark .greaterEquals → Refuses (part.reader (Grammar.ofDepth k).type b) (d.prepend w)

/-- Type arguments are read up to what stands behind the last of them. -/
theorem Derives.separated_types {w : List Token} (h : Derives (separated .type) w) {k : Nat} {d : Cursor}
    (hk : w.length < k) (hd : d.peekKind.continuesType = false) (hcomma : d.peekKind ≠ .mark .comma) :
    Crosses (discard (Production.separated (Grammar.ofDepth k).type)) (d.prepend w) () d := by
  generalize hpart : separated .type = part at h
  induction h with
  | separatedLast hw =>
    cases hpart
    exact .separated_last (Reads.enters hw.reads hk hd) hcomma
  | @separatedMore _ t v w hv ht _ _ ih =>
    cases hpart
    rw [List.length_append, List.length_cons] at hk
    refine .separated_more (t := t) (d := d) (w := w) ?_ ht
      (Cursor.remaining_prepend_lt (by rw [List.length_append, List.length_cons]; omega)) (ih (by omega) rfl)
    rw [Cursor.prepend_append]
    refine Reads.enters hv.reads (by omega) ?_
    rw [Cursor.peekKind_prepend, ht]
    rfl
  | _ => cases hpart

namespace Cut

variable {t o c g : Token} {u v w : List Token}

theorem type (hg : g.kind = .mark .greater) (hderives : Derives .union (w ++ [g])) (hw : Cut union w) :
    Cut (.item .type) w := by
  intro k b d hk hd
  obtain ⟨t, v, hv, ht⟩ := hderives.union_opens
  obtain ⟨v, rfl, ht⟩ := front_of_opens hv ht hg
  cases k with
  | zero => exact absurd hk (Nat.not_succ_le_zero _)
  | succ k =>
    have hjoins : joinsTypes t.kind = false := by
      refine eq_false_of_ne_true fun h => ?_
      have hfirst := ht.first
      rcases joinsTypes_eq h with h | h <;> rw [h] at hfirst <;> cases hfirst
    show Refuses (Grammar.ofDepth (k + 1)).type _
    rw [Grammar.ofDepth_succ]
    refine .nested (.peekKind_bind ?_)
    rw [Cursor.peekKind_prepend, hjoins]
    exact hw k b d (Nat.le_of_succ_le_succ hk) hd

theorem leading (ht : joinsTypes t.kind = true) (hw : Cut union w) : Cut (.item .type) (t :: w) := by
  intro k b d hk hd
  cases k with
  | zero => exact absurd hk (Nat.not_succ_le_zero _)
  | succ k =>
    have hend : t.kind ≠ .endOfFile := fun h => by
      rw [h] at ht
      cases ht
    show Refuses (Grammar.ofDepth (k + 1)).type _
    rw [Grammar.ofDepth_succ]
    refine .nested (.peekKind_bind ?_)
    rw [Cursor.peekKind_prepend, ht]
    refine .behind (Crosses.next hend).discard (hw _ b d ?_ hd)
    simp only [slack, List.length_cons] at hk ⊢
    omega

theorem last (hw : Cut .operand w) : Cut union w :=
  fun k b d hk hd => (Refuses.bind (hw k b d hk hd)).rounds

theorem join (hderives : Derives .operand v) (ht : joinsTypes t.kind = true) (hw : Cut union w) :
    Cut union (v ++ t :: w) := by
  intro k b d hk hd
  simp only [slack, List.length_append, List.length_cons] at hk
  have hend : t.kind ≠ .endOfFile := fun h => by
    rw [h] at ht
    cases ht
  have hfollow : TypePart.operand.follow t.kind = true := by
    rcases joinsTypes_eq ht with h | h <;> rw [h] <;> rfl
  refine .rounds_again (d := d.prepend w) ?_ ?_ (hw k b d (by simp only [slack]; omega) hd)
  · rw [Cursor.prepend_append]
    refine (hderives.reads (k := k) (b := b) (d := d.prepend (t :: w)) (by simp only [slack]; omega)
      hfollow).bind (.peekKind_bind ?_)
    rw [Cursor.peekKind_prepend, ht]
    exact (Crosses.next hend).discard.bind .pure
  · exact Cursor.remaining_prepend_lt (by simp only [List.length_append, List.length_cons]; omega)

/-- A word in front of a type that is refused. -/
theorem operated {r : Production Unit} {d : Cursor}
    (hopens : ∃ t v, w ++ [g] = t :: v ∧ t.isTypeOperator = false ∧ Opens t v) (hg : g.kind = .mark .greater)
    (hu : Token.MayOperate u) (hw : Refuses (primaryType r) (d.prepend w)) :
    Refuses (arrayType r) (d.prepend (u ++ w)) := by
  obtain ⟨t, v, hv, ht, hopens⟩ := hopens
  obtain ⟨v, rfl, hopens⟩ := front_of_opens hv hopens hg
  intro ctx
  rw [Reads.run_operated ⟨t, v, rfl, ht, hopens⟩ hu]
  exact hw.bind ctx

theorem function (hg : g.kind = .mark .greater) (hu : Token.MayOperate u)
    (hderives : Derives .function (w ++ [g])) (hw : Cut .function w) : Cut union (u ++ w) := by
  intro k b d hk hd
  refine (Refuses.bind (operated hderives.function_opens hg hu (hw _ b d ?_ hd))).rounds
  simp only [slack, List.length_append] at hk ⊢
  omega

theorem operand (hg : g.kind = .mark .greater) (hu : Token.MayOperate u)
    (hderives : Derives .primary (w ++ [g])) (hw : Cut .primary w) : Cut .operand (u ++ w) := by
  intro k b d hk hd
  refine operated hderives.primary_opens hg hu (hw _ b d ?_ hd)
  simp only [slack, List.length_append] at hk ⊢
  omega

/-- Type arguments without the sign behind them. -/
theorem generic (ht : t.namesType = true) (hv : Derives path v) (ho : o.kind = .mark .less)
    (hw : Derives (separated .type) w) : Cut .primary (t :: (v ++ o :: w)) := by
  intro k b d hk hd
  simp only [slack, List.length_cons, List.length_append] at hk
  have hname : Crosses qualifiedName (d.prepend (t :: (v ++ o :: w))) () (d.prepend (o :: w)) := by
    unfold qualifiedName
    rw [← List.cons_append, Cursor.prepend_append]
    refine (Crosses.name (Token.isName_of_namesType ht)).discard.bind
      (hv.reads (k := k) (b := b) (by simp only [slack]; omega) ?_)
    rw [Cursor.peekKind_prepend, ho]
    rfl
  have hclosed : Refuses (typeArguments (Grammar.ofDepth k).type) (d.prepend (o :: w)) := by
    unfold typeArguments
    refine .behind (Crosses.accept ho (by simp)).discard (.behind (hw.separated_types (by omega) ?_ ?_) ?_)
    · rw [hd]
      rfl
    · simp [hd]
    · exact (Refuses.accept (by simp [hd])).bind
  intro ctx
  show ∃ e, primaryType _ ctx _ = _ ∧ _
  rw [Reads.run_primaryType_name ht]
  refine (Refuses.behind hname (.isAt_bind ?_) : Refuses (namedType _) _) ctx
  rw [Cursor.isAt_prepend, ho]
  exact hclosed

theorem callArrow {a : Token} (ho : o.kind = .mark .openParen) (hv : Derives (.listed .parameter) v)
    (ha : a.kind = .mark .arrow) (hw : Cut (.item .type) w) : Cut .arrow (o :: (v ++ a :: w)) := by
  intro k b d hk hd
  simp only [slack, List.length_append, List.length_cons] at hk
  refine .behind (Reads.parameterList ho hv.reads (by omega)) (.behind (Crosses.accept ha (by simp)).discard ?_)
  exact hw k b d (by simp only [slack]; omega) hd

theorem arrow (hderives : Derives .arrow (w ++ [g])) (hw : Cut .arrow w) : Cut .function w := by
  intro k b d hk hd
  obtain ⟨o, v, a, u, ho, hv, ha, rfl⟩ := hderives.arrow_front
  unfold reader primaryType
  refine .peekKind_bind ?_
  rw [Cursor.peekKind_prepend, ho]
  refine .asks_bind ?_
  rw [Reads.startsFunctionType_parameters hv ha]
  exact hw k b d hk hd

theorem genericArrow (ho : o.kind = .mark .less) (hv : Derives (separated .typeParameter) v)
    (hc : c.kind = .mark .greater) (hw : Cut .arrow w) : Cut .function (o :: (v ++ c :: w)) := by
  intro k b d hk hd
  simp only [slack, List.length_append, List.length_cons] at hk
  unfold reader primaryType
  refine .peekKind_bind ?_
  rw [Cursor.peekKind_prepend, ho]
  exact .behind (Reads.typeParameters ho hv.reads hc (by omega)) (hw k b d (by simp only [slack]; omega) hd)

theorem constructor {n : Token} (hn : n.kind = .keyword .newWord) (hderives : Derives .arrow (w ++ [g]))
    (hw : Cut .arrow w) : Cut .function (n :: w) := by
  intro k b d hk hd
  simp only [slack, List.length_cons] at hk
  obtain ⟨o, v, a, u, ho, -, -, rfl⟩ := hderives.arrow_front
  unfold reader primaryType
  refine .peekKind_bind ?_
  rw [Cursor.peekKind_prepend, hn]
  refine .peekNth_bind ?_
  rw [Cursor.peekNth_prepend, if_pos (show ((d.prepend (o :: (v ++ a :: u))).peekNth 0).kind = _ from ho)]
  refine .behind (Crosses.next (by simp [hn])).discard (hw _ b d ?_ hd)
  simp only [slack, List.length_cons] at hk ⊢
  omega

end Cut

/-- A part of a type that ends with a `>` sign is refused if the sign is another one. -/
theorem Derives.cut {part : TypePart} {v w : List Token} {g : Token} (h : Derives part v)
    (hpart : part.endsTypes = true) (hv : v = w ++ [g]) (hg : g.kind = .mark .greater) : Cut part w := by
  -- What does not end with a `>` sign is no end of the type.
  have hends {p : TypePart} {v w : List Token} (front : List Token) (hp : Derives p v) (hne : v ≠ [])
      (hmark : p.endsWith (.mark .greater) = false) : front ++ v ≠ w ++ [g] := by
    intro h
    obtain ⟨u, rfl, -⟩ := exists_of_append front hne h
    have := hp.kind_last g (by simp)
    rw [hg, hmark] at this
    cases this
  have hlast {w : List Token} {t : Token} (front : List Token) (ht : t.kind ≠ .mark .greater) :
      front ++ [t] ≠ w ++ [g] := fun h => ht ((List.cons.inj (List.append_inj' h rfl).2).1 ▸ hg)
  have hnot {t : Token} (ht : t.kind.isName = true) : t.kind ≠ .mark .greater := by
    intro h
    rw [h] at ht
    cases ht
  induction h generalizing w with
  | type hw ih => exact .type hg (hv ▸ hw) (ih rfl hv)
  | leading ht hw ih =>
    obtain ⟨u, hu, rfl⟩ := exists_of_append [_] (hw.ne_nil rfl) hv
    exact .leading ht (ih rfl hu)
  | last _ ih => exact .last (ih rfl hv)
  | @join t v w' hoperand ht hw _ ih =>
    rw [List.append_cons] at hv
    obtain ⟨u, hu, rfl⟩ := exists_of_append _ (hw.ne_nil rfl) hv
    rw [← List.append_cons]
    exact .join hoperand ht (ih rfl hu)
  | function hu hw ih =>
    obtain ⟨u, rfl, rfl⟩ := exists_of_append _ (hw.ne_nil rfl) hv
    exact .function hg hu hw (ih rfl rfl)
  | operand hu hprimary hw ih _ =>
    cases hw with
    | plain =>
      rw [List.append_nil] at hv
      obtain ⟨u, rfl, rfl⟩ := exists_of_append _ (hprimary.ne_nil rfl) hv
      exact .operand hg hu hprimary (ih rfl rfl)
    | array ho hc hw =>
      rw [← List.append_assoc] at hv
      exact absurd hv (hends _ (.array ho hc hw) (List.cons_ne_nil _ _) rfl)
  | @named t w' ht hw =>
    have hname := Token.isName_of_namesType ht
    cases hw with
    | pathEnd => exact absurd hv (hlast [] (hnot hname))
    | pathDot hp hs hw => exact absurd hv (hends [t] (.pathDot hp hs hw) (by simp) rfl)
  | @generic t o c v w' ht hpath ho hw hc _ _ =>
    have hfront : (t :: (v ++ o :: w')) ++ [c] = w ++ [g] := by simpa using hv
    obtain ⟨rfl, -⟩ := List.append_inj' hfront rfl
    exact .generic ht hpath ho hw
  | @query q t w' hq ht hw =>
    cases hw with
    | pathEnd => exact absurd hv (hlast [q] (hnot ht))
    | pathDot hp hs hw => exact absurd hv (hends [q, t] (.pathDot hp hs hw) (by simp) rfl)
  | @literal t ht =>
    refine absurd hv (hlast [] fun h => ?_)
    rw [h] at ht
    cases ht
  | @negative m t _ ht =>
    refine absurd hv (hlast [m] fun h => ?_)
    rw [h] at ht
    simp at ht
  | @parenthesized o c w' _ _ hc =>
    refine absurd hv (hlast (o :: w') fun h => ?_)
    rw [h] at hc
    cases hc
  | tuple _ hw => exact absurd hv (hends [_] hw hw.closed_ne_nil rfl)
  | object _ hw => exact absurd hv (hends [_] hw hw.members_ne_nil rfl)
  | @callArrow o a v w' ho hparameters ha hw _ ih =>
    have hfront : (o :: (v ++ [a])) ++ w' = w ++ [g] := by simpa using hv
    obtain ⟨u, hu, rfl⟩ := exists_of_append _ (hw.ne_nil rfl) hfront
    have hcut := Cut.callArrow ho hparameters ha (ih rfl hu)
    rwa [List.append_cons, ← List.cons_append] at hcut
  | arrow hw ih => exact .arrow (hv ▸ hw) (ih rfl hv)
  | @genericArrow o c v w' ho hparameters hc hw _ ih =>
    have hfront : (o :: (v ++ [c])) ++ w' = w ++ [g] := by simpa using hv
    obtain ⟨u, hu, rfl⟩ := exists_of_append _ (hw.ne_nil rfl) hfront
    have hcut := Cut.genericArrow ho hparameters hc (ih rfl hu)
    rwa [List.append_cons, ← List.cons_append] at hcut
  | constructor hn hw ih =>
    obtain ⟨u, rfl, rfl⟩ := exists_of_append [_] (hw.ne_nil rfl) hv
    exact .constructor hn hw (ih rfl rfl)
  | _ => cases hpart

end TypePart

end ScriptFront
