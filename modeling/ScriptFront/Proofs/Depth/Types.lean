import ScriptFront.Proofs.Brackets.Types
import ScriptFront.Proofs.Depth.Rises

/-!
# How many brackets types hold open

A type is nested, so it rises by nothing. The members of an object type rise most: by the brace around
them and the brackets of an index signature.
-/

set_option synthInstance.maxSize 4000

namespace ScriptFront

/-- Whether `d` is reached from `c` with at most one more bracket held open on the way, and none in the
end. -/
def Cursor.Strides (c d : Cursor) : Prop :=
  ∀ s : Place, ∃ s', c.Passes s (s.held + 1) d s' ∧ s'.held ≤ s.held

namespace Cursor.Strides

variable {c d e : Cursor}

theorem refl (c : Cursor) : c.Strides c := fun s => ⟨s, .refl c (Nat.le_succ _), Nat.le_refl _⟩

theorem trans (h : c.Strides d) (h' : d.Strides e) : c.Strides e := by
  intro s
  obtain ⟨s', hpass, hs'⟩ := h s
  obtain ⟨s'', hpass', hs''⟩ := h' s'
  exact ⟨s'', hpass.trans (hpass'.weaken (by omega)), Nat.le_trans hs'' hs'⟩

theorem closed (h : c.Strides d) (hc : c.Closed) : d.Closed := by
  obtain ⟨_, hpass, -⟩ := h .start
  exact hpass.closed hc

end Cursor.Strides

namespace Lookahead

/-! ## Type arguments in expressions -/

/-- Whether `f` steps over tokens that hold at most one more bracket open. -/
structure StepsHeld (f : Lookahead → Option Lookahead) : Prop where
  strides : ∀ {l l' : Lookahead}, l.cursor.Closed → f l = some l' → l.cursor.Strides l'.cursor

/-- A token that is stepped over is read. -/
theorem eat_next {l l' : Lookahead} {k : Kind} (hl : l.cursor.Closed) (hend : k ≠ .endOfFile)
    (h : l.eat k = some l') : l.cursor.peekKind = k ∧ l'.cursor = l.cursor.next := by
  obtain ⟨ahead, last, consumed⟩ := l
  unfold eat peek at h
  split at h
  · next hpeek =>
    cases h
    cases ahead with
    | nil => exact absurd (hpeek.symm.trans hl) hend
    | cons s rest =>
      refine ⟨hpeek, ?_⟩
      have hs : s.token.kind ≠ .endOfFile := fun hs => hend (hpeek.symm.trans hs)
      unfold Cursor.next cursor
      simp only
      rw [if_neg hs]
      rfl
  · cases h

theorem eat_passes {l l' : Lookahead} {k : Kind} {s : Place} {n : Nat} (hl : l.cursor.Closed)
    (hend : k ≠ .endOfFile) (h : l.eat k = some l') (hs : s.held ≤ n) (hk : (s.read k).held ≤ n) :
    l.cursor.Passes s n l'.cursor (s.read k) := by
  obtain ⟨rfl, hnext⟩ := eat_next hl hend h
  rw [hnext]
  obtain ⟨s', hpass, rfl | ⟨hkind, -⟩⟩ := l.cursor.next_passes hl hs hk
  · exact hpass
  · exact absurd hkind hend

theorem eat_strides (k : Kind) [hk : k.OpensNone] (hend : k ≠ .endOfFile) :
    StepsHeld (·.eat k) := by
  refine ⟨fun hl h s => ?_⟩
  have hread := s.held_read_of_not_opens hk.opens
  exact ⟨_, eat_passes hl hend h (Nat.le_succ _) (Nat.le_succ_of_le hread), hread⟩

/-- The brackets of an array type. -/
theorem eatBrackets_strides {l l' l'' : Lookahead} (hl : l.cursor.Closed)
    (hopen : l.eat (.mark .openBracket) = some l') (hclose : l'.eat (.mark .closeBracket) = some l'') :
    l.cursor.Strides l''.cursor := by
  intro s
  have hopened := s.held_read_le (.mark .openBracket)
  have hpass := eat_passes hl Kind.noConfusion hopen (Nat.le_succ _) hopened
  have hclosed := (s.read (.mark .openBracket)).held_read_of_not_opens (k := .mark .closeBracket) rfl
  have hpass' := eat_passes (hpass.closed hl) Kind.noConfusion hclose hopened
    (Nat.le_trans hclosed hopened)
  have hkinds : openBehind [] [.mark .openBracket, .mark .closeBracket] = some [] := rfl
  exact ⟨_, hpass.trans hpass', Place.held_readAll_le hkinds s⟩

theorem eatAll_strides {k : Kind} {more : Lookahead → Option Lookahead}
    (hround : ∀ {l l' l'' : Lookahead}, l.cursor.Closed → l.eat k = some l' → more l' = some l'' →
      l.cursor.Strides l''.cursor) : StepsHeld (eatAll k more) := by
  have hrounds : ∀ rounds, StepsHeld (whileEat k more rounds) := by
    intro rounds
    induction rounds with
    | nil =>
      refine ⟨fun {l l'} hl h => ?_⟩
      cases h
      exact .refl _
    | cons r rounds ih =>
      refine ⟨fun {l l'} hl h => ?_⟩
      unfold whileEat at h
      split at h
      · cases h
        exact .refl _
      · next l₁ heat =>
        split at h
        · cases h
        · next l₂ hmore =>
          have hfirst := hround hl heat hmore
          exact hfirst.trans (ih.strides (hfirst.closed hl) h)
  exact ⟨fun {l _} hl h => (hrounds l.ahead).strides hl h⟩

/-- Names with points between them, type arguments, and brackets. -/
theorem typeReference_strides {arguments : Lookahead → Option Lookahead}
    (h : StepsHeld arguments) : StepsHeld (typeReference arguments) := by
  have hidentifier := eat_strides .identifier Kind.noConfusion
  have hnames : StepsHeld (eatAll (.mark .dot) (·.eat .identifier)) :=
    eatAll_strides fun hl hdot hname =>
      have hstep := (eat_strides (.mark .dot) Kind.noConfusion).strides hl hdot
      hstep.trans (hidentifier.strides (hstep.closed hl) hname)
  have hsuffixes : StepsHeld (eatAll (.mark .openBracket) (·.eat (.mark .closeBracket))) :=
    eatAll_strides eatBrackets_strides
  refine ⟨fun hl hok => ?_⟩
  unfold typeReference at hok
  obtain ⟨l₁, hname, hok⟩ := Option.bind_eq_some_iff.1 hok
  obtain ⟨l₂, hrest, hok⟩ := Option.bind_eq_some_iff.1 hok
  have hstep₁ := hidentifier.strides hl hname
  have hstep₂ := hstep₁.trans (hnames.strides (hstep₁.closed hl) hrest)
  split at hok
  · obtain ⟨l₃, harguments, hok⟩ := Option.bind_eq_some_iff.1 hok
    have hstep₃ := hstep₂.trans (h.strides (hstep₂.closed hl) harguments)
    exact hstep₃.trans (hsuffixes.strides (hstep₃.closed hl) hok)
  · exact hstep₂.trans (hsuffixes.strides (hstep₂.closed hl) hok)

/-- Type arguments end with their closing mark. -/
theorem typeArguments_strides_greater {n : Nat} (h : StepsHeld (typeArguments n)) {l l' : Lookahead}
    (hl : l.cursor.Closed) (hok : typeArguments (n + 1) l = some l') :
    ∃ l'' : Lookahead, l.cursor.Strides l''.cursor ∧ l''.eat (.mark .greater) = some l' := by
  have hreference := typeReference_strides h
  have hmore : StepsHeld (eatAll (.mark .comma) (typeReference (typeArguments n))) :=
    eatAll_strides fun hl hcomma hnext =>
      have hstep := (eat_strides (.mark .comma) Kind.noConfusion).strides hl hcomma
      hstep.trans (hreference.strides (hstep.closed hl) hnext)
  unfold typeArguments at hok
  obtain ⟨l₁, hless, hok⟩ := Option.bind_eq_some_iff.1 hok
  obtain ⟨l₂, hfirst, hok⟩ := Option.bind_eq_some_iff.1 hok
  obtain ⟨l₃, hrest, hgreater⟩ := Option.bind_eq_some_iff.1 hok
  have hstep₁ := (eat_strides (.mark .less) Kind.noConfusion).strides hl hless
  have hstep₂ := hstep₁.trans (hreference.strides (hstep₁.closed hl) hfirst)
  exact ⟨l₃, hstep₂.trans (hmore.strides (hstep₂.closed hl) hrest), hgreater⟩

theorem typeArguments_strides (n : Nat) : StepsHeld (typeArguments n) := by
  induction n with
  | zero => exact ⟨fun _ h => nomatch h⟩
  | succ n ih =>
    refine ⟨fun hl hok => ?_⟩
    obtain ⟨l', hstep, hgreater⟩ := typeArguments_strides_greater ih hl hok
    exact hstep.trans ((eat_strides (.mark .greater) Kind.noConfusion).strides (hstep.closed hl)
      hgreater)

end Lookahead

namespace Production

variable {k : Nat}

/-- Type arguments are stepped over as a whole. -/
theorem genericArguments_ok {ctx : Context} {c d : Cursor} {u : Unit} (hc : c.Closed)
    (h : genericArguments ctx c = .ok (u, d)) :
    d = c ∨ ∃ l, (Lookahead.ofCursor c).typeArguments Lookahead.typeArgumentDepth = some l ∧
      l.cursor = d := by
  unfold genericArguments at h
  rw [run_asks_bind] at h
  cases hfound : (Lookahead.ofCursor c).typeArguments Lookahead.typeArgumentDepth with
  | none =>
    rw [hfound] at h
    cases h
    exact .inl rfl
  | some l =>
    rw [hfound] at h
    cases h
    obtain ⟨n, hconsumed, hcursor, -⟩ :=
      (Lookahead.typeArguments_steps _).steps (l := .ofCursor c) hc hfound []
    have hn : l.consumed = n := hconsumed.trans (Nat.zero_add n)
    refine .inr ⟨l, rfl, ?_⟩
    rw [hn]
    exact hcursor

instance genericArguments_rises : Rises (k + 1) genericArguments := by
  refine ⟨⟨fun {_ c s _ _} hc _ hok => ?_⟩⟩
  obtain rfl | ⟨l, hfound, rfl⟩ := genericArguments_ok hc hok
  · exact ⟨s, .refl _ (by omega)⟩
  · obtain ⟨s', hpass, -⟩ :=
      (Lookahead.typeArguments_strides _).strides (l := .ofCursor c) hc hfound s
    exact ⟨s', hpass.weaken (by omega)⟩

variable {type : Production Unit} [Nests type] [htype : ∀ k, Rises k type]

/-! ## Where types stand -/

instance ascribedType_rises : Rises k (ascribedType type) := by
  unfold ascribedType
  infer_instance

instance asTypes_rises : Rises k (asTypes type) := by
  unfold asTypes
  infer_instance

instance typeParameters_rises : Rises k (typeParameters type) := by
  unfold typeParameters
  dsimp only
  infer_instance

instance typeArguments_rises : Rises k (typeArguments type) := by
  unfold typeArguments
  infer_instance

instance typeAssertion_rises : Rises k (typeAssertion type) := by
  unfold typeAssertion
  infer_instance

/-! ## Parts of types -/

instance qualifiedName_rises : Rises k qualifiedName := by
  unfold qualifiedName
  infer_instance

instance typeParameterList_rises : Rises (k + 1) (typeParameterList type) := by
  unfold typeParameterList
  infer_instance

instance functionType_rises : Rises (k + 1) (functionType type) := by
  unfold functionType
  infer_instance

instance tupleType_rises : Rises (k + 1) (tupleType type) := by
  unfold tupleType
  infer_instance

instance signature_rises : Rises (k + 1) (signature type) := by
  unfold signature
  infer_instance

instance bracketMember_rises : Rises (k + 1) (bracketMember type) := by
  unfold bracketMember
  dsimp only
  infer_instance

instance namedMember_rises : Rises (k + 2) (namedMember type) := by
  unfold namedMember
  infer_instance

instance bareTypeMember_rises : Rises (k + 2) (bareTypeMember type) := by
  unfold bareTypeMember
  refine @Rises.bind _ _ _ _ _ inferInstance _ fun kind => ?_
  split <;> infer_instance

instance typeMember_rises : Rises (k + 2) (typeMember type) := by
  unfold typeMember
  refine ⟨.asks fun isReadonly => .ite (fun h => .skip (fun c s hc => ?_) fun _ => .rises)
    fun _ => .rises⟩
  have hword := hc.2.trans h
  unfold Cursor.startsReadonly at hword
  rw [Bool.and_eq_true] at hword
  exact Kind.opens_of_openBehind (Cursor.openBehind_of_isWord hword.1 [])

/-- The brace of an object type is closed by its last round. -/
instance objectType_rises : Rises (k + 3) (objectType type) := by
  unfold objectType
  refine @Rises.bind_lifts _ _ _ _ _ _ _ fun brace => .rounds_of ⟨.peekKind fun kind => ?_⟩ ?_
  · split
    · refine (Leaves.drop fun c s hc => ?_).bind fun _ => .looks
      rw [hc.2]
      rfl
    · exact .fail _ _
    · refine (Leaves.drop fun c s hc => ?_).bind fun _ => .looks
      rw [hc.2]
      rfl
    · refine (Leaves.drop fun c s hc => ?_).bind fun _ => .looks
      rw [hc.2]
      rfl
    · exact .settles
  · refine @Rises.bind _ _ _ _ _ inferInstance _ fun kind => ?_
    split <;> infer_instance

/-! ## Types -/

instance namedType_rises : Rises k (namedType type) := by
  unfold namedType
  infer_instance

instance primaryType_rises : Rises (k + 3) (primaryType type) := by
  unfold primaryType
  refine @Rises.bind _ _ _ _ _ inferInstance _ fun kind => ?_
  split <;> infer_instance

instance arrayType_rises : Rises (k + 3) (arrayType type) := by
  unfold arrayType
  dsimp only
  have hsuffix : Nests (do
      if ← asks Cursor.startsArraySuffix then
        advance 2
        return true
      else return false) := by
    refine ⟨fun before => .asks fun b => .ite (fun h => ?_) fun _ => .pure rfl⟩
    exact (arraySuffix_takes fun c hc => hc.2.trans h).bind fun _ => .pure rfl
  refine ⟨.asks fun isOperator => .ite (fun h => .skip (fun c s hc => ?_) fun _ => .rises)
    fun _ => .rises⟩
  have hword := hc.2.trans h
  unfold Cursor.startsTypeOperator at hword
  rw [Bool.and_eq_true, Bool.or_eq_true] at hword
  exact Kind.opens_of_openBehind
    (hword.1.elim (Cursor.openBehind_of_isWord · []) (Cursor.openBehind_of_isWord · []))

instance unionType_rises : Rises k (unionType type) := by
  have hround : Nests (do
      arrayType type
      if joinsTypes (← peekKind) then
        discard next
        return true
      else return false) := by
    refine ⟨fun before => .behind fun _ => .peekKind fun k => .ite (fun h => ?_) fun _ => .pure rfl⟩
    exact .skipAt (openBehind_of_joinsTypes h before) fun _ => .pure rfl
  unfold unionType
  dsimp only
  infer_instance

/-! ## Declarations of types -/

/-- The word in front of the types has been seen. -/
theorem heritageThen {P : Cursor → Place → Prop} {α : Type} {f : Unit → Production α}
    (h : ∀ c s, P c s → c.peekKind.openBehind [] = some [])
    (hf : ∀ u, Climbs Everywhere k (f u)) : Climbs P k (heritage type >>= f) := by
  have hleaves : Leaves P 0 (heritage type) :=
    ((heritage_takes (P := fun c => c.peekKind.openBehind [] = some []) fun _ hc => hc).leaves
      fun _ => Nat.le_refl 0).under h
  refine Climbs.bind ?_ hleaves hf (Nat.le_of_eq (Nat.zero_add k))
  unfold heritage
  exact .skip (fun c s hP => Kind.opens_of_openBehind (h c s hP)) fun _ => .rises

instance interfaceDeclaration_rises : Rises (k + 3) (interfaceDeclaration type) := by
  unfold interfaceDeclaration
  dsimp only
  refine ⟨.behind fun _ => .behind fun _ => .behind fun _ =>
    .asks (h := fun c => c.peek.isWord "extends") fun isHeir =>
    .asks (h := fun c => c.peek.isWord "implements") fun isMaker =>
    .ite (fun h => heritageThen (fun c s hc => ?_) fun _ => .rises) fun _ => .rises⟩
  rw [Bool.or_eq_true] at h
  obtain h | h := h
  · exact Cursor.openBehind_of_isWord (hc.1.2.trans h) []
  · exact Cursor.openBehind_of_isWord (hc.2.trans h) []

instance typeAlias_rises : Rises (k + 1) (typeAlias type) := by
  unfold typeAlias
  infer_instance

instance functionSignature_rises : Rises (k + 1) (functionSignature type) := by
  unfold functionSignature
  infer_instance

end Production

end ScriptFront
